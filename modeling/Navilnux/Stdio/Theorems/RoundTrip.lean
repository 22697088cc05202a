import Navilnux.Stdio.Strtoul
import Navilnux.Stdio.Theorems.Vsprintf

namespace Stdio

open Memory

variable {m : Memory} {null args buf fmt p : Word} {n k z fuel base : Nat} {b : Int} {c : Byte}
variable {l : List Byte} {o : Options} {ps qs : List Piece} {s : Spec} {ns : List Nat} {sign large : Bool}

def Separator (c : Byte) : Prop :=
  digitValue 36 c = none

instance {c : Byte} : Decidable (Separator c) :=
  inferInstanceAs <| Decidable (_ = _)

theorem digits_digitValue (large : Bool) : ∀ b : Nat, b < 37 → ∀ d : Nat, d < b →
    digitValue b ((if large then upper else lower).getD d 0) = some (d : Int) := by
  cases large <;> decide +kernel

theorem digits_not_isspace {large : Bool} : ∀ d < 36,
    ¬isspace ((if large then upper else lower).getD d 0) := by
  cases large <;> decide +kernel

theorem digits_not_x (large : Bool) : ∀ d < 16, (if large then upper else lower).getD d 0 ≠ ch 'x' ∧
    (if large then upper else lower).getD d 0 ≠ ch 'X' := by
  cases large <;> decide +kernel

theorem Separator.digitValue_eq (h : Separator c) (hb : b ≤ 36) : digitValue b c = none := by
  simp only [Separator, digitValue] at *
  grind

def zeroPadded (large : Bool) (base n z : Nat) : List Byte :=
  (Nat.digits base n ++ List.replicate z 0).reverse.map fun d => (if large then upper else lower).getD d 0

theorem replicate_zeroPadded : List.replicate k (ch '0') ++ zeroPadded large base n z =
    zeroPadded large base n (z + k) := by
  have hz : (if large then upper else lower).getD 0 0 = ch '0' := by cases large <;> rfl
  rw [zeroPadded, zeroPadded, List.reverse_append, List.reverse_append, List.reverse_replicate,
    List.reverse_replicate, List.map_append, List.map_append, List.map_replicate, List.map_replicate, hz,
    ← List.append_assoc, List.replicate_append_replicate, Nat.add_comm]

theorem numeral_eq_zeroPadded : numeral (if large then upper else lower) base n =
    zeroPadded large base n (if n = 0 then 1 else 0) := by
  rw [numeral, zeroPadded]
  by_cases hn : n = 0
  case pos =>
    rw [if_pos hn, if_pos hn, hn, Nat.digits_zero]
    cases large <;> rfl
  case neg => rw [if_neg hn, if_neg hn, List.replicate_zero, List.append_nil]

def hexText (f : Flags) (base : Nat) : List Byte :=
  if f.special ∧ base = 16 then [ch '0', if f.large then ch 'X' else ch 'x'] else []

theorem baseText_eq {f : Flags} : f.baseText (if f.large then upper else lower) base =
    hexText f base ++ List.replicate (if f.special ∧ base = 8 then 1 else 0) (ch '0') := by
  have hx : (if f.large then upper else lower).getD 33 0 = if f.large then ch 'X' else ch 'x' := by
    cases f.large <;> rfl
  rw [Flags.baseText, hexText, hx]
  cases f.special
  case false => rfl
  case true =>
    by_cases h₈ : base = 8
    case pos => simp [h₈]
    case neg =>
      by_cases h₁₆ : base = 16
      case pos => simp [h₁₆]
      case neg => simp [h₈, h₁₆]

theorem signText_eq_replicate {f : Flags} (h : ¬(f.sign ∧ f.plus)) : ∃ k,
    f.signText = List.replicate k (ch ' ') := by
  rw [Flags.signText]
  cases hs : f.sign
  case false => exact ⟨0, by simp⟩
  case true =>
    have hp : ¬f.plus := fun hp => h ⟨hs, hp⟩
    cases f.space
    case false => exact ⟨0, by simp [hp]⟩
    case true  => exact ⟨1, by simp [hp]⟩

theorem exists_layout (base n : Nat) (h : ¬(o.flags.sign ∧ o.flags.plus)) : ∃ k z r,
    integer o base n = List.replicate k (ch ' ') ++ (hexText o.flags base ++
      (zeroPadded o.flags.large base n z ++ List.replicate r (ch ' '))) ∧
    (n = 0 → 0 < z) ∧ (o.flags.special ∧ base = 8 → 0 < z) := by
  have ⟨i, hi⟩ := signText_eq_replicate h
  have hz {a : Nat} : n = 0 → 0 < (if n = 0 then 1 else 0) + a := by grind
  have he {a : Nat} : o.flags.special ∧ base = 8 →
      0 < a + (if o.flags.special ∧ base = 8 then 1 else 0) := by
    grind
  have hr {u v w : List Byte} : u ++ (v ++ w) = u ++ (v ++ (w ++ List.replicate 0 (ch ' '))) := by
    rw [List.replicate_zero, List.append_nil]
  simp only [integer, numeral_eq_zeroPadded, baseText_eq, hi, replicate_zeroPadded, List.append_assoc,
    justify]
  split
  case isTrue =>
    refine ⟨i, _, 0, hr, ?_, he⟩
    rw [Nat.add_assoc, Nat.add_assoc]
    exact hz
  case isFalse =>
    cases o.flags.left
    case false =>
      rw [if_neg Bool.false_ne_true, ← List.append_assoc, List.replicate_append_replicate]
      refine ⟨_, _, 0, hr, ?_, he⟩
      rw [Nat.add_assoc]
      exact hz
    case true =>
      refine ⟨i, _, _, if_pos rfl, ?_, he⟩
      rw [Nat.add_assoc]
      exact hz

theorem zeroPadded_lt (hb : 1 < base) :
    ∀ d ∈ (Nat.digits base n ++ List.replicate z 0).reverse, d < base := by
  intro d hd
  rw [List.mem_reverse, List.mem_append, List.mem_replicate] at hd
  cases hd
  case inl hd => exact Nat.digits_lt_base hb hd
  case inr hd => exact hd.right ▸ Nat.zero_lt_of_lt hb

theorem exists_digit (large : Bool) (l : List Byte) (hb : 1 < base) (hb' : base ≤ 16)
    (hn : n = 0 → 0 < z) (hc : Separator c) : ∃ d c' l',
    zeroPadded large base n z ++ c :: l = (if large then upper else lower).getD d 0 :: c' :: l' ∧ d < 16 ∧
    c' ≠ ch 'x' ∧ c' ≠ ch 'X' ∧ (0 < z → d = 0) := by
  have hx : c ≠ ch 'x' ∧ c ≠ ch 'X' := by
    constructor <;> (rintro rfl; exact absurd hc (by decide))
  have hd := zeroPadded_lt hb (n := n) (z := z)
  have hz : 0 < z → (Nat.digits base n ++ List.replicate z 0).reverse.head? = some 0 := by
    intro hz
    obtain ⟨z, rfl⟩ : ∃ k, z = k + 1 := ⟨z - 1, by omega⟩
    rw [List.reverse_append, List.reverse_replicate, List.replicate_succ]
    rfl
  have he : (Nat.digits base n ++ List.replicate z 0).reverse ≠ [] := by
    rw [Ne, List.reverse_eq_nil_iff, List.append_eq_nil_iff, Nat.digits_eq_nil_iff_eq_zero,
      List.replicate_eq_nil_iff]
    omega
  rw [zeroPadded]
  generalize (Nat.digits base n ++ List.replicate z 0).reverse = ds at *
  cases ds
  case nil => exact absurd rfl he
  case cons d ds =>
    have ⟨hd, hds⟩ := List.forall_mem_cons.mp hd
    have hd₀ (h : 0 < z) : d = 0 := Option.some.inj <| hz h
    cases ds
    case nil => exact ⟨d, c, l, rfl, by omega, hx.left, hx.right, hd₀⟩
    case cons d' ds =>
      have ⟨hd', _⟩ := List.forall_mem_cons.mp hds
      have ⟨h₁, h₂⟩ := digits_not_x large d' (by omega)
      exact ⟨d, _, _, rfl, by omega, h₁, h₂, hd₀⟩

theorem readDigits_zeroPadded (h : m.Bytes p (zeroPadded large base n z ++ c :: l)) (hb : 1 < base)
    (hb' : base ≤ 36) (hc : Separator c) (hf : (zeroPadded large base n z).length < fuel) :
    readDigits fuel m base 0 p =
      some (BitVec.ofNat 32 n, p + BitVec.ofNat 32 (zeroPadded large base n z).length) := by
  have hd : ∀ d ∈ (Nat.digits base n ++ List.replicate z 0).reverse, _ :=
    fun d hd => digits_digitValue large base (by omega) d <| zeroPadded_lt hb d hd
  rw [zeroPadded, List.length_map] at *
  rw [readDigits_eq h hd (hc.digitValue_eq (by omega)) hf, foldl_digits]

theorem strtoul_plain (h : m.Bytes p (List.replicate k (ch ' ') ++ (zeroPadded large base n z ++ c :: l)))
    (hb : 1 < base) (hb' : base ≤ 16) (hn : n = 0 → 0 < z) (hc : Separator c)
    (hf : k + (zeroPadded large base n z).length < fuel) (h₀ : b = base ∨ b = 0 ∧ base = 8 ∧ 0 < z) :
    strtoul fuel m p b = some (BitVec.ofNat 32 n,
      p + BitVec.ofNat 32 k + BitVec.ofNat 32 (zeroPadded large base n z).length) := by
  have ⟨d, c', l', hd, hlt, hx, hX, hz⟩ := exists_digit large l hb hb' hn hc
  have hs : skipSpace fuel m p = some (p + BitVec.ofNat 32 k) := by
    rw [hd] at h
    exact skipSpace_eq h (digits_not_isspace d (by omega)) (by omega)
  have h := h.drop
  rw [List.length_replicate] at h
  have ⟨h₁, h₂, _⟩ := hd ▸ h
  have hbase :
      (if b = 0 then if m (p + BitVec.ofNat 32 k) = ch '0' then 8 else 10 else b) = (base : Int) := by
    cases h₀
    case inl hb'' => rw [if_neg (by omega), hb'']
    case inr h₀ =>
      have ⟨hb₀, hb₈, hz₀⟩ := h₀
      have h' : m (p + BitVec.ofNat 32 k) = ch '0' := by
        rw [h₁, hz hz₀]
        cases large <;> rfl
      rw [if_pos hb₀, if_pos h', hb₈]
      rfl
  have hne : ¬((b = 16 ∨ b = 0) ∧ m (p + BitVec.ofNat 32 k) = ch '0' ∧
      (m (p + BitVec.ofNat 32 k + 1) = ch 'x' ∨ m (p + BitVec.ofNat 32 k + 1) = ch 'X')) := by
    rw [h₂]
    grind
  rw [strtoul, hs]
  simp only [Option.bind_eq_bind, Option.bind_some, if_neg hne]
  rw [hbase]
  exact readDigits_zeroPadded h hb (by omega) hc (by omega)

theorem strtoul_hex {x : Byte}
    (h : m.Bytes p (List.replicate k (ch ' ') ++ ch '0' :: x :: (zeroPadded large 16 n z ++ c :: l)))
    (hx : x = ch 'x' ∨ x = ch 'X') (hc : Separator c) (hf : k + 2 + (zeroPadded large 16 n z).length < fuel)
    (h₀ : b = 16 ∨ b = 0) : strtoul fuel m p b = some (BitVec.ofNat 32 n,
      p + BitVec.ofNat 32 k + 2 + BitVec.ofNat 32 (zeroPadded large 16 n z).length) := by
  have hs : skipSpace fuel m p = some (p + BitVec.ofNat 32 k) := skipSpace_eq h (by decide) (by omega)
  have h := h.drop
  rw [List.length_replicate] at h
  have ⟨h₁, h₂, h⟩ := h
  have hx : m (p + BitVec.ofNat 32 k + 1) = ch 'x' ∨ m (p + BitVec.ofNat 32 k + 1) = ch 'X' := by rwa [h₂]
  have hp : p + BitVec.ofNat 32 k + 1 + 1 = p + BitVec.ofNat 32 k + 2 := by bv_omega
  rw [hp] at h
  rw [strtoul, hs]
  simp only [Option.bind_eq_bind, Option.bind_some]
  rw [if_pos <| And.intro h₀ <| And.intro h₁ hx]
  have hf : (zeroPadded large 16 n z).length < fuel := by omega
  exact readDigits_zeroPadded h (by decide) (by decide) hc hf

-- A number is read again if it has no plus sign. The base `0` is for numbers with a prefix.
theorem strtoul_integer (h : m.Bytes p (integer o base n ++ c :: l)) (hb : base = 8 ∨ base = 10 ∨ base = 16)
    (hp : ¬(o.flags.sign ∧ o.flags.plus)) (hc : Separator c) (hf : (integer o base n).length < fuel)
    (h₀ : b = base ∨ b = 0 ∧ o.flags.special ∧ base ≠ 10) :
    ∃ k ≤ (integer o base n).length,
      strtoul fuel m p b = some (BitVec.ofNat 32 n, p + BitVec.ofNat 32 k) := by
  have ⟨k, z, r, he, hn, hz⟩ := exists_layout base n hp
  have ⟨c', l', hs, hc'⟩ : ∃ c' l', List.replicate r (ch ' ') ++ c :: l = c' :: l' ∧ Separator c' := by
    cases r
    case zero   => exact ⟨c, l, rfl, hc⟩
    case succ r => exact ⟨ch ' ', _, rfl, by decide⟩
  rw [he] at h hf ⊢
  simp only [List.append_assoc, List.length_append, List.length_replicate] at h hf ⊢
  rw [hs] at h
  by_cases hx : o.flags.special ∧ base = 16
  case pos =>
    have ⟨hsp, hb₁₆⟩ := hx
    subst hb₁₆
    have hl : hexText o.flags 16 = [ch '0', if o.flags.large then ch 'X' else ch 'x'] := if_pos hx
    rw [hl] at h hf ⊢
    rw [List.length_cons, List.length_singleton] at hf ⊢
    refine ⟨k + 2 + (zeroPadded o.flags.large 16 n z).length, by omega, ?_⟩
    have hk {j : Nat} :
        p + BitVec.ofNat 32 k + 2 + BitVec.ofNat 32 j = p + BitVec.ofNat 32 (k + 2 + j) := by
      bv_omega
    rw [strtoul_hex h (by grind) hc' (by omega) (by omega), hk]
  case neg =>
    have hl : hexText o.flags base = [] := if_neg hx
    rw [hl] at h hf ⊢
    rw [List.length_nil] at hf ⊢
    refine ⟨k + (zeroPadded o.flags.large base n z).length, by omega, ?_⟩
    have hb₀ : b = base ∨ b = 0 ∧ base = 8 ∧ 0 < z := by grind
    rw [strtoul_plain h (by omega) (by omega) hn hc' (by omega) hb₀, BitVec.ofNat_add, BitVec.add_assoc]

namespace Spec

def integerOptions (s : Spec) (m : Memory) (args : Word) (sign large : Bool) : Options :=
  let o := s.options m args
  { o with flags.sign := o.flags.sign || sign, flags.large := o.flags.large || large }

def integerValue (s : Spec) (m : Memory) (args : Word) (sign large : Bool) : Word :=
  (s.integerOptions m args sign large).value m (s.valueArgs args)

theorem output_integer (hc : s.conversion = some c) (hk : Conversion.of c = .integer base sign large) :
    (s.output m null n args).text =
      integer (s.integerOptions m args sign large) base (s.integerValue m args sign large).toNat := by
  simp only [output, convert, hc, Options.output, hk]
  rfl

end Spec

theorem Conversion.base_cases (h : Conversion.of c = .integer base sign large) :
    base = 8 ∨ base = 10 ∨ base = 16 := by
  simp only [Conversion.of] at h
  grind

-- The number that a directive has written can be read again from the buffer.
theorem strtoul_vsprintf {fuel' : Nat} (h : m.Text fmt l) (hf : l.length < fuel)
    (hi : (meaning m null args l).Bounded)
    (hs : (meaning m null args l).Apart ((fmt, l.length + 1) :: (meaning m null args l).reads) buf
      ((meaning m null args l).text.length + 1))
    (hp : pieces l = ps ++ .spec s :: qs) (hc : s.conversion = some c)
    (hk : Conversion.of c = .integer base sign large) :
    let before := output m null 0 args ps
    let field  := s.output m null before.text.length before.args
    let after  := output m null (before.text.length + field.text.length) field.args qs
    let o      := s.integerOptions m before.args sign large
    let start  := buf + BitVec.ofNat 32 before.text.length
    ¬(o.flags.sign ∧ o.flags.plus) → Separator (after.text.headD 0) → field.text.length < fuel' →
    b = base ∨ b = 0 ∧ o.flags.special ∧ base ≠ 10 →
    ∃ m' n, vsprintf null fuel m buf fmt args = some (m', n) ∧ ∃ k ≤ field.text.length,
      strtoul fuel' m' start b =
        some (s.integerValue m before.args sign large, start + BitVec.ofNat 32 k) := by
  intro before field after o start hplus hsep hf' hb
  have ht : (meaning m null args l).text = before.text ++ (field.text ++ after.text) := by
    rw [meaning, hp, output_append, output, Nat.zero_add]
    rfl
  have hlt := lt_of_disjoint (hs.text _ <| List.mem_cons_self ..) (Nat.succ_pos _)
  refine ⟨_, _, vsprintf_eq h hf hi hs, ?_⟩
  have hlen : ((meaning m null args l).text ++ [0]).length ≤ 2 ^ 32 := by
    rw [List.length_append]
    exact Nat.le_of_lt hlt
  have hbytes := bytes_setBytes (m := m.stores (meaning m null args l).stores) (a := buf) hlen
  rw [ht, List.append_assoc, List.append_assoc] at hbytes
  have hafter : after.text ++ [0] = after.text.headD 0 :: (after.text ++ [0]).tail := by
    cases after.text <;> rfl
  have hfield : field.text = integer o base (s.integerValue m before.args sign large).toNat :=
    Spec.output_integer hc hk
  rw [hafter, hfield] at hbytes
  rw [hfield] at hf'
  obtain ⟨k, hle, he⟩ := strtoul_integer hbytes.drop (Conversion.base_cases hk) hplus hsep hf' hb
  rw [BitVec.ofNat_toNat, BitVec.setWidth_eq] at he
  rw [ht, List.append_assoc, List.append_assoc, hafter, hfield]
  exact ⟨k, hle, he⟩

theorem strtoul_vsprintf_swi : ∃ m n, vsprintf 0 16 swiMemory 0x3000 0x1000 0x2000 = some (m, n) ∧
    ∃ k ≤ 1, strtoul 2 m 0x300c 10 = some (5, 0x300c + BitVec.ofNat 32 k) := by
  let s : Spec :=
    { flags := [], width := none, precision := none, qualifier := none, conversion := some (ch 'd') }
  let ps : List Piece := (swiFormat.take 12).map .char
  have hp : pieces swiFormat = ps ++ .spec s :: [.char (ch '\n')] := by decide +kernel
  have hk : Conversion.of (ch 'd') = .integer 10 true false := by decide
  have hargs : (output swiMemory 0 0 0x2000 ps).args = 0x2000 := by decide +kernel
  have hlen : (output swiMemory 0 0 0x2000 ps).text.length = 12 := by decide +kernel
  have hfield : (s.output swiMemory 0 12 0x2000).text.length = 1 := by decide +kernel
  have hvalue : s.integerValue swiMemory 0x2000 true false = 5 := by decide +kernel
  have h : ∃ m n, vsprintf 0 16 swiMemory 0x3000 0x1000 0x2000 = some (m, n) ∧
      ∃ k ≤ _, strtoul 2 m _ (10 : Nat) = some (_, _ + BitVec.ofNat 32 k) :=
    strtoul_vsprintf swiMemory_text (by decide) swiMemory_bounded swiMemory_apart hp rfl hk (by decide)
      (by decide) (by decide) (.inl rfl)
  rw [hargs, hlen, hfield, hvalue] at h
  exact h

end Stdio
