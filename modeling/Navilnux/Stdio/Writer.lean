import Mathlib.Data.Nat.Digits.Lemmas
import Navilnux.Stdio.Format

-- What the loops of `vsprintf.c` write.

namespace Stdio

open Memory

variable {w : Writer} {c : Byte} {l l' : List Byte} {low n : Int} {k left base : Nat} {s : Word}

namespace Writer

def puts (w : Writer) (l : List Byte) : Writer where
  mem := w.mem.setBytes w.str l
  str := w.str + BitVec.ofNat 32 l.length

@[simp] theorem puts_nil : w.puts [] = w := by
  simp [puts, setBytes]

@[simp] theorem puts_puts : (w.puts l).puts l' = w.puts (l ++ l') := by
  rw [puts, puts, puts, setBytes_append, List.length_append, BitVec.ofNat_add, BitVec.add_assoc]

theorem put_eq : w.put c = w.puts [c] :=
  rfl

theorem foldl_put : l.foldl put w = w.puts l := by
  induction l generalizing w
  case nil => exact puts_nil.symm
  case cons c l ih => rw [List.foldl_cons, ih, put_eq, puts_puts, List.singleton_append]

theorem fill_eq : w.fill c low n = (min n low, w.puts (List.replicate (n - low).toNat c)) := by
  induction n, w using fill.induct c low
  case case1 n w hlt ih =>
    have hn : (n - low).toNat = (n - 1 - low).toNat + 1 := by omega
    have hm : min (n - 1) low = min n low := by omega
    rw [fill, if_pos hlt, ih, put_eq, puts_puts, hn, hm, List.replicate_succ, List.singleton_append]
  case case2 n w hlt =>
    have hn : (n - low).toNat = 0 := by omega
    have hm : min n low = n := by omega
    rw [fill, if_neg hlt, hn, hm, List.replicate_zero, puts_nil]

theorem pad_eq : w.pad c low n = (int (min n low - 1), w.puts (List.replicate (n - low).toNat c)) := by
  rw [pad, fill_eq]

theorem copy_eq (h : w.mem.Bytes s l) (hd : Disjoint (range s l.length) (range w.str l.length)) :
    w.copy l.length s = w.puts l := by
  induction l generalizing w s
  case nil => exact puts_nil.symm
  case cons c l ih =>
    have ⟨hc, hb⟩ := h
    rw [List.length_cons] at hd
    have hb : (w.put c).mem.Bytes (s + 1) l := by
      refine hb.congr <| setBytes_eqOn (l := [c]) ?_
      exact hd.mono range_succ (range_mono <| Nat.succ_pos _)
    rw [List.length_cons, copy, hc, ih hb (hd.mono range_succ range_succ), put_eq, puts_puts]
    rfl

end Writer

section Number

variable {digits tmp : List Byte} {num : BitVec 64} {o : Options}

theorem convert_eq (hb : 2 ≤ base) (hb' : base < 2 ^ 32) (hn : num.toNat < 2 ^ 32)
    (hl : num.toNat < base ^ left) : convert digits (BitVec.ofNat 32 base) left num tmp =
      some (tmp ++ (Nat.digits base num.toNat).map fun d => digits.getD d 0) := by
  induction left generalizing num tmp
  case zero =>
    have hz : num = 0 := BitVec.eq_of_toNat_eq <| Nat.lt_one_iff.mp hl
    rw [convert, if_pos hz, hz]
    simp
  case succ left ih =>
    rw [convert]
    by_cases hz : num = 0
    case pos =>
      rw [if_pos hz, hz]
      simp
    case neg =>
      have hpos : num.toNat ≠ 0 := fun h => hz <| BitVec.eq_of_toNat_eq h
      have hw : (num.setWidth 32).toNat = num.toNat := by
        rw [BitVec.toNat_setWidth, Nat.mod_eq_of_lt hn]
      have hbase : (BitVec.ofNat 32 base).toNat = base := by
        rw [BitVec.toNat_ofNat, Nat.mod_eq_of_lt hb']
      have hr : (doDiv num (BitVec.ofNat 32 base)).1.toNat = num.toNat % base := by
        rw [doDiv, BitVec.toNat_umod, hw, hbase]
      have hq : (doDiv num (BitVec.ofNat 32 base)).2.toNat = num.toNat / base := by
        have hlt : num.toNat / base < 2 ^ 64 := Nat.lt_of_le_of_lt (Nat.div_le_self _ _) num.isLt
        rw [doDiv, BitVec.toNat_setWidth, BitVec.toNat_udiv, hw, hbase, Nat.mod_eq_of_lt hlt]
      have hq₁ : num.toNat / base < 2 ^ 32 := Nat.lt_of_le_of_lt (Nat.div_le_self _ _) hn
      have hq₂ : num.toNat / base < base ^ left := Nat.div_lt_of_lt_mul <| by rwa [← Nat.pow_succ']
      rw [if_neg hz, ih (hq ▸ hq₁) (hq ▸ hq₂), hq, hr, Nat.digits_eq_cons_digits_div hb hpos, List.map_cons,
        List.append_assoc, List.singleton_append]

theorem numeral_eq {n : Word} (hb : 2 ≤ base) (hb' : base ≤ 36) :
    (if n.setWidth 64 = 0 then some [ch '0']
      else convert digits (BitVec.ofNat 32 base) 66 (n.setWidth 64) []) =
        some (numeral digits base n.toNat).reverse := by
  have hn : (n.setWidth 64).toNat = n.toNat := by
    rw [BitVec.toNat_setWidth, Nat.mod_eq_of_lt (Nat.lt_trans n.isLt (by decide))]
  rw [numeral]
  by_cases hz : n.toNat = 0
  case pos =>
    have hz' : n.setWidth 64 = 0 := BitVec.eq_of_toNat_eq <| hn.trans hz
    rw [if_pos hz, if_pos hz']
    rfl
  case neg =>
    have hz' : ¬n.setWidth 64 = 0 := fun h => hz <| by rw [← hn, h]; rfl
    have hl : (n.setWidth 64).toNat < base ^ 66 := by
      have : 2 ^ 66 ≤ base ^ 66 := Nat.pow_le_pow_left hb 66
      have := n.isLt
      omega
    rw [if_neg hz, if_neg hz', convert_eq hb (by omega) (hn ▸ n.isLt) hl, hn, List.map_reverse,
      List.reverse_reverse, List.nil_append]

def Flags.signChar (f : Flags) : Byte :=
  if ¬f.sign then 0 else if f.plus then ch '+' else if f.space then ch ' ' else 0

theorem Flags.signText_eq {f : Flags} : f.signText = if f.signChar = 0 then [] else [f.signChar] := by
  rw [signText, signChar]
  cases f.sign <;> cases f.plus <;> cases f.space <;> rfl

theorem takeSign_eq {n : Word} {size : Int} {f : Flags} (hl : -1 ≤ size) (hs : size < 2 ^ 31) :
    takeSign (n.setWidth 64) size f = (f.signChar, n.setWidth 64, size - f.signText.length) := by
  have hsize : int (size - 1) = size - 1 := int_eq (by omega) (by omega)
  have hs : (n.setWidth 64).slt 0 = false := by
    have hn : (n.setWidth 64).toNat = n.toNat := by
      rw [BitVec.toNat_setWidth, Nat.mod_eq_of_lt (Nat.lt_trans n.isLt (by decide))]
    rw [BitVec.slt_eq_decide, BitVec.toInt_eq_toNat_of_lt (by omega)]
    exact decide_eq_false <| Int.not_lt.mpr <| Int.natCast_nonneg _
  rw [takeSign, hs, hsize, Flags.signChar, Flags.signText]
  cases f.sign <;> cases f.plus <;> cases f.space <;> simp

theorem takeBase_eq {size : Int} {f : Flags} (hl : -2 ≤ size) (hs : size < 2 ^ 31) :
    takeBase base size f = size - (f.baseText digits base).length := by
  have h₁ : int (size - 1) = size - 1 := int_eq (by omega) (by omega)
  have h₂ : int (size - 2) = size - 2 := int_eq (by omega) (by omega)
  rw [takeBase, h₁, h₂, Flags.baseText]
  cases f.special
  case false => simp
  case true =>
    by_cases h₈ : base = 8
    case pos => simp [h₈]
    case neg =>
      by_cases h₁₆ : base = 16
      case pos => simp [h₁₆]
      case neg => simp [h₈, h₁₆]

theorem Writer.lead_eq {f : Flags} :
    w.lead digits base f f.signChar = w.puts (f.signText ++ f.baseText digits base) := by
  have hs : (if f.signChar ≠ 0 then w.put f.signChar else w) = w.puts f.signText := by
    rw [Flags.signText_eq]
    by_cases hz : f.signChar = 0
    case pos => rw [if_pos hz, if_neg (not_not.mpr hz), puts_nil]
    case neg => rw [if_neg hz, if_pos hz, put_eq]
  rw [lead, hs, ← puts_puts, Flags.baseText]
  cases f.special
  case false => simp
  case true =>
    by_cases h₈ : base = 8
    case pos => simp [h₈, put_eq]
    case neg =>
      by_cases h₁₆ : base = 16
      case pos => simp [h₁₆, put_eq]
      case neg => simp [h₈, h₁₆]

theorem Writer.field_eq {f : Flags} {ds lead body : List Byte} {width precision : Int}
    (hl : f.left → ¬f.zeropad) (hlead : f.signText ++ f.baseText digits base = lead)
    (hbody : List.replicate (precision - ds.length).toNat (ch '0') ++ ds = body)
    (hlow : -2 ^ 31 + 2 ≤ width - lead.length - body.length) (hhigh : width < 2 ^ 31) :
    w.field digits base (width - lead.length) precision f f.signChar ds.reverse =
      w.puts (if f.zeropad then
        lead ++ (List.replicate (width - (lead ++ body).length).toNat (ch '0') ++ body)
      else justify f.left width (lead ++ body)) := by
  have hlen : (body.length : Int) = if precision < ds.length then (ds.length : Int) else precision := by
    rw [← hbody, List.length_append, List.length_replicate]
    omega
  have hzeros : List.replicate (body.length - ds.length : Int).toNat (ch '0') ++ ds = body := by
    rw [hlen, ← hbody]
    congr 2
    omega
  have hfill : (width - lead.length - body.length - 0).toNat = (width - (lead ++ body).length).toNat := by
    have : (lead ++ body).length = lead.length + body.length := List.length_append
    omega
  -- What is left of the field is counted down at most twice before the last loop.
  have hsize : int (width - lead.length - body.length) = width - lead.length - body.length :=
    int_eq (by omega) (by omega)
  have hdown {i : Int} (h : -2 ^ 31 + 1 ≤ i) : int (min i 0 - 1) = min i 0 - 1 :=
    int_eq (by omega) (by omega)
  have hdone {i : Int} : (min i 0 - 1 - 0).toNat = 0 := by omega
  simp only [field, List.length_reverse, List.reverse_reverse, pad_eq, lead_eq, hlead, foldl_put, ← hlen,
    hsize, puts_puts, hzeros, justify]
  cases hleft : f.left
  case true =>
    have hzero : f.zeropad = false := Bool.eq_false_iff.mpr (hl hleft)
    simp only [hzero, Bool.false_eq_true, or_true, not_true, if_true, if_false, puts_puts, hfill,
      List.append_assoc]
  case false =>
    cases hzero : f.zeropad
    case true =>
      simp (disch := omega) only [Bool.false_eq_true, or_false, not_true, not_false_eq_true, if_true,
        if_false, puts_puts, hfill, hdown, hdone, List.replicate_zero, List.append_nil, List.append_assoc]
    case false =>
      simp (disch := omega) only [Bool.false_eq_true, or_false, not_false_eq_true, if_true, if_false,
        puts_puts, hfill, hdown, hdone, List.replicate_zero, List.append_nil, List.append_assoc]

theorem Flags.signText_length_le {f : Flags} : f.signText.length ≤ 1 := by
  rw [signText]
  grind

theorem Flags.baseText_length_le {f : Flags} : (f.baseText digits base).length ≤ 2 := by
  rw [baseText]
  grind

theorem numeral_length_le {n : Word} (hb : 2 ≤ base) : (numeral digits base n.toNat).length ≤ 32 := by
  have hn : n.toNat < base ^ 32 := Nat.lt_of_lt_of_le n.isLt <| Nat.pow_le_pow_left hb 32
  rw [numeral]
  split
  case isTrue => exact Nat.succ_le_succ <| Nat.zero_le _
  case isFalse =>
    rw [List.length_map, List.length_reverse]
    exact (Nat.digits_length_le_iff hb _).mpr hn

theorem number_eq {n : Word} (hb : 2 ≤ base) (hb' : base ≤ 36) (ho : o.Bounded) :
    number w (n.setWidth 64) base o.fieldWidth o.precision o.flags =
      some (w.puts <| integer o base n.toNat) := by
  have hbase : ¬(base < 2 ∨ 36 < base) := by omega
  -- A field whose text is on the left is not filled with zeros.
  obtain ⟨f, hf⟩ : ∃ f, f = if o.flags.left then { o.flags with zeropad := false } else o.flags :=
    ⟨_, rfl⟩
  have hsign : f.signText = o.flags.signText := by rw [hf]; split <;> rfl
  have hprefix {d : List Byte} : f.baseText d base = o.flags.baseText d base := by rw [hf]; split <;> rfl
  have hleft : f.left = o.flags.left := by rw [hf]; split <;> rfl
  have hzero : (f.zeropad = true) = (o.flags.zeropad ∧ ¬o.flags.left) := by
    rw [hf]
    split
    case isTrue h  => simp [h]
    case isFalse h => simp [h]
  have hl : f.left → ¬f.zeropad := by
    rw [hzero, hleft]
    exact fun h hz => hz.right h
  have hsize {size : Int} {d : List Byte} : size - f.signText.length - (f.baseText d base).length =
      size - (f.signText ++ f.baseText d base).length := by
    rw [List.length_append]
    omega
  have hwidth : o.fieldWidth < 2 ^ 31 := ho.fieldWidth_lt
  obtain ⟨⟨hw, hw'⟩, hp, hp'⟩ := ho
  have hs : f.signText.length ≤ 1 := Flags.signText_length_le
  have hlow {d : List Byte} : -2 ^ 31 + 2 ≤ o.fieldWidth - (f.signText ++ f.baseText d base).length -
      (List.replicate (o.precision - (numeral d base n.toNat).length).toNat (ch '0') ++
        numeral d base n.toNat).length := by
    have : (f.baseText d base).length ≤ 2 := Flags.baseText_length_le
    have : (numeral d base n.toNat).length ≤ 32 := numeral_length_le hb
    rw [List.length_append, List.length_append, List.length_replicate]
    omega
  simp only [number, ← hf, if_neg hbase, takeSign_eq hw hwidth, numeral_eq hb hb', Option.map_some]
  rw [takeBase_eq (by omega) (by omega), hsize, Writer.field_eq hl rfl rfl hlow (by omega), hsign,
    hprefix, hleft]
  simp only [hzero]
  rfl

end Number

end Stdio
