import Navilnux.Stdio.Directive
import Navilnux.Stdio.Writer

-- What `vsprintf` writes for a directive.

namespace Stdio

open Memory

variable {m : Memory} {w : Writer} {d : Directive} {o : Options} {c : Byte} {l : List Byte} {n k : Nat}
variable {null buf s args fmt : Word} {base : Nat}

theorem strnlen_eq : strnlen m s k = (m.text s k).length := by
  induction k generalizing s
  case zero => rfl
  case succ k ih =>
    rw [strnlen, text]
    by_cases hz : m s = 0
    case pos => rw [if_neg (not_not.mpr hz), if_pos hz, List.length_nil]
    case neg => rw [if_pos hz, if_neg hz, List.length_cons, ih]

theorem Directive.getNum_eq : d.getNum m =
    (d.toOptions.value m d.args, { d with args := d.args + BitVec.ofNat 32 d.toOptions.size }) := by
  have hne : ch 'l' ≠ ch 'h' := by decide
  rw [getNum, Options.value, Options.size]
  by_cases hl : d.qualifier = some (ch 'l')
  case pos =>
    have hh : d.qualifier ≠ some (ch 'h') := by
      rw [hl]
      exact fun he => hne <| Option.some.inj he
    rw [if_pos hl, if_neg hh, if_neg hh]
    rfl
  case neg =>
    by_cases hh : d.qualifier = some (ch 'h')
    case pos =>
      rw [if_neg hl, if_pos hh, if_pos hh, if_pos hh]
      split <;> rfl
    case neg =>
      rw [if_neg hl, if_neg hh, if_neg hh, if_neg hh]
      rfl

def Writer.before (w : Writer) (left : Bool) (width : Int) (k : Nat) : Int × Writer :=
  if ¬left then w.pad (ch ' ') k width else (width, w)

theorem Writer.before_eq {left : Bool} {width : Int} (hw : -1 ≤ width) (hw' : width < 2 ^ 31) :
    (((w.before left width l.length).2.puts l).pad (ch ' ') l.length (w.before left width l.length).1).2 =
      w.puts (justify left width l) := by
  cases left
  case false =>
    have hdown : int (min width l.length - 1) = min width l.length - 1 := int_eq (by omega) (by omega)
    have hdone : (min width l.length - 1 - l.length).toNat = 0 := by omega
    simp [before, pad_eq, justify, hdown, hdone]
  case true => simp [before, pad_eq, justify]

-- `while (--n > 0)` is the loop with `1 < n--`.
theorem Writer.fill_eq_pad {i : Int} (hi : -2 ^ 31 < i) (hi' : i < 2 ^ 31) :
    w.fill c 0 (int (i - 1)) = w.pad c 1 i := by
  have hdown : int (i - 1) = i - 1 := int_eq (by omega) (by omega)
  have hmin : int (min i 1 - 1) = min (i - 1) 0 := (int_eq (by omega) (by omega)).trans (by omega)
  have hcount : i - 1 - 0 = i - 1 := Int.sub_zero _
  rw [fill_eq, pad_eq, hdown, hmin, hcount]

theorem Writer.before_bounds (w : Writer) (left : Bool) (k : Nat) {width : Int} (hw : -1 ≤ width)
    (hw' : width < 2 ^ 31) :
    -2 ≤ (w.before left width k).1 ∧ (w.before left width k).1 < 2 ^ 31 := by
  cases left
  case false =>
    have hdown : int (min width k - 1) = min width k - 1 := int_eq (by omega) (by omega)
    have hb : (w.before false width k).1 = min width k - 1 := by simp [before, pad_eq, hdown]
    omega
  case true => exact ⟨Int.le_trans (by decide) hw, hw'⟩

theorem Writer.exists_before (w : Writer) (left : Bool) (width : Int) (l : List Byte) : ∃ fill,
    (w.before left width l.length).2 = w.puts fill ∧
    fill.length + l.length ≤ (justify left width l).length := by
  cases left
  case false =>
    refine ⟨_, congrArg Prod.snd <| if_pos nofun |>.trans pad_eq, ?_⟩
    simp [justify]
  case true => exact ⟨[], puts_nil.symm, by simp [justify]⟩

theorem Writer.puts_eqOn {t : Set Word} (h : Disjoint t (range w.str k)) (hl : l.length ≤ k) :
    Set.EqOn (w.puts l).mem w.mem t :=
  setBytes_eqOn <| h.mono_right <| range_mono hl

-- The conversion does not overwrite what it reads.
def Output.Separate (o : Output) (a : Word) : Prop :=
  ∀ p ∈ o.reads, Disjoint (range p.1 p.2) (range a o.text.length)

theorem Conversion.base_of {sign large : Bool} (h : of c = integer base sign large) :
    2 ≤ base ∧ base ≤ 36 := by
  have hb : ∀ k, of c = k → ∀ b s l, k = integer b s l → b = 8 ∨ b = 10 ∨ b = 16 := by
    simp only [of]
    grind
  have := hb _ h _ _ _ rfl
  omega

namespace Directive

theorem convertChar_eq (ho : d.toOptions.Bounded)
    (h : (d.toOptions.charOutput w.mem d.args).Separate w.str) :
    d.convertChar w = (d.toOptions.charOutput w.mem d.args).state w (d.fmt + 1) := by
  have h := h _ (List.mem_singleton_self _)
  have ⟨fill, hw, hfill⟩ := w.exists_before d.flags.left d.fieldWidth [(w.mem.word d.args).setWidth 8]
  have hx : (w.before d.flags.left d.fieldWidth 1).2.mem.word d.args = w.mem.word d.args := by
    rw [List.length_singleton] at hw hfill
    rw [hw]
    exact word_eq <| Writer.puts_eqOn h <| Nat.le_of_succ_le hfill
  have hwidth : d.fieldWidth < 2 ^ 31 := ho.fieldWidth_lt
  have hlow : -1 ≤ d.fieldWidth := ho.fieldWidth.left
  have ⟨hn, hn'⟩ := w.before_bounds d.flags.left 1 hlow hwidth
  calc d.convertChar w
    _ = Directive.next { d with args := d.args + 4 } ((((w.before d.flags.left d.fieldWidth 1).2.puts
          [((w.before d.flags.left d.fieldWidth 1).2.mem.word d.args).setWidth 8]).pad (ch ' ') 1
          (w.before d.flags.left d.fieldWidth 1).1).2) := by
      rw [convertChar, Writer.fill_eq_pad (by omega) hwidth, ← Writer.fill_eq_pad (by omega) hn']
      rfl
    _ = Directive.next { d with args := d.args + 4 }
          (w.puts (justify d.flags.left d.fieldWidth [(w.mem.word d.args).setWidth 8])) := by
      rw [hx]
      exact congrArg _ <| Writer.before_eq (l := [(w.mem.word d.args).setWidth 8]) hlow hwidth
    _ = _ := rfl

theorem convertString_eq (ho : d.toOptions.Bounded)
    (h : (d.toOptions.stringOutput w.mem d.args null).Separate w.str) :
    d.convertString null w = (d.toOptions.stringOutput w.mem d.args null).state w (d.fmt + 1) := by
  obtain ⟨s, hs⟩ : ∃ s, s = if w.mem.word d.args = 0 then null else w.mem.word d.args := ⟨_, rfl⟩
  obtain ⟨l, hl⟩ : ∃ l, l = w.mem.text s (BitVec.ofInt 32 d.precision).toNat := ⟨_, rfl⟩
  have h₁ := h _ (List.mem_cons_self ..)
  have h₂ := h _ (List.mem_cons_of_mem _ <| List.mem_singleton_self _)
  rw [Options.stringOutput] at h₁ h₂
  dsimp only at h₁ h₂
  rw [← hs, ← hl] at h₁ h₂
  have hlt := lt_of_disjoint h₁ (by decide)
  have ⟨fill, hw, hfill⟩ := w.exists_before d.flags.left d.fieldWidth l
  have hle : l.length ≤ min (BitVec.ofInt 32 d.precision).toNat (l.length + 1) :=
    Nat.le_min.mpr ⟨hl ▸ text_length_le, Nat.le_succ _⟩
  have h₃ : Disjoint (range s l.length) (range w.str (justify d.flags.left d.fieldWidth l).length) :=
    h₂.mono_left <| range_mono hle
  have hcopy : (w.before d.flags.left d.fieldWidth l.length).2.copy l.length s =
      (w.before d.flags.left d.fieldWidth l.length).2.puts l := by
    rw [hw]
    refine Writer.copy_eq ?_ ?_
    · refine Bytes.congr ?_ <| Writer.puts_eqOn h₃ (by omega)
      exact hl ▸ bytes_text
    · refine h₃.mono_right ?_
      exact (range_add (by omega)).trans <| range_mono hfill
  have hlen : int l.length = l.length := by
    have hmax : (BitVec.ofInt 32 d.precision).toNat = (d.precision % 2 ^ 32).toNat := BitVec.toNat_ofInt ..
    have hp : -1 ≤ d.precision ∧ d.precision < 2 ^ 31 - 8 := ho.precision
    have hadd := add_le_of_disjoint h₂
    exact int_eq (by omega) (by omega)
  calc d.convertString null w
    _ = Directive.next { d with args := d.args + 4 } (((w.before d.flags.left d.fieldWidth l.length).2.copy
          l.length s).pad (ch ' ') l.length (w.before d.flags.left d.fieldWidth l.length).1).2 := by
      rw [convertString, ← hs, strnlen_eq, ← hl, hlen]
      rfl
    _ = Directive.next { d with args := d.args + 4 } (w.puts (justify d.flags.left d.fieldWidth l)) := by
      rw [hcopy, Writer.before_eq ho.fieldWidth.left ho.fieldWidth_lt]
    _ = _ := by
      rw [hl, hs]
      rfl

theorem convertPointer_eq (ho : d.toOptions.Bounded) :
    d.convertPointer w = some ((d.toOptions.pointerOutput w.mem d.args).state w (d.fmt + 1)) := by
  rw [convertPointer, Options.pointerOutput]
  by_cases hf : d.fieldWidth = -1
  case pos =>
    have h₈ : (-1 : Int) ≤ 8 ∧ (8 : Int) < 2 ^ 31 - 8 := by decide
    rw [if_pos hf, if_pos hf]
    exact bind_of_some (number_eq (o := { d.toOptions with fieldWidth := 8, flags.zeropad := true })
      (by decide) (by decide) ⟨h₈, ho.precision⟩) rfl
  case neg =>
    rw [if_neg hf, if_neg hf]
    exact bind_of_some (number_eq (by decide) (by decide) ho) rfl

theorem convertInteger_eq {sign large : Bool} (hb : 2 ≤ base) (hb' : base ≤ 36) (ho : d.toOptions.Bounded) :
    d.convertInteger base sign large w =
      some ((d.toOptions.integerOutput w.mem d.args base sign large).state w (d.fmt + 1)) := by
  rw [convertInteger, getNum_eq]
  exact bind_of_some (number_eq (o := { d.toOptions with
    flags.sign := d.flags.sign || sign, flags.large := d.flags.large || large }) hb hb'
    ⟨ho.fieldWidth, ho.precision⟩) rfl

theorem convertCount_eq (hn : w.str - buf = BitVec.ofNat 32 n) :
    d.convertCount buf w = (Options.countOutput w.mem d.args n).state w (d.fmt + 1) := by
  have hs : w.str + BitVec.ofNat 32 0 = w.str := BitVec.add_zero _
  rw [convertCount, hn, Options.countOutput, Output.state, List.length_nil, hs]
  rfl

theorem convert_zero (hz : w.mem d.fmt = 0) : d.convert null buf w =
    some (Output.state { text := [ch '%'], args := d.args } w d.fmt) := by
  have hp : (0 : Byte) ≠ ch '%' := by decide
  have hk : Conversion.of 0 = .default := by decide
  have hf : d.fmt - 1 + 1 = d.fmt := BitVec.sub_add_cancel ..
  rw [convert, hz, hk]
  simp only [hp, ne_eq, not_false_eq_true, not_true, if_true, if_false, next, hf]
  rfl

theorem convert_eq (hc : w.mem d.fmt = c) (hz : c ≠ 0) (hn : w.str - buf = BitVec.ofNat 32 n)
    (ho : d.toOptions.Bounded) (h : (d.toOptions.output w.mem d.args null n c).Separate w.str) :
    d.convert null buf w = some ((d.toOptions.output w.mem d.args null n c).state w (d.fmt + 1)) := by
  simp only [convert, hc, Options.output] at *
  cases hk : Conversion.of c
  case char    => rw [hk] at h; exact congrArg some <| convertChar_eq ho h
  case string  => rw [hk] at h; exact congrArg some <| convertString_eq ho h
  case pointer => exact convertPointer_eq ho
  case count   => exact congrArg some <| convertCount_eq hn
  case integer base sign large =>
    obtain ⟨hb, hb'⟩ := Conversion.base_of hk
    exact convertInteger_eq hb hb' ho
  case default =>
    simp only [hz, ne_eq, not_false_eq_true, if_true]
    by_cases hp : c = ch '%'
    case pos => rw [if_neg (not_not.mpr hp), if_pos hp]; rfl
    case neg =>
      rw [if_pos hp, if_neg hp, Writer.put_eq, Writer.put_eq, Writer.puts_puts]
      rfl

end Directive

theorem directive_eq {t : State} {I : Set Word} {fuel : Nat} (h : t.mem.TextIn I (t.fmt + 1) l)
    (hf : l.length < fuel) (hn : t.str - buf = BitVec.ofNat 32 n)
    (hb : ((Spec.split l).1.output t.mem null n t.args).Bounded)
    (hs : ((Spec.split l).1.output t.mem null n t.args).Separate t.str) : ∃ fmt,
    directive null buf fuel t = some (((Spec.split l).1.output t.mem null n t.args).state t.toWriter fmt) ∧
    t.mem.TextIn I fmt (Spec.split l).2 := by
  have hb := Spec.bounded_options hb
  obtain ⟨fmt, l', he, ht, hc, hl⟩ := directive_read null buf h hf hb
  have hs : ((Spec.split l).1.convert t.mem null n t.args).Separate t.str :=
    fun p hp => hs p <| List.mem_append_right _ hp
  have ho {fmt : Word} : ((Spec.split l).1.output t.mem null n t.args).state t.toWriter fmt =
      ((Spec.split l).1.convert t.mem null n t.args).state t.toWriter fmt := rfl
  rw [he, hl]
  cases l'
  case nil =>
    have hz : t.mem fmt = 0 := ht.text
    refine ⟨fmt, ?_, ht⟩
    rw [ho, Spec.convert, hc]
    exact Directive.convert_zero hz
  case cons c l' =>
    have hc : (Spec.split l).1.conversion = some c := hc
    refine ⟨fmt + 1, ?_, ht.tail⟩
    rw [Spec.convert, hc] at hs
    rw [ho, Spec.convert, hc]
    exact Directive.convert_eq ht.text.head ht.text.head_ne hn hb hs

end Stdio
