import Mathlib.Data.List.TakeWhile
import Navilnux.Stdio.Format

-- How `vsprintf` reads a directive.

namespace Stdio

open Memory

variable {m : Memory} {I : Set Word} {a fmt args : Word} {c : Byte} {l : List Byte} {fuel : Nat} {i : Int}
variable {f : Flags} {d : Directive}

theorem bind_of_some {α β : Type} {o : Option α} {k : α → Option β} {x : α} {y : Option β}
    (h : o = some x) (hk : k x = y) : o.bind k = y := by
  rw [h]
  exact hk

theorem isdigit_zero : ¬isdigit 0 := by decide

theorem isdigit_le : ∀ c : Byte, isdigit c → (ch '0').toNat ≤ c.toNat := by decide +kernel

theorem int_step {j : Int} : int (int i * 10 + j) = int (i * 10 + j) := by
  have hm : (i.bmod (2 ^ 32) * 10).bmod (2 ^ 32) = (i * 10).bmod (2 ^ 32) := Int.bmod_mul_bmod
  rw [int, int, int, Int.add_bmod, hm, ← Int.add_bmod]

-- The number at the beginning of a text, if the `int` does not wrap.
theorem skipAtoi_eq (h : m.TextIn I a l) (hf : l.length < fuel) : ∃ a',
    skipAtoi fuel m a (int i) = some (int <| decimal i <| l.takeWhile isdigit, a') ∧
    m.TextIn I a' (l.dropWhile isdigit) := by
  induction l generalizing fuel a i
  case nil =>
    obtain ⟨fuel, rfl⟩ : ∃ k, fuel = k + 1 := ⟨fuel - 1, by omega⟩
    have hz : m a = 0 := h.text
    rw [skipAtoi, hz, if_neg isdigit_zero]
    exact ⟨_, rfl, h⟩
  case cons c l ih =>
    rw [List.length_cons] at hf
    obtain ⟨fuel, rfl⟩ : ∃ k, fuel = k + 1 := ⟨fuel - 1, by omega⟩
    rw [skipAtoi, h.text.head]
    split
    case isTrue hc =>
      simp only [List.takeWhile_cons, List.dropWhile_cons, decide_eq_true hc, if_true]
      rw [Int.add_sub_assoc, int_step, ← Int.add_sub_assoc]
      exact ih h.tail (by omega)
    case isFalse hc =>
      simp only [List.takeWhile_cons, List.dropWhile_cons, decide_eq_false hc, Bool.false_eq_true, if_false]
      exact ⟨_, rfl, h⟩

theorem decimal_nonneg (h : ∀ d ∈ l, isdigit d) (hi : 0 ≤ i) : 0 ≤ decimal i l := by
  induction l generalizing i
  case nil => exact hi
  case cons d l ih =>
    obtain ⟨hd, hl⟩ := List.forall_mem_cons.mp h
    have hle := isdigit_le d hd
    have hi : 0 ≤ i * 10 + d.toNat - (ch '0').toNat := by omega
    exact ih hl hi

theorem Amount.decimal_split {ds : List Byte} (h : (split l).1 = some (digits ds)) : 0 ≤ decimal 0 ds := by
  cases l
  case nil => cases h
  case cons c l =>
    rw [split] at h
    split at h
    case isTrue =>
      cases h
      have hd : ∀ d ∈ (c :: l).takeWhile isdigit, decide (isdigit d) = true :=
        fun _ => List.mem_takeWhile_imp
      exact decimal_nonneg (fun d h => of_decide_eq_true <| hd d h) (Int.le_refl 0)
    case isFalse => split at h <;> cases h

theorem Amount.int_value {x : Amount} (h : (split l).1 = some x) (hi : x.value m a < 2 ^ 31) :
    int (x.value m a) = x.value m a := by
  cases x
  case digits =>
    have : 0 ≤ decimal 0 _ := decimal_split h
    exact int_eq (Int.le_trans (by decide) this) hi
  case star => exact int_eq (BitVec.le_toInt _) hi

theorem Flags.add_zero : f.add 0 = none :=
  rfl

theorem Flags.isSome_add : (f.add c).isSome = Spec.isFlag c := by
  simp only [Spec.isFlag, add]
  grind

namespace Directive

theorem processFlags_eq (h : m.TextIn I (d.fmt + 1) l) (hf : l.length < fuel) : ∃ fmt,
    processFlags fuel m d = some { d with flags := d.flags.addAll (l.takeWhile Spec.isFlag), fmt } ∧
    m.TextIn I fmt (l.dropWhile Spec.isFlag) := by
  induction l generalizing fuel d
  case nil =>
    obtain ⟨fuel, rfl⟩ : ∃ k, fuel = k + 1 := ⟨fuel - 1, by omega⟩
    have hz : m (d.fmt + 1) = 0 := h.text
    rw [processFlags, hz, Flags.add_zero]
    exact ⟨_, rfl, h⟩
  case cons c l ih =>
    rw [List.length_cons] at hf
    obtain ⟨fuel, rfl⟩ : ∃ k, fuel = k + 1 := ⟨fuel - 1, by omega⟩
    have hs := Flags.isSome_add (f := d.flags) (c := c)
    rw [processFlags, h.text.head]
    split
    case h_1 f hc =>
      rw [hc] at hs
      rw [List.takeWhile_cons_of_pos hs.symm, List.dropWhile_cons_of_pos hs.symm, Flags.addAll,
        List.foldl_cons, hc]
      exact ih (d := { d with flags := f, fmt := d.fmt + 1 }) h.tail (by omega)
    case h_2 hc =>
      rw [hc] at hs
      have hs : ¬Spec.isFlag c = true := by rw [← hs]; exact nofun
      rw [List.takeWhile_cons_of_neg hs, List.dropWhile_cons_of_neg hs]
      exact ⟨_, rfl, h⟩

end Directive

inductive AmountAt (m : Memory) (I : Set Word) (fuel : Nat) (a : Word) : Option Amount × List Byte → Prop
  | digits {ds : List Byte} {a' : Word} {l : List Byte} (hd : isdigit (m a))
      (he : skipAtoi fuel m a 0 = some (int <| decimal 0 ds, a')) (h : m.TextIn I a' l) :
      AmountAt m I fuel a (some <| .digits ds, l)
  | star {l : List Byte} (hd : ¬isdigit (m a)) (hs : m a = ch '*') (h : m.TextIn I (a + 1) l) :
      AmountAt m I fuel a (some .star, l)
  | none {l : List Byte} (hd : ¬isdigit (m a)) (hs : m a ≠ ch '*') (h : m.TextIn I a l) :
      AmountAt m I fuel a (Option.none, l)

theorem amountAt_split (h : m.TextIn I a l) (hf : l.length < fuel) :
    AmountAt m I fuel a (Amount.split l) := by
  cases l
  case nil =>
    have hz : m a = 0 := h.text
    exact .none (hz ▸ isdigit_zero) (hz ▸ by decide) h
  case cons c l =>
    have hc := h.text.head
    rw [Amount.split]
    split
    case isTrue hd =>
      obtain ⟨_, he, ht⟩ := skipAtoi_eq (i := 0) h hf
      exact .digits (hc ▸ hd) he ht
    case isFalse hd =>
      split
      case isTrue hs  => exact .star (hc ▸ hd) (hc ▸ hs) h.tail
      case isFalse hs => exact .none (hc ▸ hd) (hc ▸ hs) h

namespace Directive

theorem getFieldWidth_eq (h : m.TextIn I d.fmt l) (hf : l.length < fuel) (hw : d.fieldWidth = -1)
    (hi : ∀ x ∈ (Amount.split l).1, (x.value m d.args).natAbs < 2 ^ 31) : ∃ fmt,
    getFieldWidth fuel m d = some {
      flags :=
        match (Amount.split l).1 with
        | some .star => if (m.word d.args).toInt < 0 then { d.flags with left := true } else d.flags
        | _          => d.flags
      fieldWidth :=
        match (Amount.split l).1 with
        | some .star => (m.word d.args).toInt.natAbs
        | some w     => w.value m d.args
        | none       => -1
      precision := d.precision
      qualifier := d.qualifier
      fmt
      args := d.args + BitVec.ofNat 32 ((Amount.split l).1.elim 0 Amount.size)
    } ∧ m.TextIn I fmt (Amount.split l).2 := by
  have ha := amountAt_split h hf
  generalize Amount.split l = p at *
  rw [getFieldWidth]
  cases ha
  case digits ds _ _ hd he ht =>
    have hi : (decimal 0 ds).natAbs < 2 ^ 31 := hi _ rfl
    have hd₀ : int (decimal 0 ds) = decimal 0 ds := int_eq (by omega) (by omega)
    rw [if_pos hd, he, hd₀]
    refine ⟨_, ?_, ht⟩
    simp [Amount.value, Amount.size]
  case star hd hs ht =>
    have hi : (m.word d.args).toInt.natAbs < 2 ^ 31 := hi _ rfl
    rw [if_neg hd, if_pos hs]
    refine ⟨d.fmt + 1, ?_, ht⟩
    by_cases hn : (m.word d.args).toInt < 0
    case pos =>
      have hn' : int (-(m.word d.args).toInt) = (m.word d.args).toInt.natAbs := by
        rw [int_eq (by omega) (by omega)]
        omega
      simp only [hn, if_true, hn', Option.elim, Amount.size]
      rfl
    case neg =>
      have hn' : (m.word d.args).toInt = (m.word d.args).toInt.natAbs := by omega
      simp only [hn, if_false, ← hn', Option.elim, Amount.size]
      rfl
  case none hd hs ht =>
    rw [if_neg hd, if_neg hs]
    refine ⟨_, ?_, ht⟩
    simp [← hw]

theorem getPrecision_eq (h : m.TextIn I d.fmt l) (hf : l.length < fuel) (hp : d.precision = -1)
    (hi : ∀ p ∈ (Spec.splitPrecision l).1, ∀ x ∈ p, x.value m d.args < 2 ^ 31) : ∃ fmt,
    getPrecision fuel m d = some { d with
      precision :=
        match (Spec.splitPrecision l).1 with
        | some (some p) => max 0 (p.value m d.args)
        | some none     => 0
        | none          => -1
      fmt
      args := d.args + BitVec.ofNat 32 ((Spec.splitPrecision l).1.elim 0 fun p => p.elim 0 Amount.size)
    } ∧ m.TextIn I fmt (Spec.splitPrecision l).2 := by
  cases l
  case nil =>
    have hz : m d.fmt = 0 := h.text
    have hs : (0 : Byte) ≠ ch '.' := by decide
    rw [getPrecision, hz, if_neg hs]
    refine ⟨d.fmt, ?_, h⟩
    simp [Spec.splitPrecision, ← hp]
  case cons c l =>
    have hmax {i : Int} : (if i < 0 then 0 else i) = max 0 i := by omega
    rw [Spec.splitPrecision] at hi
    rw [getPrecision, h.text.head, Spec.splitPrecision]
    by_cases hc : c = ch '.'
    case neg =>
      rw [if_neg hc, if_neg hc]
      refine ⟨d.fmt, ?_, h⟩
      simp [← hp]
    case pos =>
      have ha := amountAt_split h.tail (Nat.lt_of_succ_lt hf)
      rw [if_pos hc] at hi
      replace hi : ∀ x ∈ (Amount.split l).1, int (x.value m d.args) = x.value m d.args :=
        fun x hx => Amount.int_value hx <| hi _ rfl x hx
      rw [if_pos hc, if_pos hc]
      generalize Amount.split l = p at *
      cases ha
      case digits ds _ _ hd he ht =>
        have hd₀ : int (decimal 0 ds) = decimal 0 ds := hi _ rfl
        simp only [hd, if_true, he, hd₀, hmax]
        refine ⟨_, ?_, ht⟩
        simp [Amount.value, Amount.size]
      case star hd hs ht =>
        simp only [if_neg hd, if_pos hs]
        refine ⟨_, ?_, ht⟩
        simp [Amount.value, Amount.size, hmax]
      case none hd hs ht =>
        simp only [if_neg hd, if_neg hs]
        refine ⟨_, ?_, ht⟩
        simp [hp]

theorem getQualifier_eq (h : m.TextIn I d.fmt l) (hq : d.qualifier = none) : ∃ fmt,
    getQualifier m d = { d with qualifier := (Spec.splitQualifier l).1, fmt } ∧
    m.TextIn I fmt (Spec.splitQualifier l).2 := by
  cases l
  case nil =>
    have hz : m d.fmt = 0 := h.text
    have hs : ¬((0 : Byte) = ch 'h' ∨ (0 : Byte) = ch 'l' ∨ (0 : Byte) = ch 'L') := by decide
    rw [getQualifier, hz, if_neg hs]
    refine ⟨d.fmt, ?_, h⟩
    simp [Spec.splitQualifier, ← hq]
  case cons c l =>
    rw [getQualifier, h.text.head, Spec.splitQualifier]
    by_cases hc : c = ch 'h' ∨ c = ch 'l' ∨ c = ch 'L'
    case pos =>
      have hc' : Spec.isQualifier c := hc
      rw [if_pos hc, if_pos hc']
      exact ⟨_, rfl, h.tail⟩
    case neg =>
      have hc' : ¬Spec.isQualifier c := hc
      rw [if_neg hc, if_neg hc']
      refine ⟨d.fmt, ?_, h⟩
      simp [← hq]

end Directive

namespace Spec

variable {null : Word} {n : Nat}

theorem bounded_options (h : ((split l).1.output m null n args).Bounded) :
    ((split l).1.options m args).Bounded := by
  obtain ⟨hw, hp⟩ := List.forall_mem_cons.mp h
  refine ⟨⟨?_, hw⟩, ⟨?_, hp _ <| List.mem_singleton_self _⟩⟩
  · simp only [options]
    split
    case h_1           => omega
    case h_2 x hstar hx =>
      cases x
      case digits => exact Int.le_trans (by decide) <| Amount.decimal_split hx
      case star   => cases hstar rfl
    case h_3           => exact Int.le_refl _
  · simp only [options]
    split <;> omega

theorem natAbs_width_lt (h : ((split l).1.options m args).Bounded) :
    ∀ x ∈ (split l).1.width, (x.value m args).natAbs < 2 ^ 31 := by
  intro x hx
  have hw : ((split l).1.options m args).fieldWidth < 2 ^ 31 - 8 := h.fieldWidth.right
  simp only [options, Option.mem_def.mp hx] at hw
  cases x
  case digits =>
    have : 0 ≤ decimal 0 _ := Amount.decimal_split hx
    have hw : decimal 0 _ < 2 ^ 31 - 8 := hw
    rw [Amount.value]
    omega
  case star =>
    have hw : ((m.word args).toInt.natAbs : Int) < 2 ^ 31 - 8 := hw
    rw [Amount.value]
    omega

theorem precision_value_lt (h : ((split l).1.options m args).Bounded) :
    ∀ p ∈ (split l).1.precision, ∀ x ∈ p, x.value m ((split l).1.precisionArgs args) < 2 ^ 31 := by
  intro p hp x hx
  have hlt : ((split l).1.options m args).precision < 2 ^ 31 - 8 := h.precision.right
  simp only [options, Option.mem_def.mp hp, Option.mem_def.mp hx] at hlt
  omega

end Spec

theorem directive_read {s : State} (null buf : Word) (h : s.mem.TextIn I (s.fmt + 1) l)
    (hf : l.length < fuel) (hb : ((Spec.split l).1.options s.mem s.args).Bounded) : ∃ fmt l',
    directive null buf fuel s = Directive.convert null buf s.toWriter {
      toOptions := (Spec.split l).1.options s.mem s.args
      fmt
      args := (Spec.split l).1.valueArgs s.args
    } ∧ s.mem.TextIn I fmt l' ∧ (Spec.split l).1.conversion = l'.head? ∧ (Spec.split l).2 = l'.tail := by
  have hl {l' : List Byte} (h : l'.length ≤ l.length) : l'.length < fuel := Nat.lt_of_le_of_lt h hf
  have hf₁ : (l.dropWhile Spec.isFlag).length ≤ l.length := (List.dropWhile_sublist _).length_le
  have hf₂ := Nat.le_trans Amount.split_length hf₁
  let o := (Spec.split l).1.options s.mem s.args
  have ⟨f₁, h₁, t₁⟩ := Directive.processFlags_eq (d := { fmt := s.fmt, args := s.args }) h hf
  have ⟨f₂, h₂, t₂⟩ := Directive.getFieldWidth_eq (d := {
    flags := Flags.addAll {} (l.takeWhile Spec.isFlag), fmt := f₁, args := s.args }) t₁ (hl hf₁) rfl
    (Spec.natAbs_width_lt hb)
  have ⟨f₃, h₃, t₃⟩ := Directive.getPrecision_eq (d := {
    flags := o.flags, fieldWidth := o.fieldWidth, fmt := f₂,
    args := (Spec.split l).1.precisionArgs s.args })
    t₂ (hl hf₂) rfl (Spec.precision_value_lt hb)
  have ⟨f₄, h₄, t₄⟩ := Directive.getQualifier_eq (d := {
    flags := o.flags, fieldWidth := o.fieldWidth, precision := o.precision, fmt := f₃,
    args := (Spec.split l).1.valueArgs s.args }) t₃ rfl
  refine ⟨f₄, _, ?_, t₄, rfl, rfl⟩
  exact bind_of_some h₁ <| bind_of_some h₂ <| bind_of_some h₃ <| congrArg (Directive.convert null buf _) h₄

end Stdio
