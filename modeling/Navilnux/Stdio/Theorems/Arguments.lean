import Navilnux.Stdio.Theorems.Vsprintf

namespace Stdio

open Memory

variable {m : Memory} {null args fmt : Word} {n : Nat} {l : List Byte} {p : Piece}
variable {ps qs : List Piece} {s : Spec}

-- How many arguments belong to a directive. Each of them takes a word.
def Amount.arguments : Amount → Nat
  | digits _ => 0
  | star     => 1

def Conversion.arguments : Conversion → Nat
  | default => 0
  | _       => 1

def Conversion.isInteger : Conversion → Bool
  | integer .. => true
  | _          => false

namespace Piece

def arguments : Piece → Nat
  | char _ => 0
  | spec s =>
    s.width.elim 0 Amount.arguments + (s.precision.elim 0 fun p => p.elim 0 Amount.arguments) +
      s.conversion.elim 0 fun c => (Conversion.of c).arguments

def short : Piece → Bool
  | char _ => false
  | spec s => s.qualifier == some (ch 'h') && s.conversion.any fun c => (Conversion.of c).isInteger

end Piece

theorem Amount.size_eq {x : Option Amount} : x.elim 0 Amount.size = 4 * x.elim 0 Amount.arguments := by
  rcases x with _ | _ | _ <;> rfl

-- The macro `va_arg` adds too little to the pointer for a short integer.
theorem Options.output_args {o : Options} {c : Byte} : (o.output m args null n c).args +
    (if o.qualifier == some (ch 'h') && (Conversion.of c).isInteger then 2 else 0) =
      args + BitVec.ofNat 32 (4 * (Conversion.of c).arguments) := by
  rw [output]
  cases Conversion.of c
  case integer base sign large =>
    by_cases hq : o.qualifier = some (ch 'h')
    case pos =>
      simp [hq, integerOutput, size, Conversion.isInteger, Conversion.arguments, BitVec.add_assoc]
    case neg => simp [hq, integerOutput, size, Conversion.arguments]
  all_goals simp [charOutput, stringOutput, pointerOutput, countOutput, Conversion.isInteger,
    Conversion.arguments]

theorem Piece.output_args : (p.output m null n args).args + (if p.short then 2 else 0) =
    args + BitVec.ofNat 32 (4 * p.arguments) := by
  cases p
  case char => simp [output, short, arguments]
  case spec s =>
    have hv : s.valueArgs args = args + BitVec.ofNat 32 (4 * s.width.elim 0 Amount.arguments) +
        BitVec.ofNat 32 (4 * s.precision.elim 0 fun p => p.elim 0 Amount.arguments) := by
      rw [Spec.valueArgs, Spec.precisionArgs, Amount.size_eq]
      rcases s.precision with _ | p
      · rfl
      · rw [Option.elim_some, Option.elim_some, Amount.size_eq]
    have ho : (output m null n args (spec s)).args = (s.convert m null n args).args := rfl
    rw [ho, Spec.convert, arguments, short]
    cases s.conversion
    case none => simp [hv, Nat.mul_add, BitVec.ofNat_add, BitVec.add_assoc]
    case some c =>
      refine (Options.output_args (o := s.options m args)).trans ?_
      rw [hv, Option.elim_some, Nat.mul_add, Nat.mul_add, BitVec.ofNat_add, BitVec.ofNat_add]
      simp only [BitVec.add_assoc]

theorem output_args : (output m null n args ps).args + BitVec.ofNat 32 (2 * ps.countP Piece.short) =
    args + BitVec.ofNat 32 (4 * (ps.map Piece.arguments).sum) := by
  induction ps generalizing n args
  case nil => simp [output]
  case cons p ps ih =>
    have hp : (p.output m null n args).args + _ = _ := Piece.output_args
    have ih := @ih (p.output m null n args).args (n + (p.output m null n args).text.length)
    have hs : BitVec.ofNat 32 (2 * if p.short then 1 else 0) = if p.short then 2 else 0 := by
      cases p.short <;> rfl
    rw [List.countP_cons, List.map_cons, List.sum_cons, Nat.mul_add, Nat.mul_add, BitVec.ofNat_add,
      BitVec.ofNat_add, hs, ← BitVec.add_assoc, ← BitVec.add_assoc, ← hp,
      BitVec.add_assoc _ _ (BitVec.ofNat 32 _), BitVec.add_comm (if p.short then 2 else 0),
      ← BitVec.add_assoc _ _ (if p.short then 2 else 0), ← ih]
    rfl

theorem Piece.two_le (h : p.short) : 2 ≤ p.text.length := by
  cases p
  case char => cases h
  case spec s =>
    rw [short, Bool.and_eq_true] at h
    obtain ⟨hq, hc⟩ := h
    obtain ⟨c, hc⟩ : ∃ c, s.conversion = some c := by
      cases hs : s.conversion
      case none   => rw [hs] at hc; cases hc
      case some c => exact ⟨c, rfl⟩
    simp only [text, Spec.text, hc, List.length_cons, List.length_append, Option.toList_some]
    simp only [List.length_nil]
    omega

theorem countP_short_le : 2 * ps.countP Piece.short ≤ (ps.flatMap Piece.text).length := by
  induction ps
  case nil => exact Nat.le_refl 0
  case cons p ps ih =>
    rw [List.countP_cons, List.flatMap_cons, List.length_append]
    by_cases hp : p.short
    case pos =>
      have := Piece.two_le hp
      simp only [hp, if_true]
      omega
    case neg =>
      simp only [hp, Bool.false_eq_true, if_false]
      omega

-- The directives `qs` of a format find their arguments exactly if there is no directive for a short integer
-- before them.
theorem arguments_in_place_iff (h : m.Text fmt l) (hl : pieces l = ps ++ qs) :
    meaning m null args l = (output m null 0 args ps).append
      (output m null (output m null 0 args ps).text.length (output m null 0 args ps).args qs) ∧
    ((output m null 0 args ps).args = args + BitVec.ofNat 32 (4 * (ps.map Piece.arguments).sum) ↔
      ∀ p ∈ ps, ¬p.short) := by
  have ha : (output m null 0 args ps).args + _ = _ := output_args
  have hlt : 2 * ps.countP Piece.short < 2 ^ 32 := by
    have ht := text_pieces (l := l)
    rw [hl, List.flatMap_append] at ht
    have : 2 * ps.countP Piece.short ≤ _ := countP_short_le
    have := congrArg List.length ht
    have := h.length_lt
    rw [List.length_append] at *
    omega
  have hm : output m null 0 args (ps ++ qs) = _ := output_append
  rw [Nat.zero_add] at hm
  rw [meaning, hl, ← List.countP_eq_zero]
  refine ⟨hm, ?_⟩
  constructor
  case mp =>
    intro he
    rw [he] at ha
    bv_omega
  case mpr =>
    intro hz
    rw [hz] at ha
    exact (BitVec.add_zero _).symm.trans ha

def twoIntegers : List Byte :=
  ['%', 'h', 'd', '%', 'd'].map ch

theorem arguments_in_place_iff_short :
    (output (setBytes (fun _ => 0) 0x1000 (twoIntegers ++ [0])) 0 0 0x2000
      ((pieces twoIntegers).take 1)).args ≠
      0x2000 + BitVec.ofNat 32 (4 * (((pieces twoIntegers).take 1).map Piece.arguments).sum) := by
  have ht : (setBytes (fun _ => 0) 0x1000 (twoIntegers ++ [0])).Text 0x1000 twoIntegers :=
    text_setBytes (by decide) (by decide)
  have hl := (List.take_append_drop 1 (pieces twoIntegers)).symm
  exact fun ha => absurd (arguments_in_place_iff ht hl |>.right.mp ha) (by decide +kernel)

end Stdio
