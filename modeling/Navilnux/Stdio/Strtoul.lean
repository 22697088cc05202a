import Mathlib.Data.Nat.Digits.Defs
import Navilnux.Stdio.Format

-- The function `strtoul` of `string.c`.

namespace Stdio

open Memory

-- `while (isspace(*p)) p++;`
def skipSpace : Nat → Memory → Word → Option Word
  | 0, _, _        => none
  | fuel + 1, m, p => if isspace (m p) then skipSpace fuel m (p + 1) else some p

def digitValue (base : Int) (c : Byte) : Option Int :=
  let n : Int := c.toNat
  if ch '0' ≤ c ∧ c ≤ ch '9' ∧ n - (ch '0').toNat < base           then some (n - (ch '0').toNat)
  else if ch 'a' ≤ c ∧ c ≤ ch 'z' ∧ n - (ch 'a').toNat + 10 < base then some (n - (ch 'a').toNat + 10)
  else if ch 'A' ≤ c ∧ c ≤ ch 'Z' ∧ n - (ch 'A').toNat + 10 < base then some (n - (ch 'A').toNat + 10)
  else none

def readDigits : Nat → Memory → Int → Word → Word → Option (Word × Word)
  | 0, _, _, _, _           => none
  | fuel + 1, m, base, v, p =>
    match digitValue base (m p) with
    | some d => readDigits fuel m base (v * BitVec.ofInt 32 base + BitVec.ofInt 32 d) (p + 1)
    | none   => some (v, p)

-- The value, and the address for `*out_p`.
def strtoul (fuel : Nat) (m : Memory) (p : Word) (base : Int) : Option (Word × Word) := do
  let p ← skipSpace fuel m p
  let (p, base) :=
    if (base = 16 ∨ base = 0) ∧ m p = ch '0' ∧ (m (p + 1) = ch 'x' ∨ m (p + 1) = ch 'X') then (p + 2, 16)
    else (p, base)
  let base := if base = 0 then if m p = ch '0' then 8 else 10 else base
  readDigits fuel m base 0 p

variable {m : Memory} {a p v : Word} {fuel k : Nat} {base : Int} {c : Byte} {l l' : List Byte}
variable {ns : List Nat}
variable {dg : Nat → Byte}

theorem skipSpace_eq (h : m.Bytes p (List.replicate k (ch ' ') ++ c :: l)) (hc : ¬isspace c)
    (hf : k < fuel) :
    skipSpace fuel m p = some (p + BitVec.ofNat 32 k) := by
  induction k generalizing fuel p
  case zero =>
    obtain ⟨fuel, rfl⟩ : ∃ j, fuel = j + 1 := ⟨fuel - 1, by omega⟩
    have hz : p + BitVec.ofNat 32 0 = p := BitVec.add_zero _
    rw [skipSpace, h.left, if_neg hc, hz]
  case succ k ih =>
    obtain ⟨fuel, rfl⟩ : ∃ j, fuel = j + 1 := ⟨fuel - 1, by omega⟩
    have hs : isspace (ch ' ') := by decide
    have hp : p + 1 + BitVec.ofNat 32 k = p + BitVec.ofNat 32 (k + 1) := by bv_omega
    rw [List.replicate_succ, List.cons_append] at h
    rw [skipSpace, h.left, if_pos hs, ih h.right (by omega), hp]

theorem readDigits_eq (h : m.Bytes p (ns.map dg ++ c :: l)) (hd : ∀ d ∈ ns, digitValue base (dg d) = some d)
    (hc : digitValue base c = none) (hf : ns.length < fuel) :
    readDigits fuel m base v p = some
      (ns.foldl (fun (v : Word) (d : Nat) => v * BitVec.ofInt 32 base + BitVec.ofInt 32 d) v,
        p + BitVec.ofNat 32 ns.length) := by
  induction ns generalizing fuel p v
  case nil =>
    obtain ⟨fuel, rfl⟩ : ∃ j, fuel = j + 1 := ⟨fuel - 1, by omega⟩
    have hz : p + BitVec.ofNat 32 0 = p := BitVec.add_zero _
    rw [readDigits, h.left, hc, List.length_nil, hz]
    rfl
  case cons d ns ih =>
    rw [List.length_cons] at hf
    obtain ⟨fuel, rfl⟩ : ∃ j, fuel = j + 1 := ⟨fuel - 1, by omega⟩
    have ⟨hd, hds⟩ := List.forall_mem_cons.mp hd
    have hp : p + 1 + BitVec.ofNat 32 ns.length = p + BitVec.ofNat 32 (ns.length + 1) := by bv_omega
    rw [readDigits, h.left, hd]
    refine (ih h.right hds (by omega)).trans ?_
    rw [List.foldl_cons, List.length_cons, hp]

theorem foldl_digits {b n z : Nat} : (Nat.digits b n ++ List.replicate z 0).reverse.foldl
    (fun (v : Word) (d : Nat) => v * BitVec.ofInt 32 b + BitVec.ofInt 32 d) 0 = BitVec.ofNat 32 n := by
  have hf {ds : List Nat} : ds.reverse.foldl
      (fun (v : Word) (d : Nat) => v * BitVec.ofInt 32 b + BitVec.ofInt 32 d) 0 =
        BitVec.ofNat 32 (Nat.ofDigits b ds) := by
    rw [List.foldl_reverse]
    induction ds
    case nil => rfl
    case cons d ds ih =>
      rw [List.foldr_cons, ih, Nat.ofDigits_cons, BitVec.ofNat_add, BitVec.ofNat_mul, BitVec.add_comm,
        BitVec.mul_comm, BitVec.ofInt_natCast, BitVec.ofInt_natCast]
  rw [hf, Nat.ofDigits_append_replicate_zero, Nat.ofDigits_digits]

end Stdio
