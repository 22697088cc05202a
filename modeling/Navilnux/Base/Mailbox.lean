import Mathlib.Data.List.Count
import Mathlib.Tactic.Common

-- A mailbox keeps the last value that was put into it, until it is taken out. A history of these events
-- lists the latest event first.
inductive Post (α : Type)
  | put (a : α)
  | take (a : α)
  deriving DecidableEq

namespace Post

variable {α : Type} {a : α} {h h₁ h₂ : List (Post α)}

def pending : List (Post α) → Option α
  | []          => none
  | put a :: _  => some a
  | take _ :: _ => none

def Delivered : List (Post α) → Prop
  | []          => True
  | put _ :: h  => Delivered h
  | take a :: h => pending h = some a ∧ Delivered h

theorem pending_eq_some_iff : pending h = some a ↔ ∃ h', h = put a :: h' := by
  constructor
  · intro hp
    cases h
    case nil => nomatch hp
    case cons p h =>
      cases p
      case put  => exact ⟨h, by rw [Option.some.inj hp]⟩
      case take => nomatch hp
  · rintro ⟨_, rfl⟩
    rfl

theorem Delivered.of_append (d : Delivered (h₂ ++ h₁)) : Delivered h₁ := by
  induction h₂
  case nil => exact d
  case cons p _ ih =>
    cases p
    case put  => exact ih d
    case take => exact ih d.right

theorem Delivered.put_of_take (d : Delivered (h₂ ++ take a :: h₁)) : ∃ h', h₁ = put a :: h' :=
  pending_eq_some_iff.mp d.of_append.left

theorem Delivered.count_take_le [DecidableEq α] (d : Delivered h) :
    h.count (take a) + (if pending h = some a then 1 else 0) ≤ h.count (put a) := by
  induction h
  case nil => simp [pending]
  case cons p h ih =>
    cases p
    case put b =>
      have ih := ih d
      simp only [pending, Option.some.injEq, List.count_cons, beq_iff_eq, put.injEq, reduceCtorEq,
        if_false]
      omega
    case take b =>
      have ⟨hp, d⟩ := d
      have ih := ih d
      simp only [hp, Option.some.injEq] at ih
      simp only [pending, List.count_cons, beq_iff_eq, take.injEq, reduceCtorEq, if_false]
      omega

def Kept : List (Post α) → Prop
  | []          => True
  | put _ :: h  => pending h = none ∧ Kept h
  | take _ :: h => Kept h

theorem Kept.of_append (k : Kept (h₂ ++ h₁)) : Kept h₁ := by
  induction h₂
  case nil => exact k
  case cons p _ ih =>
    cases p
    case put  => exact ih k.right
    case take => exact ih k

theorem Delivered.take_of_put (d : Delivered (h₂ ++ put a :: h₁)) (k : Kept (h₂ ++ put a :: h₁)) :
    h₂ = [] ∨ ∃ h, h₂ = h ++ [take a] := by
  rcases List.eq_nil_or_concat h₂ with rfl | ⟨h, p, rfl⟩
  case inl => exact .inl rfl
  case inr =>
    rw [List.concat_eq_append, List.append_assoc, List.singleton_append] at d k
    cases p
    case put b  => exact nomatch k.of_append.left
    case take b =>
      obtain rfl : a = b := Option.some.inj d.of_append.left
      exact .inr ⟨h, List.concat_eq_append⟩

theorem Delivered.count_put [DecidableEq α] (d : Delivered h) (k : Kept h) :
    h.count (put a) = h.count (take a) + if pending h = some a then 1 else 0 := by
  induction h
  case nil => simp [pending]
  case cons p h ih =>
    cases p
    case put b =>
      have ⟨hp, k⟩ := k
      have ih := ih d k
      simp only [hp, reduceCtorEq, if_false] at ih
      simp only [pending, Option.some.injEq, List.count_cons, beq_iff_eq, put.injEq, reduceCtorEq,
        if_false]
      omega
    case take b =>
      have ⟨hp, d⟩ := d
      have ih := ih d k
      simp only [hp, Option.some.injEq] at ih
      simp only [pending, List.count_cons, beq_iff_eq, take.injEq, reduceCtorEq, if_false]
      omega

end Post
