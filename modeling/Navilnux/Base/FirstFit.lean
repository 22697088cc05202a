import Mathlib.Algebra.BigOperators.Group.List.Basic
import Mathlib.Algebra.GroupWithZero.Nat
import Mathlib.Tactic.Common
import Navilnux.Base.Run

@[ext]
structure Block (α : Type) where
  size  : Nat
  owner : Option α
  deriving DecidableEq

-- An `Arena` is a row of adjacent blocks. A block is addressed by the offset of its first byte.
abbrev Arena (α : Type) := List (Block α)

namespace Arena

inductive At {α : Type} : Arena α → Nat → Block α → Prop
  | head : At (b :: bs) 0 b
  | tail : (At bs i c) → At (b :: bs) (b.size + i) c

section

variable {α : Type} {n i j : Nat} {a : α} {o : Option α} {b c : Block α} {bs bs' : Arena α}

def total (bs : Arena α) : Nat :=
  (bs.map Block.size).sum

def Positive (bs : Arena α) : Prop :=
  ∀ b ∈ bs, 0 < b.size

def Fits (n : Nat) (b : Block α) : Prop :=
  b.owner = none ∧ n ≤ b.size

def find (n : Nat) : Arena α → Option Nat
  | []      => none
  | b :: bs => if b.owner.isNone ∧ n ≤ b.size then some 0 else (find n bs).map (b.size + ·)

def setOwner (i : Nat) (o : Option α) : Arena α → Arena α
  | []      => []
  | b :: bs => if i = 0 then { b with owner := o } :: bs else b :: setOwner (i - b.size) o bs

-- Gives a block of at least `n` bytes to `a`: the first one that is free and large enough, or else a
-- new one at the end, as long as the arena does not exceed `limit`.
def alloc (limit n : Nat) (a : α) (bs : Arena α) : Option (Nat × Arena α) :=
  match find n bs with
  | some i => some (i, setOwner i (some a) bs)
  | none   => if total bs + n ≤ limit then some (total bs, bs ++ [⟨n, some a⟩]) else none

@[simp]
theorem total_nil : total ([] : Arena α) = 0 := by
  simp [total]

@[simp]
theorem total_cons : total (b :: bs) = b.size + total bs := by
  simp [total]

@[simp]
theorem total_append : total (bs ++ bs') = total bs + total bs' := by
  simp [total]

theorem Positive.of_cons (h : Positive (b :: bs)) : 0 < b.size ∧ Positive bs :=
  List.forall_mem_cons.mp h

theorem At.mem (h : At bs i b) : b ∈ bs := by
  induction h
  case head    => exact List.mem_cons_self
  case tail ih => exact List.mem_cons_of_mem _ ih

theorem At.le (h : At bs i b) : i + b.size ≤ total bs := by
  induction h
  case head    => simp
  case tail ih => simp only [total_cons]; omega

theorem at_cons_iff : At (b :: bs) i c ↔ i = 0 ∧ c = b ∨ (∃ j, i = b.size + j ∧ At bs j c) := by
  constructor
  · intro h
    cases h
    case head   => exact .inl ⟨rfl, rfl⟩
    case tail h => exact .inr ⟨_, rfl, h⟩
  · rintro (⟨rfl, rfl⟩ | ⟨j, rfl, h⟩)
    · exact .head
    · exact .tail h

theorem not_at_nil : ¬At ([] : Arena α) i c :=
  nofun

theorem exists_at_of_mem (h : b ∈ bs) : ∃ i, At bs i b := by
  induction bs
  case nil => exact absurd h List.not_mem_nil
  case cons ih =>
    rcases List.mem_cons.mp h with rfl | h
    · exact ⟨0, .head⟩
    · have ⟨_, hi⟩ := ih h
      exact ⟨_, .tail hi⟩

theorem at_append_iff : At (bs ++ [b]) i c ↔ At bs i c ∨ i = total bs ∧ c = b := by
  induction bs generalizing i
  case nil => simp [at_cons_iff, not_at_nil]
  case cons d bs ih =>
    simp only [List.cons_append, at_cons_iff, ih, total_cons]
    constructor
    · rintro (h | ⟨j, rfl, h | ⟨rfl, rfl⟩⟩)
      · exact .inl <| .inl h
      · exact .inl <| .inr ⟨j, rfl, h⟩
      · exact .inr ⟨rfl, rfl⟩
    · rintro ((h | ⟨j, rfl, h⟩) | ⟨rfl, rfl⟩)
      · exact .inl h
      · exact .inr ⟨j, rfl, .inl h⟩
      · exact .inr ⟨_, rfl, .inr ⟨rfl, rfl⟩⟩

theorem not_at_total (hp : Positive bs) : ¬At bs (total bs) c := by
  intro hc
  have := hc.le
  have := hp c hc.mem
  omega

theorem at_append_iff_of_positive (hp : Positive bs) :
    At (bs ++ [b]) i c ↔ i = total bs ∧ c = b ∨ i ≠ total bs ∧ At bs i c := by
  rw [at_append_iff, or_comm]
  exact or_congr_right ⟨fun h => ⟨fun hi => not_at_total hp (hi ▸ h), h⟩, And.right⟩

theorem At.disjoint (hb : At bs i b) (hc : At bs j c) :
    i = j ∧ b = c ∨ i + b.size ≤ j ∨ j + c.size ≤ i := by
  induction hb generalizing j
  case head =>
    cases hc
    case head => exact .inl ⟨rfl, rfl⟩
    case tail => exact .inr <| .inl <| by omega
  case tail ih =>
    cases hc
    case head   => exact .inr <| .inr <| by omega
    case tail h =>
      rcases ih h with ⟨rfl, rfl⟩ | h | h
      · exact .inl ⟨rfl, rfl⟩
      · exact .inr <| .inl <| by omega
      · exact .inr <| .inr <| by omega

theorem At.unique (hp : Positive bs) (hb : At bs i b) (hc : At bs i c) : b = c := by
  rcases hb.disjoint hc with h | h | h
  · exact h.right
  · have := hp b hb.mem; omega
  · have := hp c hc.mem; omega

theorem find_some (h : find n bs = some i) : ∃ b, At bs i b ∧ Fits n b := by
  induction bs generalizing i
  case nil => nomatch h
  case cons b bs ih =>
    rw [find] at h
    split at h
    case isTrue hf =>
      cases h
      exact ⟨b, .head, Option.isNone_iff_eq_none.mp hf.left, hf.right⟩
    case isFalse =>
      have ⟨j, hj, hi⟩ := Option.map_eq_some_iff.mp h
      have ⟨c, hc, hf⟩ := ih hj
      exact ⟨c, hi ▸ .tail hc, hf⟩

theorem find_le (h : find n bs = some i) (hc : At bs j c) (hf : Fits n c) : i ≤ j := by
  induction hc generalizing i
  case head c _ =>
    have hh : c.owner.isNone ∧ n ≤ c.size := ⟨Option.isNone_iff_eq_none.mpr hf.left, hf.right⟩
    rw [find, if_pos hh] at h
    cases h
    exact Nat.le_refl 0
  case tail ih =>
    rw [find] at h
    split at h
    case isTrue =>
      cases h
      exact Nat.zero_le _
    case isFalse =>
      have ⟨k, hk, hi⟩ := Option.map_eq_some_iff.mp h
      exact hi ▸ Nat.add_le_add_left (ih hk hf) _

theorem find_eq_none_iff : find n bs = none ↔ ∀ b ∈ bs, ¬Fits n b := by
  constructor
  · intro h b hb hf
    have ⟨i, hi⟩ := exists_at_of_mem hb
    induction hi
    case head b _ =>
      have hh : b.owner.isNone ∧ n ≤ b.size := ⟨Option.isNone_iff_eq_none.mpr hf.left, hf.right⟩
      rw [find, if_pos hh] at h
      nomatch h
    case tail hi ih =>
      rw [find] at h
      split at h
      · nomatch h
      · exact ih (Option.map_eq_none_iff.mp h) hi.mem hf
  · intro h
    cases hn : find n bs
    case none   => rfl
    case some i =>
      have ⟨b, hb, hf⟩ := find_some hn
      exact absurd hf <| h b hb.mem

theorem find_of_lowest (hb : At bs i b) (hf : Fits n b)
    (hl : ∀ {j c}, At bs j c → Fits n c → i ≤ j) : find n bs = some i := by
  cases hn : find n bs
  case none   => exact absurd hf <| find_eq_none_iff.mp hn b hb.mem
  case some k =>
    have ⟨_, hc, hfc⟩ := find_some hn
    rw [Nat.le_antisymm (find_le hn hb hf) (hl hc hfc)]

@[simp]
theorem total_setOwner : total (setOwner i o bs) = total bs := by
  induction bs generalizing i
  case nil => rfl
  case cons ih =>
    rw [setOwner]
    split
    case isTrue  => simp
    case isFalse => simp [ih]

theorem at_setOwner_iff (hp : Positive bs) (hb : At bs i b) :
    At (setOwner i o bs) j c ↔ j = i ∧ c = { b with owner := o } ∨ j ≠ i ∧ At bs j c := by
  induction hb generalizing j
  case head b bs =>
    simp only [setOwner, if_true, at_cons_iff]
    have := hp.of_cons.left
    constructor
    · rintro (h | ⟨k, rfl, h⟩)
      · exact .inl h
      · exact .inr ⟨by omega, .inr ⟨k, rfl, h⟩⟩
    · rintro (h | ⟨hj, ⟨rfl, -⟩ | h⟩)
      · exact .inl h
      · exact absurd rfl hj
      · exact .inr h
  case tail bs i b d _ ih =>
    have ⟨hd, hp⟩ := hp.of_cons
    simp only [setOwner, if_neg (show ¬d.size + i = 0 by omega), Nat.add_sub_cancel_left,
      at_cons_iff, ih hp]
    constructor
    · rintro (⟨rfl, h⟩ | ⟨k, rfl, ⟨rfl, h⟩ | ⟨hk, h⟩⟩)
      · exact .inr ⟨by omega, .inl ⟨rfl, h⟩⟩
      · exact .inl ⟨rfl, h⟩
      · exact .inr ⟨by omega, .inr ⟨k, rfl, h⟩⟩
    · rintro (⟨rfl, h⟩ | ⟨hj, h | ⟨k, rfl, h⟩⟩)
      · exact .inr ⟨i, rfl, .inl ⟨rfl, h⟩⟩
      · exact .inl h
      · exact .inr ⟨k, rfl, .inr ⟨by omega, h⟩⟩

theorem size_setOwner {P : Nat → Prop} (hp : Positive bs) (hb : At bs i b)
    (h : ∀ b ∈ bs, P b.size) : ∀ b ∈ setOwner i o bs, P b.size := by
  intro c hc
  have ⟨j, hj⟩ := exists_at_of_mem hc
  rcases at_setOwner_iff hp hb |>.mp hj with ⟨-, rfl⟩ | ⟨-, hj⟩
  · exact h b hb.mem
  · exact h c hj.mem

structure Allocated (limit n : Nat) (a : α) (bs : Arena α) (i : Nat) (b : Block α)
    (bs' : Arena α) : Prop where
  owner    : b.owner = some a
  size     : n ≤ b.size
  at_iff   : ∀ {j c}, At bs' j c ↔ j = i ∧ c = b ∨ j ≠ i ∧ At bs j c
  total_le : total bs ≤ limit → total bs' ≤ limit

theorem alloc_some {limit : Nat} (hp : Positive bs) (h : alloc limit n a bs = some (i, bs')) :
    ∃ b, Allocated limit n a bs i b bs' := by
  rw [alloc] at h
  split at h
  case h_1 i' hf =>
    cases h
    have ⟨b, hb, _, hn⟩ := find_some hf
    exact ⟨{ b with owner := some a }, {
      owner    := rfl
      size     := hn
      at_iff   := at_setOwner_iff hp hb
      total_le := total_setOwner ▸ id
    }⟩
  case h_2 =>
    split at h
    case isFalse => nomatch h
    case isTrue hl =>
      cases h
      exact ⟨⟨n, some a⟩, {
        owner      := rfl
        size       := Nat.le_refl n
        at_iff     := at_append_iff_of_positive hp
        total_le _ := by simpa using hl
      }⟩

end

-- The operations on an arena. An `idle` operation does not concern the arena.
inductive Op (α : Type)
  | alloc (n : Nat) (a : α) (i : Nat)
  | free (i : Nat)
  | idle

inductive Step {α : Type} (limit : Nat) : Arena α → Op α → Arena α → Prop
  | alloc : (alloc limit n a bs = some (i, bs')) → Step limit bs (.alloc n a i) bs'
  | free  : (At bs i b) → b.owner.isSome → Step limit bs (.free i) (setOwner i none bs)
  | idle  : Step limit bs .idle bs

theorem Step.size {α : Type} {bs bs' : Arena α} {limit : Nat} {op : Op α} {P : Nat → Prop}
    (st : Step limit bs op bs')
    (hp : Positive bs) (h : ∀ b ∈ bs, P b.size) (ho : ∀ {n a i}, op = .alloc n a i → P n) :
    ∀ b ∈ bs', P b.size := by
  cases st
  case idle => exact h
  case free hb => exact size_setOwner hp hb h
  case alloc n a i ha =>
    rw [Arena.alloc] at ha
    split at ha
    case h_1 hf =>
      cases ha
      have ⟨_, hb, _⟩ := find_some hf
      exact size_setOwner hp hb h
    case h_2 =>
      split at ha
      case isFalse => nomatch ha
      case isTrue =>
        cases ha
        intro c hc
        rcases List.mem_append.mp hc with hc | hc
        · exact h c hc
        · exact List.mem_singleton.mp hc ▸ ho rfl

theorem size_of_run {α : Type} {bs : Arena α} {limit : Nat} {ops : List (Op α)} {P : Nat → Prop}
    (r : Run (Step limit) [] ops bs) (ho : ∀ {n a i}, .alloc n a i ∈ ops → 0 < n ∧ P n) :
    ∀ b ∈ bs, 0 < b.size ∧ P b.size := by
  induction r
  case init => exact fun _ hb => nomatch hb
  case step st ih =>
    have ih := ih fun h => ho <| List.mem_cons_of_mem _ h
    refine st.size (P := fun n => 0 < n ∧ P n) (fun b hb => (ih b hb).left) ih ?_
    exact fun he => ho <| List.mem_cons.mpr <| .inl he.symm

def Uniform {α : Type} (n : Nat) (bs : Arena α) : Prop :=
  ∀ b ∈ bs, b.size = n

section Uniform

variable {α : Type} {n limit j : Nat} {bs bs' : Arena α} {op : Op α}

theorem length_setOwner {i : Nat} {o : Option α} : (setOwner i o bs).length = bs.length := by
  induction bs generalizing i
  case nil => rfl
  case cons ih =>
    rw [setOwner]
    split
    case isTrue  => rfl
    case isFalse => rw [List.length_cons, ih, List.length_cons]

namespace Uniform

theorem total (h : Uniform n bs) : total bs = n * bs.length := by
  induction bs
  case nil => rfl
  case cons ih =>
    have ⟨hb, h⟩ := List.forall_mem_cons.mp h
    rw [total_cons, hb, ih h, List.length_cons, Nat.mul_succ, Nat.add_comm]

theorem exists_at (h : Uniform n bs) (hj : j < bs.length) : ∃ b, At bs (n * j) b := by
  induction bs generalizing j
  case nil => nomatch hj
  case cons b bs ih =>
    have ⟨hb, h⟩ := List.forall_mem_cons.mp h
    cases j
    case zero   => exact ⟨b, .head⟩
    case succ j =>
      have ⟨c, hc⟩ := ih h <| Nat.lt_of_succ_lt_succ hj
      have he : n * (j + 1) = b.size + n * j := by rw [hb, Nat.mul_succ, Nat.add_comm]
      exact ⟨c, he ▸ .tail hc⟩

theorem owned_of_find (h : Uniform n bs) (hf : find n bs = none) : ∀ b ∈ bs, b.owner ≠ none :=
  fun b hb ho => find_eq_none_iff.mp hf b hb ⟨ho, Nat.le_of_eq (h b hb).symm⟩

theorem step (h : Uniform n bs) (hn : 0 < n) (st : Step limit bs op bs')
    (ho : ∀ {k a i}, op = .alloc k a i → k = n) : Uniform n bs' :=
  st.size (P := (· = n)) (fun b hb => h b hb ▸ hn) h ho

theorem length_step (h : Uniform n bs) (st : Step limit bs op bs')
    (ho : ∀ {k a i}, op = .alloc k a i → k = n) :
    bs'.length ≤ bs.length ∨
    (∃ a i, op = .alloc n a i) ∧ bs'.length = bs.length + 1 ∧ ∀ b ∈ bs, b.owner ≠ none := by
  cases st
  case idle => exact .inl <| Nat.le_refl _
  case free => exact .inl <| Nat.le_of_eq length_setOwner
  case alloc ha =>
    obtain rfl := ho rfl
    rw [alloc] at ha
    split at ha
    case h_1 =>
      cases ha
      exact .inl <| Nat.le_of_eq length_setOwner
    case h_2 hf =>
      split at ha
      case isFalse => nomatch ha
      case isTrue =>
        cases ha
        exact .inr ⟨⟨_, _, rfl⟩, List.length_append, h.owned_of_find hf⟩

end Uniform

end Uniform

def Aligned {α : Type} (d : Nat) (bs : Arena α) : Prop :=
  ∀ ⦃i b⦄, At bs i b → d ∣ i

namespace Aligned

variable {α : Type} {d limit : Nat} {b : Block α} {bs bs' : Arena α} {op : Op α}

theorem nil : Aligned d ([] : Arena α) :=
  fun _ _ h => absurd h not_at_nil

theorem of_size (h : ∀ b ∈ bs, d ∣ b.size) : Aligned d bs := by
  intro i b hb
  induction hb
  case head => exact Nat.dvd_zero _
  case tail ih =>
    have ⟨hd, h⟩ := List.forall_mem_cons.mp h
    exact Nat.dvd_add hd <| ih h

theorem tail (h : Aligned d (b :: bs)) (hb : d ∣ b.size) : Aligned d bs :=
  fun _ _ hc => Nat.dvd_add_right hb |>.mp <| h (.tail hc)

theorem dvd_total_iff (h : Aligned d bs) : d ∣ total bs ↔ ∀ b ∈ bs, d ∣ b.size := by
  induction bs
  case nil => simp
  case cons b bs ih =>
    rw [List.forall_mem_cons, total_cons]
    cases bs
    case nil => simp
    case cons c bs =>
      have hb : d ∣ b.size := h (.tail .head)
      rw [← ih (h.tail hb), Nat.dvd_add_right hb]
      exact iff_and_self.mpr fun _ => hb

theorem setOwner {i : Nat} {o : Option α} (h : Aligned d bs) (hp : Positive bs) (hb : At bs i b) :
    Aligned d (setOwner i o bs) := by
  intro j c hc
  rcases at_setOwner_iff hp hb |>.mp hc with ⟨rfl, -⟩ | ⟨-, hc⟩
  · exact h hb
  · exact h hc

theorem step (h : Aligned d bs) (hp : Positive bs) (st : Step limit bs op bs')
    (ho : ∀ {n a i}, op = .alloc n a i → find n bs = none → d ∣ total bs) : Aligned d bs' := by
  cases st
  case idle    => exact h
  case free hb => exact h.setOwner hp hb
  case alloc ha =>
    rw [alloc] at ha
    split at ha
    case h_1 hf =>
      cases ha
      have ⟨_, hb, _⟩ := find_some hf
      exact h.setOwner hp hb
    case h_2 hf =>
      split at ha
      case isFalse => nomatch ha
      case isTrue =>
        cases ha
        intro j c hc
        rcases at_append_iff.mp hc with hc | ⟨rfl, -⟩
        · exact h hc
        · exact ho rfl hf

end Aligned

end Arena
