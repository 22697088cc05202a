import Navilnux.Base.Run
import Navilnux.Heap.Theorems.Malloc

-- The heap with the tasks that use it.
namespace Heap

open Arena

-- `owned p` is the size that was requested for the pointer `p`, while it is owned by a task.
structure System extends State where
  owned : Word → Option Word

def System.init (m : Memory) : System where
  mem     := m
  memmng  := memInit
  owned _ := none

inductive Event
  | malloc (size p : Word)
  | free (p r : Word)
  | write (x : Word) (c : Byte)

-- A task frees only pointers that it owns, and writes only to the memory that it requested.
inductive Step : System → Event → System → Prop
  | malloc (fuel : Nat) (size : Word) : (memMalloc fuel size s.toState = some (p, t)) →
    Step s (.malloc size p) { t with
      owned := if p = 0 then s.owned else Function.update s.owned p (some size)
    }
  | free (p : Word) : (s.owned p ≠ none) → Step s (.free p (memFree p s.mem).1) { s with
      mem   := (memFree p s.mem).2
      owned := Function.update s.owned p none
    }
  | write : (s.owned p = some n) → (x - p < n) → Step s (.write x c) { s with
      mem := s.mem.setByte x c
    }

def Event.Granted : Event → Prop
  | malloc size p => size ≤ maxSize ∧ p ≠ 0
  | free _ _      => True
  | write _ _     => True

instance : DecidablePred Event.Granted
  | .malloc _ _            => inferInstanceAs <| Decidable (_ ∧ _)
  | .free _ _ | .write _ _ => inferInstanceAs <| Decidable True

def GrantedStep (s : System) (e : Event) (t : System) : Prop :=
  Step s e t ∧ e.Granted

structure Represents (s : System) (bs : Arena Word) : Prop extends Tiles s.toState bs where
  heapStart : s.memmng.heapStart = startDyMemAddr
  fit       : ∀ {i b n}, At bs i b → b.owner = some n → n.toNat + 8 ≤ b.size
  owned     : ∀ {p n}, s.owned p = some n ↔
    ∃ i b, At bs i b ∧ p = s.memmng.pos i + 8 ∧ b.owner = some n

def offset (p : Word) : Nat :=
  (p - DyMemHeader.sizeof - startDyMemAddr).toNat

def Event.op : Event → Op Word
  | malloc size p => .alloc (size.toNat + 8) size (offset p)
  | free p _      => .free (offset p)
  | write _ _     => .idle

namespace Represents

variable {s : System} {bs bs' : Arena Word} {b : Block Word} {i : Nat} {n p x : Word}

theorem init {m : Memory} : Represents (.init m) [] where
  toTiles   := .init rfl rfl
  heapStart := rfl
  fit hb    := nomatch hb
  owned     := ⟨nofun, fun ⟨_, _, h, _⟩ => nomatch h⟩

theorem offset_pos {memmng : NavilMemMng} (h : memmng.heapStart = startDyMemAddr)
    (hi : i ≤ memmng.limit) : offset (memmng.pos i + 8) = i := by
  simp only [offset, DyMemHeader.sizeof, NavilMemMng.pos, NavilMemMng.limit, endUsrStackAddr,
    startDyMemAddr, h] at *
  bv_omega

theorem owned_update (h : Represents s bs) (hl : total bs' ≤ s.memmng.limit)
    (hat : ∀ {j c}, At bs' j c ↔ j = i ∧ c = b ∨ j ≠ i ∧ At bs j c) :
    Function.update s.owned (s.memmng.pos i + 8) b.owner p = some n ↔
    ∃ j c, At bs' j c ∧ p = s.memmng.pos j + 8 ∧ c.owner = some n := by
  have hib : At bs' i b := hat.mpr <| .inl ⟨rfl, rfl⟩
  by_cases hp : p = s.memmng.pos i + 8
  case pos =>
    subst hp
    rw [Function.update_self]
    constructor
    · exact fun ho => ⟨i, b, hib, rfl, ho⟩
    · rintro ⟨j, c, hc, he, ho⟩
      have hij : i = j := by
        have := h.heapStart
        have := hib.le
        have := hc.le
        have he : s.memmng.heapStart + BitVec.ofNat 32 i + 8 =
            s.memmng.heapStart + BitVec.ofNat 32 j + 8 := he
        simp only [NavilMemMng.limit, endUsrStackAddr, startDyMemAddr] at *
        bv_omega
      subst hij
      rcases hat.mp hc with ⟨-, rfl⟩ | ⟨hne, -⟩
      · exact ho
      · exact absurd rfl hne
  case neg =>
    rw [Function.update_of_ne hp, h.owned]
    constructor
    · rintro ⟨j, c, hc, he, ho⟩
      exact ⟨j, c, hat.mpr <| .inr ⟨fun hj => hp <| hj ▸ he, hc⟩, he, ho⟩
    · rintro ⟨j, c, hc, he, ho⟩
      rcases hat.mp hc with ⟨rfl, -⟩ | ⟨-, hc⟩
      · exact absurd he hp
      · exact ⟨j, c, hc, he, ho⟩

theorem total_le_limit (h : Represents s bs) : total bs ≤ s.memmng.limit := by
  have := h.bound
  simp only [NavilMemMng.limit]
  omega

theorem malloc {t : State} {fuel : Nat} (h : Represents s bs) (hn : n ≤ maxSize) (hp : p ≠ 0)
    (he : memMalloc fuel n s.toState = some (p, t)) :
    ∃ bs', Arena.Step s.memmng.limit bs (.alloc (n.toNat + 8) n (offset p)) bs' ∧
      Represents { t with owned := Function.update s.owned p (some n) } bs' := by
  cases ha : alloc s.memmng.limit (n.toNat + 8) n bs
  case none =>
    have ⟨_, hf⟩ := h.memMalloc_full hn (Nat.lt_succ_self _) ha
    have he := memMalloc_unique he hf
    exact absurd (Prod.mk.inj he).left hp
  case some r =>
    have ⟨i, bs'⟩ := r
    have ⟨t, hf, ht, hs⟩ := h.memMalloc_alloc hn (Nat.lt_succ_self _) ha
    have ⟨hp, ht⟩ := Prod.mk.inj <| memMalloc_unique he hf
    subst hp ht
    have ⟨b, hb⟩ := alloc_some h.positive ha
    have hl := hb.total_le h.total_le_limit
    have hib : At bs' i b := hb.at_iff.mpr <| .inl ⟨rfl, rfl⟩
    have hi : i ≤ s.memmng.limit := by have := hib.le; omega
    refine ⟨bs', ?_, { ‹Tiles _ bs'› with heapStart := hs.trans h.heapStart, fit := ?_, owned := ?_ }⟩
    · rw [offset_pos h.heapStart hi]
      exact .alloc ha
    · intro j c k hc ho
      rcases hb.at_iff.mp hc with ⟨-, rfl⟩ | ⟨-, hc⟩
      · exact Option.some.inj (hb.owner.symm.trans ho) ▸ hb.size
      · exact h.fit hc ho
    · intro q k
      rw [← hb.owner, h.owned_update hl hb.at_iff]
      simp only [NavilMemMng.pos, hs]

theorem free (h : Represents s bs) (hp : s.owned p ≠ none) :
    ∃ bs', Arena.Step s.memmng.limit bs (.free (offset p)) bs' ∧
      Represents { s with
        mem   := (memFree p s.mem).2
        owned := Function.update s.owned p none
      } bs' := by
  have ⟨n, hp⟩ := Option.ne_none_iff_exists'.mp hp
  have ⟨i, b, hb, he, ho⟩ := h.owned.mp hp
  subst he
  have hi : i ≤ s.memmng.limit := by have := hb.le; have := h.total_le_limit; omega
  have hu : b.owner.isSome := Option.isSome_of_eq_some ho
  have hat {j c} := at_setOwner_iff (j := j) (c := c) (o := none) h.positive hb
  have ht := h.setOwner (o := none) (v := 0) hb rfl
  rw [h.memFree hb, if_pos hu]
  refine ⟨setOwner i none bs, ?_, { ht with heapStart := h.heapStart, fit := ?_, owned := ?_ }⟩
  · rw [offset_pos h.heapStart hi]
    exact .free hb hu
  · intro j c k hc hk
    rcases hat.mp hc with ⟨-, rfl⟩ | ⟨-, hc⟩
    · nomatch hk
    · exact h.fit hc hk
  · intro q k
    exact h.owned_update (total_setOwner.symm ▸ h.total_le_limit) hat

theorem write {c : Byte} (h : Represents s bs) (hp : s.owned p = some n) (hx : x - p < n) :
    Represents { s with mem := s.mem.setByte x c } bs := by
  have ⟨i, b, hb, he, ho⟩ := h.owned.mp hp
  subst he
  have hf := h.fit hb ho
  refine { h with header := ?_ }
  intro j d hd
  refine h.header hd |>.congr fun y hy => Memory.setByte_apply_of_ne ?_
  rintro rfl
  have := h.heapStart
  have := h.bound
  have := hb.le
  have := hd.le
  have := h.size d hd.mem
  have hj := hb.disjoint hd
  have hy : y - (s.memmng.heapStart + BitVec.ofNat 32 j) < 8 := hy
  have hx : y - (s.memmng.heapStart + BitVec.ofNat 32 i + 8) < n := hx
  simp only [endUsrStackAddr, startDyMemAddr] at *
  bv_omega

end Represents

-- The heap is an arena in which requests are granted by first fit.
theorem refines : Simulation GrantedStep (Arena.Step memInit.limit) Event.op Represents where
  step {s e t bs} h st := by
    have hl : s.memmng.limit = memInit.limit := by rw [NavilMemMng.limit, h.heapStart]; rfl
    obtain ⟨st, hg⟩ := st
    rw [← hl]
    cases st
    case malloc he =>
      rw [if_neg hg.right]
      exact h.malloc hg.left hg.right he
    case free hp     => exact h.free hp
    case write hx hp => exact ⟨bs, .idle, h.write hp hx⟩

end Heap
