import Navilnux.Heap.System
import Navilnux.Heap.Walk

namespace Heap

structure Unchanged (s t : State) : Prop where
  heapStart : t.memmng.heapStart = s.memmng.heapStart
  usedEnd   : t.memmng.usedEnd = s.memmng.usedEnd
  header    : ∀ {a}, s.IsHeader a →
    DyMemHeader.used t.mem a = DyMemHeader.used s.mem a ∧
    DyMemHeader.size t.mem a = DyMemHeader.size s.mem a

variable {s t : State} {m : Memory} {memmng : NavilMemMng} {fuel : Nat} {size reqSize p : Word}

theorem add_sizeof_ne_zero (h : 0 ≤ size.toInt) : size + DyMemHeader.sizeof ≠ 0 := by
  simp only [DyMemHeader.sizeof, BitVec.toInt_eq_toNat_cond] at *
  bv_omega

theorem finish_zero : (finish reqSize memmng 0 m).2.memmng.usedEnd = memmng.usedEnd + reqSize := by
  simp only [finish, if_true]
  split <;> rfl

-- A request that is refused does not leave the heap as it was, in any state of the heap.
theorem refusal_changes (hs : 0 ≤ size.toInt) (hm : memMalloc fuel size s = some (0, t)) :
    ¬Unchanged s t := by
  intro hu
  have ⟨⟨r, m⟩, hr, hf⟩ := Option.map_eq_some_iff.mp hm
  by_cases h0 : r = 0
  case pos =>
    have he := hu.usedEnd
    rw [show t = (finish _ s.memmng r m).2 from (congrArg Prod.snd hf).symm, h0, finish_zero] at he
    exact add_sizeof_ne_zero hs (by bv_omega)
  case neg =>
    -- The block before the address 0 was taken.
    rcases search_cases hr with ⟨rfl, -⟩ | ⟨hh, hfree, rfl⟩
    case inl => exact absurd rfl h0
    case inr =>
      rw [finish, if_neg h0] at hf
      have ht : t.mem = DyMemHeader.setUsed s.mem r 1 := congrArg (·.2.mem) hf.symm
      obtain ⟨hused, _⟩ := hu.header hh
      rw [ht, hfree] at hused
      exact absurd (Memory.word_setWord.symm.trans hused) (by decide)

theorem refusal_changes_first : ∃ t, memMalloc 1 0x01400000 ⟨fun _ => 0, memInit⟩ = some (0, t) ∧
    ¬Unchanged ⟨fun _ => 0, memInit⟩ t :=
  have hm : memMalloc 1 0x01400000 ⟨fun _ => 0, memInit⟩ = some (0, _) := rfl
  ⟨_, hm, refusal_changes (by decide) hm⟩

-- After this request, a request for 8 bytes does not return any more. Otherwise it is granted.
theorem refusal_blocks_heap : ∃ s : System,
    Run Step (.init fun _ => 0) [.malloc 0x01400000 0] s ∧
    s.memmng.usedEnd = 0xA4000008 ∧
    (∀ fuel, memMalloc fuel 8 s.toState = none) ∧
    ∃ t, memMalloc 1 8 (System.init fun _ => 0).toState = some (0xA2C00008, t) := by
  have st : Step (.init fun _ => 0) (.malloc 0x01400000 0) _ := .malloc (p := 0) 1 0x01400000 rfl
  exact ⟨_, .single st, by decide, fun _ => memMalloc_diverges (by decide) (by decide), _, rfl⟩

end Heap
