import Mathlib.Data.Finset.Card
import Navilnux.Heap.System

namespace Heap

open Arena

def OwnsLess (k : Nat) (s : System) : Prop :=
  ∀ T : Finset Word, (∀ p ∈ T, s.owned p ≠ none) → T.card < k

-- A step in which a request is for `n` bytes, and is made by a task while less than `k` pointers are owned.
def BoundedStep (k : Nat) (n : Word) (s : System) (e : Event) (t : System) : Prop :=
  Step s e t ∧ ∀ {size p}, e = .malloc size p → size = n ∧ OwnsLess k s

structure Footprint (k : Nat) (n : Word) (es : List Event) (s : System) : Prop where
  granted    : ∀ {size p}, .malloc size p ∈ es → p ≠ 0
  startLe    : s.memmng.heapStart ≤ s.memmng.usedEnd
  usedEnd    : s.memmng.usedEnd.toNat - s.memmng.heapStart.toNat ≤ k * (n.toNat + 8)
  terminates : ∀ size, ∃ fuel r, memMalloc fuel size s.toState = some r

structure Bounded (k : Nat) (n : Word) (bs : Arena Word) (s : System) : Prop
    extends Represents s bs where
  uniform : Uniform (n.toNat + 8) bs
  length  : bs.length ≤ k

variable {s t : System} {bs bs' : Arena Word} {m : Memory} {es : List Event} {e : Event}
variable {k fuel : Nat} {n p : Word}

namespace Represents

theorem limit_eq (h : Represents s bs) : s.memmng.limit = 0x01400000 := by
  rw [NavilMemMng.limit, h.heapStart]
  rfl

theorem length_lt (h : Represents s bs) (hu : Uniform (n.toNat + 8) bs)
    (ho : ∀ b ∈ bs, b.owner ≠ none) (hl : OwnsLess k s) : bs.length < k := by
  have hle {j : Nat} (hj : j < bs.length) : (n.toNat + 8) * j ≤ total bs :=
    hu.total ▸ Nat.mul_le_mul_left _ (Nat.le_of_lt hj)
  have hc := hl ((Finset.range bs.length).image fun j => s.memmng.pos ((n.toNat + 8) * j) + 8) ?_
  case refine_1 =>
    intro p hp
    have ⟨j, hj, hp⟩ := Finset.mem_image.mp hp
    have ⟨b, hb⟩ := hu.exists_at <| Finset.mem_range.mp hj
    have ⟨x, hx⟩ := Option.ne_none_iff_exists'.mp <| ho b hb.mem
    exact h.owned.mpr ⟨_, b, hb, hp.symm, hx⟩ ▸ Option.some_ne_none x
  rwa [Finset.card_image_of_injOn, Finset.card_range] at hc
  intro i hi j hj he
  have hi := hle <| Finset.mem_range.mp hi
  have hj := hle <| Finset.mem_range.mp hj
  have hp := h.pos_inj hi hj <| BitVec.add_left_inj _ |>.mp he
  exact Nat.eq_of_mul_eq_mul_left (Nat.succ_pos _) hp

end Represents

namespace Bounded

theorem init : Bounded k n [] (.init m) where
  toRepresents := .init
  uniform _ hb := nomatch hb
  length       := Nat.zero_le k

theorem total_le (h : Bounded k n bs s) : total bs ≤ k * (n.toNat + 8) := by
  rw [h.uniform.total, Nat.mul_comm]
  exact Nat.mul_le_mul_right _ h.length

theorem room (h : Bounded k n bs s) (hk : k * (n.toNat + 8) ≤ 0x01400000) (hl : OwnsLess k s)
    (hf : find (n.toNat + 8) bs = none) : total bs + (n.toNat + 8) ≤ s.memmng.limit := by
  have hlt := h.length_lt h.uniform (h.uniform.owned_of_find hf) hl
  rw [h.limit_eq, h.uniform.total]
  calc (n.toNat + 8) * bs.length + (n.toNat + 8)
    _ = (bs.length + 1) * (n.toNat + 8) := by rw [Nat.mul_comm _ bs.length, Nat.succ_mul]
    _ ≤ k * (n.toNat + 8)               := Nat.mul_le_mul_right _ hlt
    _ ≤ 0x01400000                      := hk

theorem granted (h : Bounded k n bs s) (hk : k * (n.toNat + 8) ≤ 0x01400000)
    (st : BoundedStep k n s e t) : e.Granted := by
  obtain ⟨st, hb⟩ := st
  cases st
  case free  => trivial
  case write => trivial
  case malloc n he =>
    obtain ⟨rfl, hl⟩ := hb rfl
    have hn : n ≤ maxSize := by
      have h0 : 0 < k := hl ∅ nofun
      have hs := Nat.le_trans (Nat.le_mul_of_pos_left _ h0) hk
      have hm : maxSize.toNat = 0x01400000 - 8 := rfl
      exact BitVec.le_def.mpr <| by omega
    refine ⟨hn, ?_⟩
    have hf := Nat.lt_succ_self bs.length
    cases hi : find (n.toNat + 8) bs
    case some i =>
      have ⟨b, hb, _⟩ := find_some hi
      have hm := memMalloc_unique he <| h.memMalloc_reuse hf <| needed_of_le_maxSize hn ▸ hi
      rw [(Prod.mk.inj hm).left]
      exact h.pos_add_eight_ne_zero <| Nat.le_of_add_right_le hb.le
    case none =>
      have hm := memMalloc_unique he <|
        h.memMalloc_grow hn hf (needed_of_le_maxSize hn ▸ hi) (h.room hk hl hi)
      rw [(Prod.mk.inj hm).left]
      exact h.pos_add_eight_ne_zero <| Nat.le_refl _

theorem step (h : Bounded k n bs s) (hk : k * (n.toNat + 8) ≤ 0x01400000)
    (st : BoundedStep k n s e t) : ∃ bs', Bounded k n bs' t := by
  have ⟨bs', sa, ht⟩ := refines.step h.toRepresents ⟨st.left, h.granted hk st⟩
  have hm {j a i} (he : e.op = .alloc j a i) : j = n.toNat + 8 ∧ OwnsLess k s := by
    cases e <;> cases he
    have ⟨hs, hl⟩ := st.right rfl
    exact ⟨by rw [hs], hl⟩
  have ho {j a i} (he : e.op = .alloc j a i) : j = n.toNat + 8 := (hm he).left
  refine ⟨bs', { ht with uniform := h.uniform.step (Nat.succ_pos _) sa ho, length := ?_ }⟩
  rcases h.uniform.length_step sa ho with hl | ⟨⟨_, _, he⟩, hl, hb⟩
  · exact Nat.le_trans hl h.length
  · exact hl ▸ h.length_lt h.uniform hb (hm he).right

theorem of_run (hk : k * (n.toNat + 8) ≤ 0x01400000) (r : Run (BoundedStep k n) (.init m) es s) :
    (∀ e ∈ es, e.Granted) ∧ ∃ bs, Bounded k n bs s := by
  refine r.invariant (P := fun es s => (∀ e ∈ es, e.Granted) ∧ ∃ bs, Bounded k n bs s) ?_ ?_
  case refine_1 => exact ⟨List.forall_mem_nil _, [], .init⟩
  case refine_2 =>
    intro _ _ _ _ _ ⟨hg, _, h⟩ st
    exact ⟨List.forall_mem_cons.mpr ⟨h.granted hk st, hg⟩, h.step hk st⟩

end Bounded

-- The heap does not grow beyond `k` blocks while requests have the same size, and are made only by tasks
-- that own less than `k` pointers together.
theorem footprint (hk : k * (n.toNat + 8) ≤ 0x01400000) (r : Run (BoundedStep k n) (.init m) es s) :
    Footprint k n es s := by
  have ⟨hg, bs, h⟩ := Bounded.of_run hk r
  have hu := h.usedEnd_toNat
  have ht := h.total_le
  constructor
  case granted    => exact fun he => (hg _ he).right
  case startLe    => exact BitVec.le_def.mpr <| by omega
  case usedEnd    => omega
  case terminates => exact h.terminates

theorem ownsLess_one (h : ∀ p, s.owned p = none) : OwnsLess 1 s := by
  intro T hT
  have he : T = ∅ := Finset.eq_empty_of_forall_notMem fun p hp => hT p hp <| h p
  exact he ▸ Nat.zero_lt_one

theorem footprint_reuse : ∃ s, Footprint 1 8
    [.malloc 8 0xA2C00008, .free 0xA2C00008 0, .malloc 8 0xA2C00008] s := by
  have r : Run (BoundedStep 1 8) (.init fun _ => 255) _ _ := Run.init
    |>.step ⟨.malloc (p := 0xA2C00008) 1 8 rfl, by rintro _ _ ⟨⟩; exact ⟨rfl, ownsLess_one fun _ => rfl⟩⟩
    |>.step ⟨.free 0xA2C00008 (by decide), nofun⟩
    |>.step ⟨.malloc (p := 0xA2C00008) 2 8 rfl, by
      rintro _ _ ⟨⟩
      refine ⟨rfl, ownsLess_one fun p => ?_⟩
      by_cases hp : p = 0xA2C00008 <;> simp [System.init, hp]⟩
  exact ⟨_, footprint (by decide) r⟩

theorem ownsLess_two {q : Word} (h : ∀ {p}, s.owned p ≠ none → p = q) : OwnsLess 2 s :=
  fun _ hT => Nat.lt_succ_of_le <| Finset.card_le_one.mpr fun _ ha _ hb =>
    h (hT _ ha) |>.trans (h <| hT _ hb).symm

-- Never more than one pointer is owned, but the second request is made while it is. The heap has no room
-- for another block.
theorem footprint_exceeded : ∃ s₁ s₂ : System, 1 * ((0x013FFFF8 : Word).toNat + 8) ≤ 0x01400000 ∧
    Run Step (.init fun _ => 0) [.malloc 0x013FFFF8 0xA2C00008] s₁ ∧
    Step s₁ (.malloc 0x013FFFF8 0) s₂ ∧
    OwnsLess 2 (.init fun _ => 0) ∧ OwnsLess 2 s₁ ∧ OwnsLess 2 s₂ ∧
    s₂.memmng.usedEnd.toNat - s₂.memmng.heapStart.toNat = 2 * 0x01400000 ∧
    ¬Footprint 1 0x013FFFF8 [.malloc 0x013FFFF8 0, .malloc 0x013FFFF8 0xA2C00008] s₂ := by
  have hq {p : Word} (hp : Function.update (System.init fun _ => 0).owned 0xA2C00008
      (some 0x013FFFF8) p ≠ none) : p = 0xA2C00008 := by
    by_contra hne
    exact hp <| Function.update_of_ne hne ..
  refine ⟨_, _, by decide, .single <| .malloc (p := 0xA2C00008) 1 0x013FFFF8 rfl,
    .malloc (p := 0) 2 0x013FFFF8 rfl, ?_, ownsLess_two hq, ownsLess_two hq, by decide, fun h => ?_⟩
  · exact ownsLess_two (q := 0) fun hp => absurd rfl hp
  · exact h.granted List.mem_cons_self rfl

end Heap
