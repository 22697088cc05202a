import Navilnux.Heap.Theorems.Walk

-- The addresses that are used as a `Dy_mem_header`.
namespace Heap

open Arena

-- The addresses that a call casts to `Dy_mem_header*` and dereferences.
inductive Touches (s : State) : Event → Word → Prop
  | walk : (a ∈ visited s.mem s.memmng.usedEnd (size + DyMemHeader.sizeof) fuel s.memmng.heapStart) →
    Touches s (.malloc size p) a
  | new  : (newHeader fuel size s = some a) → Touches s (.malloc size p) a
  | free : Touches s (.free p r) (p - DyMemHeader.sizeof)

structure AlignedCall (s : State) (e : Event) : Prop where
  header  : ∀ {a}, Touches s e a → 4 ∣ a.toNat
  pointer : ∀ {size p}, e = .malloc size p → p ≠ 0 → 4 ∣ p.toNat

-- A request is served from a free block, or all blocks have sizes that are multiples of 4.
def Event.KeepsAlignment (s : State) : Event → Prop
  | malloc size _ => s.HasFree size ∨ ∀ {a}, s.IsHeader a → 4 ∣ (DyMemHeader.size s.mem a).toNat
  | free _ _      => True
  | write _ _     => True

variable {s t : System} {bs : Arena Word} {e : Event} {es : List Event} {m : Memory}
variable {a n p r : Word} {fuel i : Nat}

structure AlignedHeap (bs : Arena Word) (s : System) : Prop extends Represents s bs where
  aligned : Aligned 4 bs

namespace AlignedHeap

theorem init : AlignedHeap [] (.init m) where
  toRepresents := .init
  aligned      := Aligned.nil

theorem dvd_pos_iff (h : AlignedHeap bs s) (hi : i ≤ total bs) :
    4 ∣ (s.memmng.pos i).toNat ↔ 4 ∣ i := by
  have hd : 4 ∣ s.memmng.heapStart.toNat := h.heapStart ▸ (by decide : 4 ∣ startDyMemAddr.toNat)
  rw [h.pos_toNat hi, Nat.dvd_add_right hd]

theorem dvd_header (h : AlignedHeap bs s) (ha : s.IsHeader a) : 4 ∣ a.toNat := by
  have ⟨i, b, hb, he⟩ := h.isHeader_iff.mp ha
  exact he ▸ h.dvd_pos_iff (Nat.le_of_add_right_le hb.le) |>.mpr (h.aligned hb)

theorem dvd_usedEnd_iff (h : AlignedHeap bs s) : 4 ∣ s.memmng.usedEnd.toNat ↔
    ∀ {a}, s.IsHeader a → 4 ∣ (DyMemHeader.size s.mem a).toNat := by
  have hsize {i b} (hb : At bs i b) :
      (DyMemHeader.size s.mem (s.memmng.pos i)).toNat = b.size := by
    have := h.size b hb.mem
    rw [h.header hb |>.size, BitVec.toNat_ofNat, Nat.mod_eq_of_lt (by omega)]
  rw [h.usedEnd, h.dvd_pos_iff (Nat.le_refl _), h.aligned.dvd_total_iff]
  constructor
  · intro hd a ha
    have ⟨i, b, hb, he⟩ := h.isHeader_iff.mp ha
    exact he ▸ hsize hb ▸ hd b hb.mem
  · intro hd b hm
    have ⟨i, hb⟩ := exists_at_of_mem hm
    exact hsize hb ▸ hd (h.isHeader_iff.mpr ⟨i, b, hb, rfl⟩)

theorem dvd_add_eight (h : AlignedHeap bs s) (hi : i ≤ total bs) (hd : 4 ∣ i) :
    4 ∣ (s.memmng.pos i + 8).toNat := by
  have hp := h.dvd_pos_iff hi |>.mpr hd
  have := h.pos_toNat hi
  have := h.bound
  simp only [endUsrStackAddr] at *
  bv_omega

theorem dvd_malloc (h : AlignedHeap bs s)
    (hd : find (needed n) bs = none → 4 ∣ s.memmng.usedEnd.toNat)
    (ht : Touches s.toState (.malloc n p) a) : 4 ∣ a.toNat := by
  cases ht
  case walk hv => exact h.dvd_header <| reaches_of_mem_visited hv
  case new hw =>
    have ⟨hi, he⟩ := h.newHeader_eq hw
    exact he ▸ hd hi

theorem call_reuse {t : State} (h : AlignedHeap bs s)
    (he : memMalloc fuel n s.toState = some (p, t)) (hi : find (needed n) bs = some i) :
    AlignedCall s.toState (.malloc n p) := by
  have ⟨b, hb, _⟩ := find_some hi
  have hp := memMalloc_unique he <| h.memMalloc_reuse (Nat.lt_succ_self _) hi
  constructor
  case header => exact h.dvd_malloc fun hn => nomatch hi.symm.trans hn
  case pointer =>
    rintro _ _ ⟨⟩ -
    exact (Prod.mk.inj hp).left ▸ h.dvd_add_eight (Nat.le_of_add_right_le hb.le) (h.aligned hb)

theorem call_grow_iff {t : State} (h : AlignedHeap bs s) (hn : n ≤ maxSize) (hp : p ≠ 0)
    (he : memMalloc fuel n s.toState = some (p, t)) (hi : find (needed n) bs = none) :
    AlignedCall s.toState (.malloc n p) ↔ 4 ∣ s.memmng.usedEnd.toNat := by
  have hf := Nat.lt_succ_self bs.length
  have hl := h.room_of_granted hn hp he hi
  constructor
  case mp => exact fun ha => ha.header <| .new <| h.newHeader_grow he hi (h.not_end_lt_of_le hn hl)
  case mpr =>
    intro hd
    constructor
    case header => exact h.dvd_malloc fun _ => hd
    case pointer =>
      rintro _ _ ⟨⟩ -
      have hp := memMalloc_unique he <| h.memMalloc_grow hn hf hi hl
      have hd := h.dvd_pos_iff (Nat.le_refl _) |>.mp <| h.usedEnd ▸ hd
      exact (Prod.mk.inj hp).left ▸ h.dvd_add_eight (Nat.le_refl _) hd

theorem hasFree_iff_find (h : AlignedHeap bs s) : s.HasFree n ↔ find (needed n) bs ≠ none := by
  rw [h.hasFree_iff, ne_eq, find_eq_none_iff]
  simp

theorem free_aligned (h : AlignedHeap bs s) (hp : s.owned p ≠ none) :
    AlignedCall s.toState (.free p r) := by
  have ⟨n, hp⟩ := Option.ne_none_iff_exists'.mp hp
  have ⟨i, b, hb, he, _⟩ := h.owned.mp hp
  constructor
  case pointer => exact nofun
  case header =>
    intro a ht
    cases ht
    exact h.dvd_header <| h.isHeader_iff.mpr ⟨i, b, hb, he ▸ BitVec.add_sub_cancel _ _⟩

theorem call_iff (h : AlignedHeap bs s) (st : GrantedStep s e t) :
    AlignedCall s.toState e ↔ e.KeepsAlignment s.toState := by
  obtain ⟨st, hg⟩ := st
  cases st
  case free hp => exact iff_of_true (h.free_aligned hp) trivial
  case write   => exact iff_of_true ⟨nofun, nofun⟩ trivial
  case malloc n he =>
    rw [Event.KeepsAlignment, h.hasFree_iff_find, ← h.dvd_usedEnd_iff]
    cases hi : find (needed n) bs
    case none   => simp [h.call_grow_iff hg.left hg.right he hi]
    case some i => simp [h.call_reuse he hi]

theorem step (h : AlignedHeap bs s) (st : GrantedStep s e t) (hk : e.KeepsAlignment s.toState) :
    ∃ bs', AlignedHeap bs' t := by
  have ⟨bs', sa, ht⟩ := refines.step h.toRepresents st
  refine ⟨bs', { ht with aligned := h.aligned.step h.positive sa ?_ }⟩
  intro k x i ho hf
  have hg := st.right
  cases e <;> cases ho
  rcases hk with hfree | hd
  · exact absurd (needed_of_le_maxSize hg.left ▸ hf) <| h.hasFree_iff_find.mp hfree
  · exact h.dvd_pos_iff (Nat.le_refl _) |>.mp <| h.usedEnd ▸ h.dvd_usedEnd_iff.mpr hd

end AlignedHeap

-- The addresses that are used and returned are word aligned as long as a new block is only added to blocks
-- of aligned sizes.
theorem aligned_iff : Run.Always GrantedStep (.init m) (fun _ s e _ => AlignedCall s.toState e) es s ↔
    Run.Always GrantedStep (.init m) (fun _ s e _ => e.KeepsAlignment s.toState) es s :=
  Run.always_iff_always (I := fun _ s => ∃ bs, AlignedHeap bs s) ⟨[], .init⟩
    (fun ⟨_, h⟩ st hk => h.step st hk) fun ⟨_, h⟩ st => h.call_iff st

theorem header_unaligned : ∃ s₁ s₂ : System,
    Run GrantedStep (.init fun _ => 0) [.malloc 1 0xA2C00008] s₁ ∧
    GrantedStep s₁ (.malloc 4 0xA2C00011) s₂ ∧
    Touches s₁.toState (.malloc 4 0xA2C00011) 0xA2C00009 ∧
    ¬AlignedCall s₁.toState (.malloc 4 0xA2C00011) ∧
    ¬Run.Always GrantedStep (.init fun _ => 0) (fun _ s e _ => AlignedCall s.toState e)
      [.malloc 4 0xA2C00011, .malloc 1 0xA2C00008] s₂ := by
  have ⟨s₁, s₂, r, st, hw⟩ : ∃ s₁ s₂, Run GrantedStep (.init fun _ => 0) [.malloc 1 0xA2C00008] s₁ ∧
      GrantedStep s₁ (.malloc 4 0xA2C00011) s₂ ∧ newHeader 2 4 s₁.toState = some 0xA2C00009 :=
    ⟨_, _, .single ⟨.malloc (p := 0xA2C00008) 1 1 rfl, by decide⟩,
      ⟨.malloc (p := 0xA2C00011) 2 4 rfl, by decide⟩, rfl⟩
  have hn : ¬AlignedCall s₁.toState (.malloc 4 0xA2C00011) := fun h =>
    absurd (h.pointer rfl (by decide)) (by decide)
  exact ⟨s₁, s₂, r, st, .new hw, hn, fun h => hn <| h [] _ _ _ _ rfl r st .init⟩

end Heap
