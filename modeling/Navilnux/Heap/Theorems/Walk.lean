import Navilnux.Heap.System
import Navilnux.Heap.Walk

-- The walk of `mem_malloc` after any calls of `mem_malloc` and `mem_free`.
namespace Heap

open Arena

def newHeader (fuel : Nat) (size : Word) (s : State) : Option Word :=
  match search s.mem s.memmng.usedEnd (size + DyMemHeader.sizeof) fuel s.memmng.heapStart with
  | none        => none
  | some (r, _) =>
    if r = 0 ∧ ¬(endUsrStackAddr < s.memmng.usedEnd + (size + DyMemHeader.sizeof)) then
      some s.memmng.usedEnd
    else none

structure Tracked extends State where
  written  : List Word
  returned : List Word

def Tracked.init (m : Memory) : Tracked where
  mem      := m
  memmng   := memInit
  written  := []
  returned := []

def Tracked.mallocStep (s : Tracked) (fuel : Nat) (size p : Word) (t : State) : Tracked where
  toState  := t
  written  := (newHeader fuel size s.toState).toList ++ s.written
  returned := if p = 0 then s.returned else p :: s.returned

-- A task frees any pointer that it got before, even if it was freed already.
inductive TrackedStep : Tracked → Event → Tracked → Prop
  | malloc (fuel : Nat) (size : Word) : (memMalloc fuel size s.toState = some (p, t)) →
    TrackedStep s (.malloc size p) (s.mallocStep fuel size p t)
  | free (p : Word) : (p ∈ s.returned) → TrackedStep s (.free p (memFree p s.mem).1) { s with
      mem := (memFree p s.mem).2
    }

-- A request is served from a free block, or the heap has room for a new block of the requested size. A
-- new block for -8 bytes has the size 0, so that the next one replaces it.
def Event.Served (s : State) : Event → Prop
  | malloc size _ => s.HasFree size ∨ size = -8 ∨
    0 ≤ size.toInt ∧ s.memmng.usedEnd.toNat + size.toNat + 8 ≤ endUsrStackAddr.toNat
  | free _ _      => True
  | write _ _     => True

structure WalkSound (s : Tracked) (size : Word) : Prop where
  terminates : ∃ fuel r, memMalloc fuel size s.toState = some r
  increasing : ∀ fuel, (visited s.mem s.memmng.usedEnd (size + DyMemHeader.sizeof) fuel
    s.memmng.heapStart).Pairwise (· < ·)
  written    : ∀ fuel, ∀ a ∈ visited s.mem s.memmng.usedEnd (size + DyMemHeader.sizeof) fuel
    s.memmng.heapStart, a ∈ s.written

variable {s t : Tracked} {e : Event} {es : List Event} {m : Memory} {size p : Word} {fuel : Nat}
variable {bs : Arena Unit}

structure Tracks (s : Tracked) (bs : Arena Unit) : Prop extends Tiles s.toState bs where
  heapStart : s.memmng.heapStart = startDyMemAddr
  written   : ∀ {i b}, At bs i b → s.memmng.pos i ∈ s.written
  returned  : ∀ p ∈ s.returned,
    (∃ i b, At bs i b ∧ p = s.memmng.pos i + 8) ∨ p = s.memmng.usedEnd + 8

section NewHeader

variable {α : Type} {s t : State} {bs : Arena α} {i : Nat}

theorem Tiles.newHeader_eq {a : Word} (h : Tiles s bs) (hn : newHeader fuel size s = some a) :
    find (needed size) bs = none ∧ a = s.memmng.usedEnd := by
  rw [newHeader] at hn
  split at hn
  case h_1 => cases hn
  case h_2 hr =>
    split at hn
    case isFalse => cases hn
    case isTrue hr₀ =>
      refine ⟨?_, (Option.some.inj hn).symm⟩
      have hu := h.search_unique hr
      cases hi : find (needed size) bs
      case none   => rfl
      case some i =>
        obtain ⟨b, hb, _⟩ := find_some hi
        rw [hi] at hu
        have hp := (Prod.mk.inj hu).left.symm.trans hr₀.left
        exact absurd hp <| h.pos_ne_zero <| Nat.le_of_add_right_le hb.le

theorem Tiles.newHeader_reuse (h : Tiles s bs) (hi : find (needed size) bs = some i) :
    newHeader fuel size s = none := by
  by_contra hn
  have ⟨_, hn⟩ := Option.ne_none_iff_exists'.mp hn
  exact nomatch hi.symm.trans (h.newHeader_eq hn).left

theorem Tiles.newHeader_grow (h : Tiles s bs) (he : memMalloc fuel size s = some (p, t))
    (hi : find (needed size) bs = none)
    (hl : ¬(endUsrStackAddr < s.memmng.usedEnd + (size + DyMemHeader.sizeof))) :
    newHeader fuel size s = some s.memmng.usedEnd := by
  have ⟨r, hr, _⟩ := Option.map_eq_some_iff.mp he
  rw [newHeader, hr, h.search_unique hr, hi]
  exact if_pos ⟨rfl, hl⟩

end NewHeader

namespace Tracks

theorem init : Tracks (.init m) [] where
  toTiles     := .init rfl rfl
  heapStart   := rfl
  written h   := nomatch h
  returned _ h := nomatch h

theorem walkSound (h : Tracks s bs) (size : Word) : WalkSound s size where
  terminates := h.toTiles.terminates size
  increasing fuel := by
    rw [h.usedEnd]
    exact visited_sorted h.row
  written fuel a ha := by
    have ⟨i, b, hb, he⟩ := h.isHeader_iff.mp <| reaches_of_mem_visited ha
    exact he ▸ h.written hb

theorem setOwner {i : Nat} {b : Block Unit} {o : Option Unit} {v : Word} (h : Tracks s bs)
    (hb : At bs i b) (hv : v = if o.isSome then 1 else 0) :
    Tracks { s with mem := DyMemHeader.setUsed s.mem (s.memmng.pos i) v } (Arena.setOwner i o bs) where
  toTiles   := h.toTiles.setOwner hb hv
  heapStart := h.heapStart
  written hc := by
    rcases at_setOwner_iff h.positive hb |>.mp hc with ⟨rfl, -⟩ | ⟨-, hc⟩
    · exact h.written hb
    · exact h.written hc
  returned p hp := by
    refine h.returned p hp |>.imp_left fun ⟨j, c, hc, he⟩ => ?_
    by_cases hj : j = i
    case pos => exact ⟨i, _, at_setOwner_iff h.positive hb |>.mpr <| .inl ⟨rfl, rfl⟩, hj ▸ he⟩
    case neg => exact ⟨j, c, at_setOwner_iff h.positive hb |>.mpr <| .inr ⟨hj, hc⟩, he⟩

theorem append {n : Nat} {t : State} (h : Tracks s bs) (ht : Tiles t (bs ++ [⟨n, some ()⟩]))
    (hs : t.memmng.heapStart = s.memmng.heapStart) : Tracks { t with
      written  := s.memmng.usedEnd :: s.written
      returned := (s.memmng.pos (total bs) + 8) :: s.returned
    } (bs ++ [⟨n, some ()⟩]) where
  toTiles   := ht
  heapStart := hs.trans h.heapStart
  written {i b} hc := by
    have hp : t.memmng.pos i = s.memmng.pos i := by rw [NavilMemMng.pos, hs, NavilMemMng.pos]
    rw [hp]
    rcases at_append_iff.mp hc with hc | ⟨rfl, -⟩
    · exact List.mem_cons_of_mem _ <| h.written hc
    · exact h.usedEnd ▸ List.mem_cons_self
  returned  := by
    have hp i : t.memmng.pos i = s.memmng.pos i := by rw [NavilMemMng.pos, hs, NavilMemMng.pos]
    have hnew : At (bs ++ [⟨n, some ()⟩]) (total bs) ⟨n, some ()⟩ := at_append_iff.mpr <| .inr ⟨rfl, rfl⟩
    simp only [hp]
    refine List.forall_mem_cons.mpr ⟨.inl ⟨_, _, hnew, rfl⟩, ?_⟩
    intro p hr
    rcases h.returned p hr with ⟨i, b, hb, he⟩ | he
    · exact .inl ⟨i, b, at_append_iff.mpr <| .inl hb, he⟩
    · exact .inl ⟨_, _, hnew, h.usedEnd ▸ he⟩

theorem return_at {i : Nat} {b : Block Unit} (h : Tracks s bs) (hb : At bs i b) :
    Tracks { s with returned := (s.memmng.pos i + 8) :: s.returned } bs where
  toTiles   := h.toTiles
  heapStart := h.heapStart
  written   := h.written
  returned  := List.forall_mem_cons.mpr ⟨.inl ⟨i, b, hb, rfl⟩, h.returned⟩

theorem return_end {m : Memory} (h : Tracks s bs)
    (hm : ∀ x, 8 ≤ x - s.memmng.usedEnd → m x = s.mem x) : Tracks { s with
      mem      := m
      written  := s.memmng.usedEnd :: s.written
      returned := (s.memmng.usedEnd + 8) :: s.returned
    } bs where
  toTiles   := h.toTiles.write_end hm
  heapStart := h.heapStart
  written   := fun hc => List.mem_cons_of_mem _ <| h.written hc
  returned  := List.forall_mem_cons.mpr ⟨.inr rfl, h.returned⟩

theorem free (h : Tracks s bs) (hp : p ∈ s.returned) :
    ∃ bs', Tracks { s with mem := (memFree p s.mem).2 } bs' := by
  rcases h.returned p hp with ⟨i, b, hb, he⟩ | he
  case inl =>
    rw [he, h.memFree hb]
    cases b.owner
    case none => exact ⟨bs, h⟩
    case some => exact ⟨_, h.setOwner (o := none) hb rfl⟩
  case inr =>
    have ha : p - DyMemHeader.sizeof = s.memmng.usedEnd := he ▸ BitVec.add_sub_cancel _ 8
    rw [memFree, ha]
    split
    case isTrue  => exact ⟨bs, h⟩
    case isFalse =>
      exact ⟨bs, h.toTiles.write_end fun _ => Header.setUsed_frame, h.heapStart, h.written, h.returned⟩

theorem malloc_reuse {t : State} {i : Nat} (h : Tracks s bs)
    (he : memMalloc fuel size s.toState = some (p, t)) (hi : find (needed size) bs = some i) :
    ∃ bs', Tracks (s.mallocStep fuel size p t) bs' := by
  have ⟨b, hb, _⟩ := find_some hi
  have hle := Nat.le_of_add_right_le hb.le
  have hf := Nat.lt_succ_self bs.length
  have ⟨hp, ht⟩ := Prod.mk.inj <| memMalloc_unique he <| h.memMalloc_reuse hf hi
  rw [Tracked.mallocStep, h.newHeader_reuse hi, hp, if_neg (h.pos_add_eight_ne_zero hle), ht]
  have h' := h.setOwner (o := some ()) hb rfl
  have hb' := at_setOwner_iff (o := some ()) h.positive hb |>.mpr <| .inl ⟨rfl, rfl⟩
  exact ⟨_, h'.return_at hb'⟩

theorem malloc_empty {t : State} (h : Tracks s bs)
    (he : memMalloc fuel (-8) s.toState = some (p, t)) (hi : find (needed (-8)) bs = none) :
    ∃ bs', Tracks (s.mallocStep fuel (-8) p t) bs' := by
  have hf := Nat.lt_succ_self bs.length
  have ⟨hp, ht⟩ := Prod.mk.inj <| memMalloc_unique he <| h.memMalloc_empty hf hi
  have hp₀ : s.memmng.usedEnd + 8 ≠ 0 := h.usedEnd ▸ h.pos_add_eight_ne_zero (Nat.le_refl _)
  rw [Tracked.mallocStep, h.newHeader_grow he hi h.not_end_lt, hp, if_neg hp₀, ht]
  exact ⟨bs, h.return_end fun _ hx => Header.setSize_frame hx |>.trans <| Header.setUsed_frame hx⟩

theorem malloc_grow {t : State} (h : Tracks s bs)
    (he : memMalloc fuel size s.toState = some (p, t)) (hi : find (needed size) bs = none)
    (hl : s.memmng.usedEnd.toNat + size.toNat + 8 ≤ endUsrStackAddr.toNat) :
    ∃ bs', Tracks (s.mallocStep fuel size p t) bs' := by
  have hf := Nat.lt_succ_self bs.length
  have hn : size ≤ maxSize := by
    have := h.usedEnd_toNat
    have := h.heapStart
    simp only [maxSize, endUsrStackAddr, startDyMemAddr, DyMemHeader.sizeof] at *
    bv_omega
  have hl := h.limit_iff.mpr hl
  have hend := h.not_end_lt_of_le hn hl
  have hsz := toNat_le_of_le_maxSize hn
  have h' := h.toTiles.append (a := ()) ⟨by omega, by omega⟩ (h.bound_append hl)
  obtain ⟨hp, ht⟩ := Prod.mk.inj <| memMalloc_unique he <| h.memMalloc_grow hn hf hi hl
  have hp₀ := h.pos_add_eight_ne_zero (Nat.le_refl _)
  rw [Tracked.mallocStep, h.newHeader_grow he hi hend, hp, if_neg hp₀, ht]
  exact ⟨_, h.append h' rfl⟩

theorem malloc {t : State} (h : Tracks s bs) (he : memMalloc fuel size s.toState = some (p, t))
    (hs : (Event.malloc size p).Served s.toState) :
    ∃ bs', Tracks (s.mallocStep fuel size p t) bs' := by
  cases hi : find (needed size) bs
  case some => exact h.malloc_reuse he hi
  case none =>
    have hnf : ¬s.HasFree size := fun hfree =>
      have ⟨b, hb, hfit⟩ := h.hasFree_iff.mp hfree
      find_eq_none_iff.mp hi b hb hfit
    rcases hs.resolve_left hnf with rfl | ⟨_, hl⟩
    · exact h.malloc_empty he hi
    · exact h.malloc_grow he hi hl

end Tracks

def ServedStep (s : Tracked) (e : Event) (t : Tracked) : Prop :=
  TrackedStep s e t ∧ e.Served s.toState

theorem Tracks.of_run (r : Run ServedStep (.init m) es s) : ∃ bs, Tracks s bs := by
  refine r.invariant (P := fun _ s => ∃ bs, Tracks s bs) ⟨[], .init⟩ ?_
  intro _ s _ t _ ⟨bs, h⟩ ⟨st, hs⟩
  cases st
  case malloc he => exact h.malloc he hs
  case free hp   => exact h.free hp

-- As long as no request is refused or too small, the loop of `mem_malloc` comes to an end for any request.
theorem walk_sound (r : Run ServedStep (.init m) es s) (size : Word) : WalkSound s size :=
  have ⟨_, h⟩ := Tracks.of_run r
  h.walkSound size

theorem walk_sound_double_free : ∃ s : Tracked,
    Run ServedStep (.init fun _ => 255)
      [.malloc 0xFFFFFFF0 0xA2C00008, .free 0xA2C00008 (-1), .free 0xA2C00008 0,
        .malloc 12 0xA2C00008] s ∧
    WalkSound s 0x80000000 := by
  have r : Run ServedStep (.init fun _ => 255) _ _ := Run.init
    |>.step ⟨.malloc (p := 0xA2C00008) 1 12 rfl, .inr <| .inr ⟨by decide, by decide⟩⟩
    |>.step ⟨.free 0xA2C00008 (by decide), trivial⟩
    |>.step ⟨.free 0xA2C00008 (by decide), trivial⟩
    |>.step ⟨.malloc (p := 0xA2C00008) 1 0xFFFFFFF0 rfl,
      .inl (by exact ⟨0xA2C00000, .here (by decide), by decide, by decide⟩)⟩
  exact ⟨_, r, walk_sound r 0x80000000⟩

-- After a refused request, the walk for any request that is positive reads a word that was never written,
-- and does not come to an end if it is 0.
theorem walk_never_ends : ∃ s : Tracked,
    Run TrackedStep (.init fun _ => 0) [.malloc 0x01400000 0] s ∧
    (∀ fuel, memMalloc fuel 8 s.toState = none) ∧
    visited s.mem s.memmng.usedEnd 16 3 s.memmng.heapStart = [0xA2C00000, 0xA2C00000, 0xA2C00000] ∧
    s.written = [] ∧ ¬WalkSound s 8 := by
  have st : TrackedStep (.init fun _ => 0) (.malloc 0x01400000 0) _ :=
    .malloc (p := 0) 1 0x01400000 rfl
  have hd {fuel} : memMalloc fuel 8 ⟨fun _ => 0, { memInit with usedEnd := 0xA4000008 }⟩ = none :=
    memMalloc_diverges (by decide) (by decide)
  refine ⟨_, .single st, fun _ => hd, by decide, rfl, fun h => ?_⟩
  have ⟨_, _, hr⟩ := h.terminates
  exact nomatch hd.symm.trans hr

end Heap
