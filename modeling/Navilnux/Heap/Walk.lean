import Navilnux.Heap.Theorems.Malloc

-- The walk of `mem_malloc` over the headers.
namespace Heap

open Arena

inductive Reaches (m : Memory) (stop : Word) : Word → Word → Prop
  | here : (a ≠ stop) → Reaches m stop a a
  | next : (a ≠ stop) → Reaches m stop (a + DyMemHeader.size m a) c → Reaches m stop a c

-- The headers of the heap. In a heap that is not well formed, they can be anywhere.
def State.IsHeader (s : State) (a : Word) : Prop :=
  Reaches s.mem s.memmng.usedEnd s.memmng.heapStart a

def State.HasFree (s : State) (size : Word) : Prop :=
  ∃ a, s.IsHeader a ∧ DyMemHeader.used s.mem a = 0 ∧
    (size + DyMemHeader.sizeof).sle (DyMemHeader.size s.mem a)

def visited (m : Memory) (usedEnd reqSize : Word) : Nat → Word → List Word
  | 0,        _      => []
  | fuel + 1, curPos =>
    if curPos = usedEnd then []
    else if DyMemHeader.used m curPos = 0 ∧ reqSize.sle (DyMemHeader.size m curPos) then [curPos]
    else curPos :: visited m usedEnd reqSize fuel (curPos + DyMemHeader.size m curPos)

variable {α : Type} {m m' : Memory} {bs : Arena α} {fuel : Nat} {a c r stop reqSize : Word}

theorem reaches_of_mem_visited (h : c ∈ visited m stop reqSize fuel a) : Reaches m stop a c := by
  induction fuel generalizing a
  case zero => nomatch h
  case succ ih =>
    rw [visited] at h
    split at h
    case isTrue => nomatch h
    case isFalse ha =>
      split at h
      case isTrue =>
        obtain rfl := List.mem_singleton.mp h
        exact .here ha
      case isFalse =>
        rcases List.mem_cons.mp h with rfl | h
        · exact .here ha
        · exact .next ha (ih h)

theorem search_cases (h : search m stop reqSize fuel a = some (r, m')) :
    r = 0 ∧ m' = m ∨
    Reaches m stop a r ∧ DyMemHeader.used m r = 0 ∧ m' = DyMemHeader.setUsed m r 1 := by
  induction fuel generalizing a
  case zero => nomatch h
  case succ ih =>
    rw [search] at h
    split at h
    case isTrue =>
      obtain ⟨rfl, rfl⟩ := Prod.mk.inj <| Option.some.inj h
      exact .inl ⟨rfl, rfl⟩
    case isFalse ha =>
      split at h
      case isTrue hf =>
        obtain ⟨rfl, rfl⟩ := Prod.mk.inj <| Option.some.inj h
        exact .inr ⟨.here ha, hf.left, rfl⟩
      case isFalse =>
        rcases ih h with hr | ⟨hr, hu, hm⟩
        · exact .inl hr
        · exact .inr ⟨.next ha hr, hu, hm⟩

theorem search_diverges (ha : a ≠ stop) (hs : DyMemHeader.size m a = 0) (hr : ¬reqSize.sle 0) :
    search m stop reqSize fuel a = none := by
  induction fuel
  case zero => rfl
  case succ ih =>
    have hf : ¬(DyMemHeader.used m a = 0 ∧ reqSize.sle (DyMemHeader.size m a)) := by
      rw [hs]
      exact fun h => hr h.right
    rw [search, if_neg ha, if_neg hf, hs]
    exact (BitVec.add_zero a).symm ▸ ih

theorem memMalloc_diverges {size : Word} {stop : Word} (h₁ : startDyMemAddr ≠ stop)
    (h₂ : ¬(size + DyMemHeader.sizeof).sle 0) :
    memMalloc fuel size ⟨fun _ => 0, { memInit with usedEnd := stop }⟩ = none :=
  have hz : Memory.word (fun _ => 0) (startDyMemAddr + 4) = 0 := by decide
  Option.map_eq_none_iff.mpr <| search_diverges h₁ hz h₂

theorem reaches_iff (h : Row m a bs) : Reaches m (a + BitVec.ofNat 32 (total bs)) a c ↔
    ∃ i b, At bs i b ∧ c = a + BitVec.ofNat 32 i := by
  induction bs generalizing a
  case nil =>
    constructor
    · intro h
      cases h
      case here h | next h _ => exact absurd Row.nil_end h
    · exact fun ⟨_, _, h, _⟩ => nomatch h
  case cons b bs ih =>
    have ih := ih h.tail
    rw [Row.tail_end] at ih
    constructor
    · intro hr
      cases hr
      case here      => exact ⟨0, b, .head, (BitVec.add_zero c).symm⟩
      case next hr =>
        have ⟨i, d, hi, hc⟩ := ih.mp <| h.head.size ▸ hr
        exact ⟨_, d, .tail hi, by rw [hc, BitVec.ofNat_add, BitVec.add_assoc]⟩
    · intro ⟨i, d, hi, hc⟩
      cases hi
      case head =>
        rw [hc, BitVec.add_zero]
        exact .here h.ne_end
      case tail i hi =>
        refine .next h.ne_end <| h.head.size ▸ ih.mpr ⟨i, d, hi, ?_⟩
        rw [hc, BitVec.ofNat_add, BitVec.add_assoc]

theorem visited_sorted (h : Row m a bs) :
    (visited m (a + BitVec.ofNat 32 (total bs)) reqSize fuel a).Pairwise (· < ·) := by
  induction bs generalizing a fuel
  case nil =>
    cases fuel
    case zero => exact .nil
    case succ =>
      rw [visited, if_pos Row.nil_end]
      exact .nil
  case cons b bs ih =>
    cases fuel
    case zero => exact .nil
    case succ fuel =>
      rw [visited, if_neg h.ne_end]
      split
      case isTrue  => exact List.pairwise_singleton ..
      case isFalse =>
        rw [← Row.tail_end, h.head.size]
        refine .cons (fun c hc => ?_) (ih h.tail)
        have ⟨i, d, hi, hc⟩ := reaches_iff h.tail |>.mp <| reaches_of_mem_visited hc
        have := h.head_size
        have := h.bound
        have := hi.le
        simp only [total_cons] at *
        bv_omega

namespace Tiles

variable {s : State} {size : Word}

theorem isHeader_iff (h : Tiles s bs) : s.IsHeader c ↔ ∃ i b, At bs i b ∧ c = s.memmng.pos i := by
  rw [State.IsHeader, h.usedEnd]
  exact reaches_iff h.row

theorem hasFree_iff (h : Tiles s bs) : s.HasFree size ↔ ∃ b ∈ bs, Fits (needed size) b := by
  constructor
  · intro ⟨a, ha, hf⟩
    have ⟨i, b, hb, he⟩ := h.isHeader_iff.mp ha
    have hd : Header s.mem a b := he ▸ h.header hb
    have ⟨ho, hn⟩ := fits_iff hd (h.size b hb.mem).right |>.mp hf
    exact ⟨b, hb.mem, Option.isNone_iff_eq_none.mp ho, hn⟩
  · intro ⟨b, hm, ho, hn⟩
    have ⟨i, hb⟩ := exists_at_of_mem hm
    refine ⟨_, h.isHeader_iff.mpr ⟨i, b, hb, rfl⟩, ?_⟩
    have ho : b.owner.isNone := Option.isNone_iff_eq_none.mpr ho
    exact fits_iff (h.header hb) (h.size b hm).right |>.mpr ⟨ho, hn⟩

end Tiles

end Heap
