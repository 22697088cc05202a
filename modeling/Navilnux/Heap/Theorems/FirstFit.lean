import Navilnux.Heap.Theorems.Malloc

namespace Heap

open Arena

-- `mem_malloc` on the list of blocks. The lowest free block that is large enough is used, or else a
-- block is added at the end, or else the request is refused.
structure MallocFirstFit (s : State) (bs : Arena Unit) (size p : Word) (t : State) : Prop where
  reuse  : ∀ {i b}, At bs i b → Fits (size.toNat + 8) b →
    (∀ {j c}, At bs j c → Fits (size.toNat + 8) c → i ≤ j) →
    p = s.memmng.pos i + 8 ∧
    t = ⟨DyMemHeader.setUsed s.mem (s.memmng.pos i) 1, s.memmng⟩ ∧
    Tiles t (setOwner i (some ()) bs)
  grow   : (∀ b ∈ bs, ¬Fits (size.toNat + 8) b) →
    s.memmng.usedEnd.toNat + size.toNat + 8 ≤ endUsrStackAddr.toNat →
    p = s.memmng.usedEnd + 8 ∧
    t.memmng = { s.memmng with usedEnd := s.memmng.usedEnd + (size + 8) } ∧
    (∀ x, 8 ≤ x - s.memmng.usedEnd → t.mem x = s.mem x) ∧
    Tiles t (bs ++ [⟨size.toNat + 8, some ()⟩])
  refuse : p = 0 ↔ (∀ b ∈ bs, ¬Fits (size.toNat + 8) b) ∧
    endUsrStackAddr.toNat < s.memmng.usedEnd.toNat + size.toNat + 8

structure FreeFirstFit (s : State) (bs : Arena Unit) (i : Nat) (b : Block Unit) : Prop where
  used : b.owner = some () →
    memFree (s.memmng.pos i + 8) s.mem = (0, DyMemHeader.setUsed s.mem (s.memmng.pos i) 0) ∧
    Tiles ⟨DyMemHeader.setUsed s.mem (s.memmng.pos i) 0, s.memmng⟩ (setOwner i none bs)
  free : b.owner = none → memFree (s.memmng.pos i + 8) s.mem = (-1, s.mem)

structure FirstFit (s : State) (bs : Arena Unit) : Prop where
  malloc : ∀ {size fuel}, size ≤ maxSize → bs.length < fuel →
    ∃ p t, memMalloc fuel size s = some (p, t) ∧ MallocFirstFit s bs size p t
  free   : ∀ {i b}, At bs i b → FreeFirstFit s bs i b

variable {s : State} {bs : Arena Unit} {b : Block Unit} {i fuel : Nat} {size : Word}

namespace Tiles

theorem mallocFirstFit (h : Tiles s bs) (hn : size ≤ maxSize) (hf : bs.length < fuel) :
    ∃ p t, memMalloc fuel size s = some (p, t) ∧ MallocFirstFit s bs size p t := by
  have hs := toNat_le_of_le_maxSize hn
  have he := needed_of_le_maxSize hn
  cases hi : find (size.toNat + 8) bs
  case some i =>
    have ⟨b, hb, hfit⟩ := find_some hi
    refine ⟨_, _, h.memMalloc_reuse hf <| he.symm ▸ hi, ?_⟩
    constructor
    case reuse =>
      intro j c hc hfc hl
      obtain rfl : i = j := Option.some.inj <| hi.symm.trans <| find_of_lowest hc hfc hl
      exact ⟨rfl, rfl, h.setOwner hb rfl⟩
    case grow   => exact fun hn _ => absurd hfit <| hn b hb.mem
    case refuse =>
      have hp := h.pos_add_eight_ne_zero <| Nat.le_of_add_right_le hb.le
      exact ⟨(absurd · hp), fun hn => absurd hfit <| hn.left b hb.mem⟩
  case none =>
    have hn' := find_eq_none_iff.mp hi
    by_cases hl : total bs + (size.toNat + 8) ≤ s.memmng.limit
    case pos =>
      have ht := h.bound_append hl
      refine ⟨_, _, h.memMalloc_grow hn hf (he.symm ▸ hi) hl, ?_⟩
      constructor
      case reuse  => exact fun hb hfb _ => absurd hfb <| hn' _ hb.mem
      case grow   =>
        refine fun _ _ => ⟨by rw [h.usedEnd], ?_, ?_, h.append ⟨by omega, by omega⟩ ht⟩
        · rw [← add_sizeof]; rfl
        · exact fun _ hx => Header.setSize_frame hx |>.trans <| Header.setUsed_frame hx
      case refuse =>
        have hp := h.pos_add_eight_ne_zero <| Nat.le_refl _
        have := h.limit_iff.mp hl
        exact ⟨(absurd · hp), fun hr => absurd hr.right (by omega)⟩
    case neg =>
      refine ⟨_, _, h.memMalloc_refuse hn hf (he.symm ▸ hi) hl, ?_⟩
      have := h.limit_iff.not.mp hl
      constructor
      case reuse  => exact fun hb hfb _ => absurd hfb <| hn' _ hb.mem
      case grow   => exact fun _ hl => absurd hl this
      case refuse => exact ⟨fun _ => ⟨hn', by omega⟩, fun _ => rfl⟩

theorem freeFirstFit (h : Tiles s bs) (hb : At bs i b) : FreeFirstFit s bs i b where
  used ho := ⟨by rw [h.memFree hb, ho]; rfl, h.setOwner hb rfl⟩
  free ho := by rw [h.memFree hb, ho]; rfl

end Tiles

-- The allocator does first fit on the blocks of any heap.
theorem first_fit (h : Tiles s bs) : FirstFit s bs where
  malloc := h.mallocFirstFit
  free   := h.freeFirstFit

theorem first_fit_freed : ∃ s, s.memmng.usedEnd = 0xA2C00C18 ∧
    FirstFit s [⟨3080, none⟩, ⟨16, some ()⟩] := by
  have h₀ : Tiles ⟨fun _ => 255, memInit⟩ ([] : Arena Unit) := .init rfl rfl
  have h₁ := h₀.append (a := ()) (n := 3080) ⟨by decide, by decide⟩ (by decide)
  have h₂ := h₁.append (a := ()) (n := 16) ⟨by decide, by decide⟩ (by decide)
  have h₃ := h₂.setOwner (o := none) (v := 0) .head rfl
  exact ⟨_, by decide, first_fit h₃⟩

end Heap
