import Navilnux.Base.Memory

-- A `Layout` places objects made of whole words into memory, the way a linker does it: every object
-- is word aligned, fits into the address space and overlaps no other object.
structure Layout (ι : Type) (words : ι → Nat) where
  base     : ι → Nat
  aligned  : ∀ o, 4 ∣ base o
  bounded  : ∀ o, base o + 4 * words o ≤ 2 ^ 32
  disjoint : ∀ o₁ o₂, o₁ ≠ o₂ →
    base o₁ + 4 * words o₁ ≤ base o₂ ∨ base o₂ + 4 * words o₂ ≤ base o₁

namespace Layout

variable {ι : Type} {words : ι → Nat} (L : Layout ι words) {o o₁ o₂ : ι} {i i₁ i₂ : Nat}

def addr (o : ι) (i : Nat) : Word :=
  BitVec.ofNat 32 (L.base o + 4 * i)

def comap {κ : Type} {words' : κ → Nat} (f : κ → ι) (hf : Function.Injective f)
    (hw : ∀ k, words' k = words (f k)) : Layout κ words' where
  base k    := L.base (f k)
  aligned _ := L.aligned _
  bounded k := hw k ▸ L.bounded (f k)
  disjoint k₁ k₂ h := by
    rw [hw k₁, hw k₂]
    exact L.disjoint _ _ (hf.ne h)

variable {L}

theorem addr_toNat (h : i < words o) : (L.addr o i).toNat = L.base o + 4 * i := by
  have := L.bounded o
  simp only [addr, BitVec.toNat_ofNat]
  exact Nat.mod_eq_of_lt (by omega)

theorem addr_aligned (h : i < words o) : 4 ∣ (L.addr o i).toNat := by
  have := L.aligned o
  rw [addr_toNat h]
  omega

theorem addr_add (o : ι) (i k : Nat) : L.addr o i + BitVec.ofNat 32 (4 * k) = L.addr o (i + k) := by
  simp only [addr, ← BitVec.ofNat_add]
  congr 1
  omega

theorem addr_inj (h₁ : i₁ < words o₁) (h₂ : i₂ < words o₂) (h : L.addr o₁ i₁ = L.addr o₂ i₂) :
    o₁ = o₂ ∧ i₁ = i₂ := by
  have h := congrArg BitVec.toNat h
  rw [addr_toNat h₁, addr_toNat h₂] at h
  by_cases ho : o₁ = o₂
  case pos =>
    subst ho
    exact ⟨rfl, by omega⟩
  case neg =>
    rcases L.disjoint o₁ o₂ ho with hd | hd <;> omega

theorem apart (h₁ : i₁ < words o₁) (h₂ : i₂ < words o₂) (h : (o₁, i₁) ≠ (o₂, i₂)) :
    Memory.Apart (L.addr o₁ i₁) (L.addr o₂ i₂) := by
  refine .of_aligned (addr_aligned h₁) (addr_aligned h₂) ?_
  intro ha
  have ⟨ho, hi⟩ := addr_inj h₁ h₂ ha
  exact h <| by rw [ho, hi]

end Layout
