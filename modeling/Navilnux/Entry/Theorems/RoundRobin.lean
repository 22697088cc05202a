import Navilnux.Base.RoundRobin
import Navilnux.Entry.Boot

namespace Entry

open Arm Task Image

variable {L : Image} {fs : List Word} {s₀ s : Cpu} {es : List (Event Word)} {n : Nat}

structure StrictRoundRobin (L : Image) (n : Nat) (es : List (Event Word)) (s : Cpu) : Prop where
  nth    : ∀ {k x}, (selections es)[k]? = some x → x = BitVec.ofNat 32 (k % n)
  latest : ∀ {k}, (selections es).length = k + 1 →
    L.view s.mem .index = BitVec.ofNat 32 (k % n) ∧
    L.view s.mem .current = L.freeTaskPool (BitVec.ofNat 32 (k % n)) ∧
    L.view s.mem .next = L.freeTaskPool (BitVec.ofNat 32 (k % n))
  -- Between two selections of a task, all other tasks are selected once.
  fair   : ∀ {i j : Nat} {x}, i < j → (selections es)[i]? = some x → (selections es)[j]? = some x →
    (∀ k, i < k → k < j → (selections es)[k]? ≠ some x) →
    ∀ t < n, BitVec.ofNat 32 t ≠ x →
    ∃! k, i < k ∧ k < j ∧ (selections es)[k]? = some (BitVec.ofNat 32 t)

theorem ofNat_mod_inj {i j : Nat} (hn : 0 < n) (hl : n ≤ maxTaskNum)
    (h : BitVec.ofNat 32 (i % n) = BitVec.ofNat 32 (j % n)) : i % n = j % n := by
  have hi := Nat.mod_lt i hn
  have hj := Nat.mod_lt j hn
  have hm : n < 2 ^ 32 := Nat.lt_of_le_of_lt hl (by decide)
  have h := congrArg BitVec.toNat h
  rwa [BitVec.toNat_ofNat, BitVec.toNat_ofNat, Nat.mod_eq_of_lt (Nat.lt_trans hi hm),
    Nat.mod_eq_of_lt (Nat.lt_trans hj hm)] at h

theorem exists_unique_selection {xs : List Word} {i j : Nat} {x : Word} (hn : 0 < n)
    (hl : n ≤ maxTaskNum) (h : ∀ {k x}, xs[k]? = some x → x = BitVec.ofNat 32 (k % n)) (hij : i < j)
    (hi : xs[i]? = some x) (hj : xs[j]? = some x)
    (hne : ∀ k, i < k → k < j → xs[k]? ≠ some x) {t : Nat} (ht : t < n) (htx : BitVec.ofNat 32 t ≠ x) :
    ∃! k, i < k ∧ k < j ∧ xs[k]? = some (BitVec.ofNat 32 t) := by
  have hjl := (List.getElem?_eq_some_iff.mp hj).1
  have hget {k : Nat} (hk : k < j) : xs[k]? = some (BitVec.ofNat 32 (k % n)) := by
    have hk := List.getElem?_eq_getElem (Nat.lt_trans hk hjl)
    exact h hk ▸ hk
  have hx := h hi
  subst hx
  have htm := Nat.mod_eq_of_lt ht
  have ⟨k, ⟨hik, hkj, hk⟩, hu⟩ := RoundRobin.exists_unique_turn hij
    (ofNat_mod_inj hn hl (h hj)).symm
    (fun k hik hkj he => hne k hik hkj <| he ▸ hget hkj) ht (fun he => htx <| he ▸ rfl)
  refine ⟨k, ⟨hik, hkj, hk ▸ hget hkj⟩, fun l ⟨hil, hlj, hl'⟩ => hu l ⟨hil, hlj, ?_⟩⟩
  have he := h hl'
  rw [← htm] at he ⊢
  exact (ofNat_mod_inj hn hl he).symm

-- The scheduler selects one task after the other, whatever the tasks do.
theorem strict_round_robin (hf : fs ≠ []) (hl : fs.length ≤ maxTaskNum) (hb : Booted L fs s₀)
    (r : Run (KernelStep L) s₀ es s) : StrictRoundRobin L fs.length es s := by
  have hn := List.length_pos_iff.mpr hf
  have ⟨m, rm, hm⟩ := hb.run hf hl r
  have hs := Machine.selected rm rfl
  constructor
  case nth => exact hs.nth
  case latest =>
    intro k hk
    have hk : m.switches = k + 1 := hs.length.symm.trans hk
    have ⟨_, hi, hc, hx⟩ := hm.scheduled
    rw [hk] at hi hc hx
    exact ⟨hi, hc, hx⟩
  case fair =>
    intro i j x hij hi hj hne t ht htx
    exact exists_unique_selection hn hl hs.nth hij hi hj hne ht htx

theorem strict_round_robin_two_tasks : ∃ es s,
    Run (KernelStep navilnuxElf) (bootCpu navilnuxElf [userTask1, userTask1]) es s ∧
    (selections es).length = 3 ∧ StrictRoundRobin navilnuxElf 2 es s := by
  have hf : [userTask1, userTask1] ≠ [] := List.cons_ne_nil _ _
  have hl : [userTask1, userTask1].length ≤ maxTaskNum := by decide
  have hb : Booted navilnuxElf [userTask1, userTask1] (bootCpu navilnuxElf [userTask1, userTask1]) :=
    .bootCpu
  have ht : Timer 0x08000000 := by decide
  have ⟨_, _, st₁⟩ := hb.exists_irq hf hl .init ht
  have r₁ := Run.single st₁
  have ⟨_, _, st₂⟩ := hb.exists_irq hf hl r₁ ht
  have r₂ := r₁.step st₂
  have ⟨_, _, st₃⟩ := hb.exists_irq hf hl r₂ ht
  have r₃ := r₂.step st₃
  exact ⟨_, _, r₃, rfl, strict_round_robin hf hl hb r₃⟩

end Entry
