import Navilnux.Lib1funcs.Theorems.Remainder
import Navilnux.Service.Theorems.Refines

namespace Lib1funcs

open Arm Entry Task Task.Image

variable {L : Task.Image} {fuel n k : Nat} {m : Memory} {x y : Word}

def scheduler (L : Task.Image) (fuel : Nat) (m : Memory) : Option Memory := do
  let m := m.setWord L.navilnuxCurrentIndex (m.word L.navilnuxCurrentIndex + 1)
  let index ← modsi3 fuel (m.word L.navilnuxCurrentIndex) (m.word L.maxTaskId + 1)
  let m := m.setWord L.navilnuxCurrentIndex index
  let m := m.setWord L.navilnuxNext (L.freeTaskPool (m.word L.navilnuxCurrentIndex))
  some <| m.setWord L.navilnuxCurrent (m.word L.navilnuxNext)

theorem spoiled_large : ∀ p ∈ spoiled, 0x28000000 ≤ p.1 := by
  have h : spoiled.all fun p => 0x28000000 ≤ p.1 := by decide +kernel
  exact fun p hp => of_decide_eq_true <| List.all_eq_true.mp h p hp

theorem modsi3_small (hx : x < 0x28000000) (hy : y ≠ 0) (hf : 32 < fuel) :
    modsi3 fuel x y = some (x.srem y) := by
  have hm : x.msb = false := by
    rw [BitVec.msb_eq_decide]
    exact decide_eq_false <| by bv_omega
  have he : rsbmi x x = x := by rw [rsbmi_eq, hm]; rfl
  have hs : (rsbmi x x, rsbmi y y) ∉ spoiled := by
    intro h
    have hl : 0x28000000 ≤ rsbmi x x := spoiled_large _ h
    rw [he] at hl
    bv_omega
  have ⟨r, hr, hi⟩ := exists_modsi3 (x := x) hy hf
  rw [hr, hi.mpr hs]

theorem indexAfter_add_one_lt (hn : 0 < n) (hl : n ≤ maxTaskNum) : indexAfter n k + 1 < 0x28000000 := by
  cases k
  case zero   => exact (by decide : (-1 : Word) + 1 < 0x28000000)
  case succ k =>
    have hk := Nat.mod_lt k hn
    have hl : n ≤ 40 := hl
    rw [indexAfter]
    bv_omega

theorem scheduler_eq (hi : L.view m .index = indexAfter n k)
    (hm : L.view m .maxTaskId + 1 = BitVec.ofNat 32 n) (hn : 0 < n) (hl : n ≤ maxTaskNum)
    (hf : 32 < fuel) : scheduler L fuel m = some (Task.scheduler L m) := by
  have hz : BitVec.ofNat 32 n ≠ 0 := by
    have hl : n ≤ 40 := hl
    bv_omega
  have hi : m.word L.navilnuxCurrentIndex = indexAfter n k := hi
  have hm : m.word L.maxTaskId + 1 = BitVec.ofNat 32 n := hm
  have ha : (m.setWord L.navilnuxCurrentIndex (indexAfter n k + 1)).word L.maxTaskId =
      m.word L.maxTaskId :=
    Memory.word_setWord_of_apart <| at_apart (v := .index) (w := .maxTaskId) nofun
  have hr := modsi3_small (indexAfter_add_one_lt (k := k) hn hl) hz hf
  rw [scheduler, Task.scheduler]
  simp only [hi, Memory.word_setWord, ha, hm, hr]
  rfl

-- Whenever the kernel calls the scheduler, `__modsi3` returns, and the scheduler is the one of the model.
theorem scheduler_compiled {L : Service.Image} {F : Syscall → Word} {fs : List Word} {s₀ s : Cpu}
    {es : List Service.Event} (hb : Service.Booted L F fs s₀) (hF : Function.Injective F) (hf : fs ≠ [])
    (hl : fs.length ≤ maxTaskNum) (r : Run (Service.Step L F) s₀ es s) (hfuel : 32 < fuel)
    (hi : L.kernel.view m .index = L.kernel.view s.mem .index)
    (hm : L.kernel.view m .maxTaskId = L.kernel.view s.mem .maxTaskId) :
    scheduler L.kernel fuel m = some (Task.scheduler L.kernel m) := by
  have ⟨a, _, ha⟩ := hb.run hF hf hl r
  have hs := ha.tasks.scheduled
  exact scheduler_eq (hi.trans hs.index) (hm ▸ hs.maxTaskId) (List.length_pos_iff.mpr hf) hl hfuel

theorem scheduler_compiled_competition : ∃ s, Run (Service.Step Service.navilnuxElf Service.sysAddress)
      Service.twoTasks Service.competition s ∧
    scheduler Service.navilnuxElf.kernel 33 s.mem =
      some (Task.scheduler Service.navilnuxElf.kernel s.mem) := by
  have ⟨s, r⟩ := Service.competition_run
  exact ⟨s, r, scheduler_compiled Service.booted_twoTasks Service.sysAddress_injective
    (List.cons_ne_nil _ _) (by decide) r (by decide) rfl rfl⟩

end Lib1funcs
