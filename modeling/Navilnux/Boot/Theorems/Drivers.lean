import Navilnux.Base.Run
import Navilnux.Boot.Basic
import Navilnux.Driver.Theorems.Slot

-- The drivers after `navilnux_init`.
namespace Boot

open Entry Heap Task Driver

def Registered (n : Word) (es : List Driver.Event) : Prop :=
  ∃ name f r, (⟨.registerDrv n name f, .ret 0, r⟩ : Driver.Event) ∈ es

structure Refuses (es : List Driver.Event) (p₁ : NavilDrvMng) (e : Driver.Event) (p₂ : NavilDrvMng) :
    Prop where
  system   : (∀ {n name f}, e.call ≠ .registerDrv n name f) → ¬Registered e.call.drvnum es →
    e.outcome = .ret (-1)
  register : ∀ {n name f}, e.call = .registerDrv n name f → n < drvLimit → ¬Registered n es →
    e.outcome = .ret 0
  reject   : ∀ {n name f}, e.call = .registerDrv n name f → ¬(n < drvLimit ∧ ¬Registered n es) →
    e.outcome = .ret (-1) ∧ ∀ {i}, ¬(i < drvLimit) → p₂ i = p₁ i

-- The number of the call is out of the range that is checked, or it is the one that is behind the table and
-- the call is a registration.
def OutOfRange (e : Driver.Event) : Prop :=
  match e.call with
  | .registerDrv n _ _ => ¬(n < drvLimit)
  | c                  => ¬(c.drvnum ≤ drvLimit)

instance decidableOutOfRange : DecidablePred OutOfRange
  | ⟨.registerDrv _ _ _, _, _⟩ => inferInstanceAs <| Decidable (¬_)
  | ⟨.sysOpen _ _, _, _⟩ | ⟨.sysClose _, _, _⟩ | ⟨.sysRead _ _ _, _, _⟩ | ⟨.sysWrite _ _ _, _, _⟩ =>
    inferInstanceAs <| Decidable (¬_)

structure Uninitialized (es : List Driver.Event) (p : NavilDrvMng) : Prop where
  usecount     : ∀ {i}, i ≤ drvLimit → (p i).usecount = 0
  unregistered : ∀ {n}, ¬Registered n es

variable {L : Image} {F : Syscall → Word} {p p₁ p₂ : NavilDrvMng} {e : Driver.Event}
variable {es : List Driver.Event} {c : Call} {n r : Word}

theorem Uninitialized.init : Uninitialized [] (navilnuxInit L F .zeroed).drvmng where
  usecount _              := rfl
  unregistered := fun ⟨_, _, _, h⟩ => nomatch h

namespace Uninitialized

theorem exec_register {name f : Word} (h : Uninitialized es p) (hn : n ≤ drvLimit) :
    (Call.registerDrv n name f).exec p = (.ret (-1), p) := by
  rw [Call.exec_of_le (c := .registerDrv n name f) hn]
  have hu : (0 : Word).sle (p n).usecount := by rw [h.usecount hn]; decide
  simp only [Call.drvnum, Call.access, hu, if_true, Function.update_eq_self]

theorem exec_system (h : Uninitialized es p) (hc : ∀ {n name f}, c ≠ .registerDrv n name f)
    (hn : c.drvnum ≤ drvLimit) : (c.exec p).1 ≠ .ret (-1) := by
  have hu : (p c.drvnum).usecount.slt 0 = false := by rw [h.usecount hn]; decide
  rw [Call.exec_of_le hn]
  cases c
  case registerDrv => exact absurd rfl hc
  all_goals
    simp only [Call.drvnum] at hu
    simp only [Call.access, Call.drvnum, hu, Bool.false_eq_true, if_false, ne_eq, reduceCtorEq,
      not_false_eq_true]

theorem exec_of_outOfRange {o : Outcome} (h : Uninitialized es p) (hc : OutOfRange ⟨c, o, r⟩) :
    c.exec p = (.ret (-1), p) := by
  by_cases hn : c.drvnum ≤ drvLimit
  case neg => exact Call.exec_of_not_le hn
  case pos =>
    cases c
    case registerDrv => exact h.exec_register hn
    all_goals exact absurd hn hc

theorem step (h : Uninitialized es p₁) (st : Driver.Step p₁ e p₂) (hc : OutOfRange e) :
    Uninitialized (e :: es) p₂ := by
  obtain ⟨c, r⟩ := st
  have he := h.exec_of_outOfRange hc
  rw [he]
  constructor
  case usecount     => exact h.usecount
  case unregistered =>
    intro n ⟨name, f, x, hm⟩
    rcases List.mem_cons.mp hm with hm | hm
    · nomatch hm
    · exact h.unregistered ⟨name, f, x, hm⟩

theorem refuses_iff (h : Uninitialized es p₁) (st : Driver.Step p₁ e p₂) :
    Refuses es p₁ e p₂ ↔ OutOfRange e := by
  obtain ⟨c, r⟩ := st
  constructor
  case mp =>
    intro hr
    by_cases hc : ∃ n name f, c = .registerDrv n name f
    case pos =>
      obtain ⟨n, name, f, rfl⟩ := hc
      intro hn
      have ho := hr.register rfl hn h.unregistered
      rw [h.exec_register (BitVec.le_of_lt hn)] at ho
      exact absurd (Outcome.ret.inj ho) (by decide)
    case neg =>
      have hc {n name f} : c ≠ .registerDrv n name f := fun he => hc ⟨n, name, f, he⟩
      have hn : ¬(c.drvnum ≤ drvLimit) :=
        fun hn => h.exec_system hc hn <| hr.system hc h.unregistered
      cases c
      case registerDrv => exact absurd rfl hc
      all_goals exact hn
  case mpr =>
    intro hc
    have he := h.exec_of_outOfRange hc
    constructor
    case system   => exact fun _ _ => congrArg Prod.fst he
    case reject   => exact fun _ _ => ⟨congrArg Prod.fst he, fun _ => by rw [he]⟩
    case register =>
      rintro n name f rfl hn
      exact absurd hn hc

end Uninitialized

-- From boot on, no driver can be registered, and only numbers out of the range are refused.
theorem refuses_from_boot_iff (r : Run Driver.Step (navilnuxInit L F .zeroed).drvmng es p) :
    Run.Always Driver.Step (navilnuxInit L F .zeroed).drvmng Refuses es p ↔ ∀ e ∈ es, OutOfRange e :=
  r.always_iff_heeds (I := Uninitialized) .init (fun h st => h.step st) (fun h st => h.refuses_iff st)
    |>.trans Run.heeds_iff_forall

theorem refuses_from_boot_range : ∃ p,
    Run.Always Driver.Step (navilnuxInit navilnuxElf (fun _ => 0xa000a0d8) .zeroed).drvmng Refuses
      [⟨.registerDrv 100 1 2, .ret (-1), -1⟩, ⟨.sysOpen (-1) 0, .ret (-1), -1⟩] p := by
  have r : Run Driver.Step (navilnuxInit navilnuxElf (fun _ => 0xa000a0d8) .zeroed).drvmng _ _ := Run.init
    |>.step (.intro (.sysOpen (-1) 0) (-1) fun _ h => Outcome.ret.inj h)
    |>.step (.intro (.registerDrv 100 1 2) (-1) fun _ h => Outcome.ret.inj h)
  exact ⟨_, refuses_from_boot_iff r |>.mpr <| by decide⟩

-- The driver 5 cannot be registered, but it can be opened, through the null pointer `navil_fops`.
theorem open_from_boot : ∃ p,
    (drvRegisterDrv 5 1 2 (navilnuxInit navilnuxElf (fun _ => 0xa000a0d8) .zeroed).drvmng).1 = -1 ∧
    Run Driver.Step (navilnuxInit navilnuxElf (fun _ => 0xa000a0d8) .zeroed).drvmng
      [⟨.sysOpen 5 0, .call 0 (.openDrv 5 0), 0⟩] p ∧
    ¬Run.Always Driver.Step (navilnuxInit navilnuxElf (fun _ => 0xa000a0d8) .zeroed).drvmng Refuses
      [⟨.sysOpen 5 0, .call 0 (.openDrv 5 0), 0⟩] p := by
  have st : Driver.Step (navilnuxInit navilnuxElf (fun _ => 0xa000a0d8) .zeroed).drvmng
      ⟨.sysOpen 5 0, .call 0 (.openDrv 5 0), 0⟩ _ :=
    .intro (.sysOpen 5 0) 0 nofun
  refine ⟨_, by decide, .single st, fun h => ?_⟩
  have hr := h [] _ _ _ _ rfl .init st .init |>.system nofun fun ⟨_, _, _, hm⟩ => nomatch hm
  exact nomatch hr

end Boot
