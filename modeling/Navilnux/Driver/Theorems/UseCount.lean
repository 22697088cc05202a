import Navilnux.Base.Run
import Navilnux.Driver.Theorems.Slot

namespace Driver

namespace Event

def opened (d : Word) (e : Event) : Nat :=
  match e.call, e.outcome with
  | .sysOpen n _, .call .. => if n = d ∧ 0 ≤ e.ret.toInt then 1 else 0
  | _, _                   => 0

def closed (d : Word) (e : Event) : Nat :=
  match e.call, e.outcome with
  | .sysClose n, .call .. => if n = d then 1 else 0
  | _, _                  => 0

end Event

def opens (d : Word) (es : List Event) : Nat :=
  (es.map <| Event.opened d).sum

def closes (d : Word) (es : List Event) : Nat :=
  (es.map <| Event.closed d).sum

def registered (C : Code) (d name ops : Word) (p₀ : NavilDrvMng) : NavilDrvMng :=
  (drvRegisterDrv d name ops <| drvInit C p₀).2

structure UseCountExact (d ops : Word) (es : List Event) (p₁ : NavilDrvMng) (e : Event)
    (p₂ : NavilDrvMng) : Prop where
  count      : (p₂ d).usecount.toInt = opens d (e :: es) - closes d (e :: es)
  nonneg     : 0 ≤ (p₂ d).usecount.toInt
  surplus    : e.call = .sysClose d → opens d es = closes d es → e.outcome = .ret (-1) ∧ p₂ = p₁
  refused    : ∀ {mode}, e.call = .sysOpen d mode → e.ret.toInt < 0 →
    (p₂ d).usecount = (p₁ d).usecount
  registered : ∀ name f, drvRegisterDrv d name f p₂ = (-1, p₂)
  accepted   : ∀ mode, (sysOpen d mode p₂).1 = .call ops (.openDrv d mode)

-- The driver accepts the open, there are less than `2 ^ 31 - 1` users, and only users close the driver.
def Balanced (d : Word) (es : List Event) (e : Event) : Prop :=
  match e.call with
  | .sysOpen n _ => n = d → 0 ≤ e.ret.toInt ∧ opens d es < closes d es + (2 ^ 31 - 1)
  | .sysClose n  => n = d → closes d es < opens d es
  | _            => True

instance {d : Word} {es : List Event} {e : Event} : Decidable (Balanced d es e) := by
  unfold Balanced
  split <;> infer_instance

structure UseCount (d ops : Word) (es : List Event) (p : NavilDrvMng) : Prop where
  fops     : (p d).navilFops = ops
  count    : (p d).usecount.toInt = opens d es - closes d es
  balanced : closes d es ≤ opens d es

variable {C : Code} {d ops name : Word} {p p₀ p₁ p₂ : NavilDrvMng} {e : Event} {es : List Event}
  {c : Call} {r : Word}

theorem opens_cons : opens d (e :: es) = e.opened d + opens d es := rfl

theorem closes_cons : closes d (e :: es) = e.closed d + closes d es := rfl

theorem Event.opened_eq_zero {o : Outcome} (h : ∀ mode, c ≠ .sysOpen d mode) :
    opened d ⟨c, o, r⟩ = 0 := by
  cases c
  case sysOpen n mode =>
    cases o
    case ret  => rfl
    case call => exact if_neg fun hn => h mode (by rw [hn.left])
  all_goals rfl

theorem Event.closed_eq_zero {o : Outcome} (h : c ≠ .sysClose d) : closed d ⟨c, o, r⟩ = 0 := by
  cases c
  case sysClose n =>
    cases o
    case ret  => rfl
    case call => exact if_neg fun hn => h (by rw [hn])
  all_goals rfl

namespace UseCount

theorem init (hd : d < drvLimit) : UseCount d ops [] (registered C d name ops p₀) := by
  have hd' : ¬(drvLimit.slt d ∨ d.slt 0) := drv_rejects_iff.not.mpr <| not_not_intro (by bv_omega)
  have hr : registered C d name ops p₀ d =
      { navilFops := ops, usecount := 0, drvname := name } := by
    rw [registered, drvRegisterDrv, if_neg hd', drvInit_of_lt hd, if_neg (by decide)]
    exact Function.update_self ..
  constructor
  case fops     => rw [hr]
  case count    => rw [hr]; rfl
  case balanced => exact Nat.le_refl 0

theorem slt (h : UseCount d ops es p) : (p d).usecount.slt 0 = false := by
  have ⟨_, hc, hb⟩ := h
  rw [slt_zero, decide_eq_false_iff_not]
  omega

theorem sle (h : UseCount d ops es p) : (0 : Word).sle (p d).usecount := by
  have ⟨_, hc, hb⟩ := h
  rw [zero_sle, decide_eq_true_eq]
  omega

theorem exec_open (h : UseCount d ops es p) (hd : d < drvLimit) (mode : Word) :
    (Call.sysOpen d mode).exec p =
      (.call ops (.openDrv d mode), p.setUsecount d ((p d).usecount + 1)) := by
  rw [Call.exec_of_le (c := .sysOpen d mode) <| BitVec.le_of_lt hd]
  simp only [Call.drvnum, Call.access, h.slt, Bool.false_eq_true, if_false, h.fops,
    NavilDrvMng.setUsecount]

theorem exec_close (h : UseCount d ops es p) (hd : d < drvLimit) :
    (Call.sysClose d).exec p =
      (.call ops (.closeDrv d), p.setUsecount d ((p d).usecount - 1)) := by
  rw [Call.exec_of_le (c := .sysClose d) <| BitVec.le_of_lt hd]
  simp only [Call.drvnum, Call.access, h.slt, Bool.false_eq_true, if_false, h.fops,
    NavilDrvMng.setUsecount]

theorem registerDrv (h : UseCount d ops es p) (name f : Word) :
    drvRegisterDrv d name f p = (-1, p) := by
  simp only [drvRegisterDrv, h.sle, if_true, ite_self]

theorem exec_other (h : UseCount d ops es p) (ho : ∀ mode, c ≠ .sysOpen d mode)
    (hc : c ≠ .sysClose d) : (c.exec p).2 d = p d := by
  by_cases hd : d = c.drvnum
  case neg => exact Call.exec_frame hd
  case pos =>
    cases c
    case registerDrv n name f =>
      obtain rfl : d = n := hd
      simp only [Call.exec, h.registerDrv]
    case sysOpen n mode =>
      obtain rfl : d = n := hd
      exact absurd rfl <| ho mode
    case sysClose n =>
      obtain rfl : d = n := hd
      exact absurd rfl hc
    case sysRead n buf size =>
      simp only [Call.exec, sysRead]
      split <;> [rfl; split <;> rfl]
    case sysWrite n buf size =>
      simp only [Call.exec, sysWrite]
      split <;> [rfl; split <;> rfl]

theorem setUsecount_self {u : Word} : p.setUsecount d u d = { p d with usecount := u } :=
  Function.update_self ..

theorem step (h : UseCount d ops es p₁) (hd : d < drvLimit) (st : Step p₁ e p₂)
    (hb : Balanced d es e) : UseCount d ops (e :: es) p₂ := by
  have ⟨hf, hc, hle⟩ := h
  obtain ⟨c, r⟩ := st
  by_cases ho : ∃ mode, c = .sysOpen d mode
  case pos =>
    obtain ⟨mode, rfl⟩ := ho
    simp only [h.exec_open hd] at *
    have ⟨hr, hl⟩ := hb rfl
    have h₁ : Event.opened d ⟨.sysOpen d mode, .call ops (.openDrv d mode), r⟩ = 1 := if_pos ⟨rfl, hr⟩
    have h₂ : Event.closed d ⟨.sysOpen d mode, .call ops (.openDrv d mode), r⟩ = 0 := rfl
    constructor
    case fops     => rwa [setUsecount_self]
    case count    => rw [setUsecount_self, toInt_add_one (by omega), opens_cons, closes_cons]; omega
    case balanced => rw [opens_cons, closes_cons]; omega
  case neg =>
    replace ho := not_exists.mp ho
    by_cases hcl : c = .sysClose d
    case pos =>
      subst hcl
      simp only [h.exec_close hd] at *
      have hl := hb rfl
      have h₁ : Event.opened d ⟨.sysClose d, .call ops (.closeDrv d), r⟩ = 0 := rfl
      have h₂ : Event.closed d ⟨.sysClose d, .call ops (.closeDrv d), r⟩ = 1 := if_pos rfl
      constructor
      case fops     => rwa [setUsecount_self]
      case count    => rw [setUsecount_self, toInt_sub_one (by omega), opens_cons, closes_cons]; omega
      case balanced => rw [opens_cons, closes_cons]; omega
    case neg =>
      have he := h.exec_other ho hcl
      constructor
      case fops     => rwa [he]
      case count    => rwa [he, opens_cons, closes_cons, Event.opened_eq_zero ho,
        Event.closed_eq_zero hcl, Nat.zero_add, Nat.zero_add]
      case balanced => rwa [opens_cons, closes_cons, Event.opened_eq_zero ho,
        Event.closed_eq_zero hcl, Nat.zero_add, Nat.zero_add]

theorem exact_of_balanced (h : UseCount d ops es p₁) (hd : d < drvLimit) (st : Step p₁ e p₂)
    (hb : Balanced d es e) : UseCountExact d ops es p₁ e p₂ := by
  have h' := h.step hd st hb
  have ⟨_, hc, hle⟩ := h'
  constructor
  case count      => exact hc
  case nonneg     => omega
  case registered => exact h'.registerDrv
  case accepted   => exact fun mode => congrArg Prod.fst <| h'.exec_open hd mode
  case surplus    =>
    intro he hs
    rw [Balanced, he] at hb
    have := hb rfl
    omega
  case refused =>
    intro mode he hr
    rw [Balanced, he] at hb
    have := hb rfl
    omega

theorem balanced_of_exact (h : UseCount d ops es p₁) (hd : d < drvLimit) (st : Step p₁ e p₂)
    (hx : UseCountExact d ops es p₁ e p₂) : Balanced d es e := by
  have ⟨_, hc, hle⟩ := h
  obtain ⟨c, r, -⟩ := st
  cases c
  case sysOpen n mode =>
    rintro rfl
    have hn : (((Call.sysOpen n mode).exec p₁).2 n).usecount = (p₁ n).usecount + 1 := by
      rw [h.exec_open hd]
      exact congrArg _ setUsecount_self
    have hr : 0 ≤ r.toInt := by
      by_contra hr
      have := hx.refused rfl (Int.not_le.mp hr)
      rw [hn] at this
      bv_omega
    have h₁ : Event.opened n ⟨.sysOpen n mode, ((Call.sysOpen n mode).exec p₁).1, r⟩ = 1 := by
      rw [h.exec_open hd]
      exact if_pos ⟨rfl, hr⟩
    have h₂ : Event.closed n ⟨.sysOpen n mode, ((Call.sysOpen n mode).exec p₁).1, r⟩ = 0 := rfl
    have hx := hx.count
    rw [hn, opens_cons, closes_cons, h₁, h₂] at hx
    have := BitVec.toInt_lt (x := (p₁ n).usecount + 1)
    exact ⟨hr, by omega⟩
  case sysClose n =>
    rintro rfl
    by_contra hl
    have := hx.surplus rfl (by omega)
    rw [h.exec_close hd] at this
    exact nomatch this.left
  all_goals trivial

end UseCount

-- The use counts of `d` are exact as long as its driver accepts all opens, and is not closed more often
-- than it was opened.
theorem use_count_iff (hd : d < drvLimit) (r : Run Step (registered C d name ops p₀) es p) :
    Run.Always Step (registered C d name ops p₀) (UseCountExact d ops) es p ↔
      Run.Heeds (Balanced d) es :=
  r.always_iff_heeds (I := UseCount d ops) (.init hd) (fun h st => h.step hd st)
    fun h st => ⟨h.balanced_of_exact hd st, h.exact_of_balanced hd st⟩

theorem use_count_shared : ∃ p,
    Run.Always Step (registered navilnuxElf 5 0 0xa000df14 fun _ => ⟨0, 0, 0⟩) (UseCountExact 5 0xa000df14)
    [⟨.sysClose 5, .call 0xa000df14 (.closeDrv 5), -1⟩,
      ⟨.sysOpen 5 2, .call 0xa000df14 (.openDrv 5 2), 0⟩,
      ⟨.sysOpen 5 0, .call 0xa000df14 (.openDrv 5 0), 3⟩] p := by
  have r : Run Step (registered navilnuxElf 5 0 0xa000df14 fun _ => ⟨0, 0, 0⟩) _ _ := Run.init
    |>.step (.intro (.sysOpen 5 0) 3 nofun)
    |>.step (.intro (.sysOpen 5 2) 0 nofun)
    |>.step (.intro (.sysClose 5) (-1) nofun)
  exact ⟨_, use_count_iff (by decide) r |>.mpr <| by decide⟩

theorem use_count_surplus_close : ∃ p,
    Run Step (registered navilnuxElf 5 0 0xa000df14 fun _ => ⟨0, 0, 0⟩)
      [⟨.sysClose 5, .call 0xa000df14 (.closeDrv 5), 0⟩] p ∧
    (p 5).usecount = -1 ∧
    (sysOpen 5 0 p).1 = .ret (-1) ∧
    (drvRegisterDrv 5 0 0x1000 p).1 = 0 ∧
    ¬Run.Always Step (registered navilnuxElf 5 0 0xa000df14 fun _ => ⟨0, 0, 0⟩)
      (UseCountExact 5 0xa000df14) [⟨.sysClose 5, .call 0xa000df14 (.closeDrv 5), 0⟩] p := by
  have st : Step (registered navilnuxElf 5 0 0xa000df14 fun _ => ⟨0, 0, 0⟩)
      ⟨.sysClose 5, .call 0xa000df14 (.closeDrv 5), 0⟩ _ :=
    .intro (.sysClose 5) 0 nofun
  refine ⟨_, .single st, by decide, by decide, by decide, fun h => ?_⟩
  have := h [] _ _ _ _ rfl .init st .init |>.nonneg
  exact absurd this (by decide)

end Driver
