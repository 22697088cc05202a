import Navilnux.Base.Run
import Navilnux.Chap16.Driver

namespace Chap16

open Driver (drvLimit NavilFreeDrv NavilDrvMng Call Outcome FopsCall Event drv_rejects_iff)

def stored (i : Word) (e : Event) : Option Word :=
  match e.call, e.outcome with
  | .registerDrv n _ f, .ret r => if n = i ∧ r = 0 then some f else none
  | _, _                       => none

-- The functions of the latest successful registration of the driver `i`. The kernel registers `mydrv`.
def latest (C : DrvCode) (i : Word) : List Event → Option Word
  | []      => if i = mydrv then some C.mydrvFops else none
  | e :: es => (stored i e).or (latest C i es)

-- What a call should do. The slot that a call reaches determines its outcome, and no other slot changes.
-- A number below `drvLimit` is not negative as an `int`.
structure Dispatches (C : DrvCode) (es : List Event) (p₁ : NavilDrvMng) (e : Event)
    (p₂ : NavilDrvMng) : Prop where
  confined : (e.outcome = .ret (-1) ∧ p₂ = p₁) ∨ (e.call.drvnum < drvLimit ∧
    ∀ p, p e.call.drvnum = p₁ e.call.drvnum →
      drvExec p e.call = (e.outcome, Function.update p e.call.drvnum (p₂ e.call.drvnum)))
  fops     : ∀ {f k}, e.outcome = .call f k → latest C e.call.drvnum es = some f ∧ f ≠ 0
  never    : ∀ {i}, i < drvLimit → latest C i (e :: es) = none → (p₂ i).usecount = -1

-- The calls for a driver with the registration `l` that do not go through a null pointer. Close, read and
-- write need a registration.
def Allowed (l : Option Word) : Call → Prop
  | .registerDrv ..                        => True
  | .sysOpen ..                            => l ≠ some 0
  | .sysClose _ | .sysRead .. | .sysWrite .. => l ≠ none ∧ l ≠ some 0

instance {l : Option Word} : DecidablePred (Allowed l)
  | .registerDrv ..                        => inferInstanceAs <| Decidable True
  | .sysOpen ..                            => inferInstanceAs <| Decidable (_ ≠ _)
  | .sysClose _ | .sysRead .. | .sysWrite .. => inferInstanceAs <| Decidable (_ ∧ _)

def opensDrv : Call → Bool
  | .sysOpen .. => true
  | _           => false

def Proper (C : DrvCode) (es : List Event) (e : Event) : Prop :=
  (e.call.drvnum = drvLimit → opensDrv e.call) ∧
  (e.call.drvnum < drvLimit → Allowed (latest C e.call.drvnum es) e.call)

instance {C : DrvCode} {es : List Event} {e : Event} : Decidable (Proper C es e) :=
  inferInstanceAs <| Decidable (_ ∧ _)

def Holds (s : NavilFreeDrv) : Option Word → Prop
  | none   => s.usecount = -1
  | some f => s.navilFops = f ∧ (f = 0 → s.usecount = 0)

structure Registered (C : DrvCode) (es : List Event) (p : NavilDrvMng) : Prop where
  holds  : ∀ {i}, i < drvLimit → Holds (p i) (latest C i es)
  -- The address of `drv_register_drv` is a negative number.
  behind : (p drvLimit).usecount.slt 0

variable {C : DrvCode} {p p₀ p₁ p₂ : NavilDrvMng} {s : NavilFreeDrv} {e : Event} {es : List Event}
variable {c : Call} {i n r f : Word} {k : FopsCall} {l : Option Word}

theorem stored_of_ne {o : Outcome} (h : i ≠ c.drvnum) : stored i ⟨c, o, r⟩ = none := by
  cases c
  case registerDrv n name f =>
    cases o
    case ret  => exact if_neg fun hn => h hn.left.symm
    case call => rfl
  all_goals rfl

theorem stored_refused : stored i ⟨c, .ret (-1), r⟩ = none := by
  cases c
  case registerDrv => exact if_neg fun h => absurd h.right (by decide)
  all_goals rfl

theorem latest_cons_of_stored (h : stored i e = none) : latest C i (e :: es) = latest C i es := by
  rw [latest, h, Option.none_or]

theorem fops_of_call (h : (drvAccess s c).1 = .call f k) : f = s.navilFops := by
  cases c
  case registerDrv =>
    simp only [drvAccess, Call.access] at h
    split at h <;> cases h
  case sysOpen     =>
    simp only [drvAccess, Call.access] at h
    split at h
    · cases h
    · exact (Outcome.call.inj h).left.symm
  all_goals exact (Outcome.call.inj h).left.symm

namespace Holds

theorem slt (h : Holds s none) : s.usecount.slt 0 := by
  rw [show s.usecount = -1 from h]
  rfl

theorem access (h : Holds s l) (ha : Allowed l c) :
    Holds (drvAccess s c).2 ((stored c.drvnum ⟨c, (drvAccess s c).1, r⟩).or l) := by
  cases c
  case registerDrv n name f =>
    simp only [drvAccess, Call.access]
    by_cases hu : (0 : Word).sle s.usecount
    case pos =>
      simp only [hu, if_true]
      rwa [stored_refused, Option.none_or]
    case neg =>
      simp only [hu, Bool.false_eq_true, if_false]
      have hs : stored n ⟨.registerDrv n name f, .ret 0, r⟩ = some f := if_pos ⟨rfl, rfl⟩
      rw [Call.drvnum, hs, Option.some_or]
      exact ⟨rfl, fun _ => rfl⟩
  case sysOpen n mode =>
    simp only [drvAccess, Call.access]
    cases l
    case none   =>
      simp only [h.slt, if_true]
      exact h
    case some f =>
      have hf : f ≠ 0 := fun hf => ha (congrArg _ hf)
      split
      · exact h
      · exact ⟨h.left, (absurd · hf)⟩
  all_goals
    obtain ⟨hn, h0⟩ := ha
    cases l
    case none   => exact absurd rfl hn
    case some f => exact ⟨h.left, fun hf => absurd (congrArg _ hf) h0⟩

theorem registerDrv_ne_call {n m g : Word} : (drvAccess s (.registerDrv n m g)).1 ≠ .call f k := by
  simp only [drvAccess, Call.access]
  split <;> exact Outcome.noConfusion

theorem fops_iff (h : Holds s l) (hc : (drvAccess s c).1 = .call f k) :
    (l = some f ∧ f ≠ 0) ↔ Allowed l c := by
  have hf := fops_of_call hc
  constructor
  case mp =>
    rintro ⟨hl, hf⟩
    have h0 : l ≠ some 0 := fun h => hf <| Option.some.inj <| hl ▸ h
    cases c
    case registerDrv => trivial
    case sysOpen     => exact h0
    all_goals exact ⟨by rw [hl]; exact Option.some_ne_none f, h0⟩
  case mpr =>
    intro ha
    cases l
    case none =>
      cases c
      case registerDrv => exact absurd hc registerDrv_ne_call
      case sysOpen =>
        simp only [drvAccess, Call.access, h.slt, if_true] at hc
        cases hc
      all_goals exact absurd rfl ha.left
    case some g =>
      rw [hf, h.left]
      refine ⟨rfl, ?_⟩
      rintro rfl
      cases c
      case registerDrv => exact absurd hc registerDrv_ne_call
      case sysOpen     => exact ha rfl
      all_goals exact ha.right rfl

theorem allowed_of_ret (h : Holds s l) (hr : (drvAccess s c).1 = .ret r) : Allowed l c := by
  cases c
  case registerDrv => trivial
  case sysOpen     =>
    rintro rfl
    have hu : s.usecount = 0 := h.right rfl
    simp only [drvAccess, Call.access, hu] at hr
    cases hr
  all_goals cases hr

end Holds

namespace Registered

theorem refused (h : Registered C es p) : Registered C (⟨c, .ret (-1), r⟩ :: es) p where
  holds hi := by
    rw [latest_cons_of_stored stored_refused]
    exact h.holds hi
  behind   := h.behind

theorem init : Registered C [] (drvInit C p₀) := by
  have hr : drvInit C p₀ = Function.update (Driver.drvInit C.toCode p₀) mydrv
      { navilFops := C.mydrvFops, usecount := 0, drvname := C.mydrvName } := by
    have hl : ¬(drvLimit.slt mydrv ∨ mydrv.slt 0) := by decide
    rw [drvInit, mydrvInit, Driver.drvRegisterDrv, if_neg hl, Driver.drvInit_of_lt (by decide),
      if_neg (by decide)]
  rw [hr]
  constructor
  case holds =>
    intro i hi
    by_cases hm : i = mydrv
    case pos =>
      rw [hm, Function.update_self, latest, if_pos rfl]
      exact ⟨rfl, fun _ => rfl⟩
    case neg =>
      rw [Function.update_of_ne hm, latest, if_neg hm]
      exact congrArg NavilFreeDrv.usecount <| Driver.drvInit_of_lt hi
  case behind =>
    have hb : (Driver.drvInit C.toCode p₀ drvLimit).usecount = C.drvRegisterDrv := rfl
    have := C.ram
    rw [Function.update_of_ne (by decide), hb, slt_zero, decide_eq_true_eq, BitVec.toInt_eq_toNat_cond]
    bv_omega

theorem open_behind (h : Registered C es p) (mode : Word) :
    drvExec p (.sysOpen drvLimit mode) = (.ret (-1), p) := by
  rw [drvExec_of_le (c := .sysOpen drvLimit mode) <| BitVec.le_refl _]
  simp only [drvAccess, Call.access, Call.drvnum, h.behind, if_true, Function.update_eq_self]

theorem exec_of_not_lt (h : Registered C es p) (hn : ¬(c.drvnum < drvLimit))
    (hp : c.drvnum = drvLimit → opensDrv c) : drvExec p c = (.ret (-1), p) := by
  by_cases hl : c.drvnum = drvLimit
  case neg => exact drvExec_of_not_le (by bv_omega)
  case pos =>
    cases c
    case sysOpen n mode =>
      obtain rfl : n = drvLimit := hl
      exact h.open_behind mode
    all_goals exact nomatch hp hl

theorem step (h : Registered C es p₁) (st : DrvStep p₁ e p₂) (hp : Proper C es e) :
    Registered C (e :: es) p₂ := by
  obtain ⟨c, r, -⟩ := st
  by_cases hn : c.drvnum < drvLimit
  case neg =>
    rw [h.exec_of_not_lt hn hp.left]
    exact h.refused
  case pos =>
    have ha := hp.right hn
    simp only [drvExec_of_le <| BitVec.le_of_lt hn]
    constructor
    case behind =>
      rw [Function.update_of_ne fun hl => by simp [← hl] at hn]
      exact h.behind
    case holds =>
      intro i hi
      by_cases he : i = c.drvnum
      case neg =>
        rw [Function.update_of_ne he, latest_cons_of_stored <| stored_of_ne he]
        exact h.holds hi
      case pos =>
        subst he
        rw [Function.update_self, latest]
        exact h.holds hi |>.access ha

theorem dispatches_of_proper (h : Registered C es p₁) (st : DrvStep p₁ e p₂) (hp : Proper C es e) :
    Dispatches C es p₁ e p₂ := by
  have h' := h.step st hp
  obtain ⟨c, r, -⟩ := st
  constructor
  case never =>
    intro i hi hl
    have := h'.holds hi
    rwa [hl] at this
  case confined =>
    by_cases hn : c.drvnum < drvLimit
    case neg =>
      rw [h.exec_of_not_lt hn hp.left]
      exact .inl ⟨rfl, rfl⟩
    case pos =>
      refine .inr ⟨hn, fun p hs => ?_⟩
      simp only [drvExec_of_le <| BitVec.le_of_lt hn, hs, Function.update_self]
  case fops =>
    intro f k hc
    by_cases hn : c.drvnum < drvLimit
    case neg =>
      rw [h.exec_of_not_lt hn hp.left] at hc
      exact nomatch hc
    case pos =>
      rw [drvExec_of_le <| BitVec.le_of_lt hn] at hc
      exact h.holds hn |>.fops_iff hc |>.mpr <| hp.right hn

theorem proper_of_dispatches (h : Registered C es p₁) (st : DrvStep p₁ e p₂)
    (hd : Dispatches C es p₁ e p₂) : Proper C es e := by
  obtain ⟨c, r, -⟩ := st
  constructor
  case left =>
    intro hn
    have ⟨hr, _⟩ := hd.confined.resolve_right fun hl => absurd (hn ▸ hl.left) (by decide)
    have hl : c.drvnum ≤ drvLimit := BitVec.le_of_eq hn
    replace hr : (drvExec p₁ c).1 = .ret (-1) := hr
    rw [drvExec_of_le hl] at hr
    cases c
    case sysOpen     => rfl
    case registerDrv =>
      obtain rfl : _ = drvLimit := hn
      have hu : ¬((0 : Word).sle (p₁ drvLimit).usecount) := by
        have := h.behind
        rw [slt_zero, decide_eq_true_eq] at this
        rw [zero_sle, decide_eq_true_eq]
        omega
      simp only [drvAccess, Call.access, Call.drvnum, hu, Bool.false_eq_true, if_false] at hr
      exact absurd hr (by decide)
    all_goals cases hr
  case right =>
    intro hn
    have hx := drvExec_of_le (p := p₁) <| BitVec.le_of_lt hn
    cases ho : (drvAccess (p₁ c.drvnum) c).1
    case ret x    => exact h.holds hn |>.allowed_of_ret ho
    case call f k => exact h.holds hn |>.fops_iff ho |>.mp <| hd.fops <| by rw [hx, ho]

end Registered

-- All calls go to registered drivers as long as they are proper.
theorem dispatch_iff (r : Run DrvStep (drvInit C p₀) es p) :
    Run.Always DrvStep (drvInit C p₀) (Dispatches C) es p ↔ Run.Heeds (Proper C) es :=
  r.always_iff_heeds (I := Registered C) .init (fun h st => h.step st)
    fun h st => ⟨h.proper_of_dispatches st, h.dispatches_of_proper st⟩

theorem dispatch_second_driver : ∃ p, Run.Always DrvStep (drvInit drvElf fun _ => ⟨0, 0, 0⟩)
    (Dispatches drvElf)
    [⟨.sysOpen 100 0, .ret (-1), -1⟩, ⟨.sysOpen 8 0, .ret (-1), -1⟩,
      ⟨.sysWrite 7 0xa2f00000 8, .call 0xa000c000 (.writeDrv 7 0xa2f00000 8), 8⟩,
      ⟨.registerDrv 7 0xa000d000 0xa000c000, .ret 0, 0⟩,
      ⟨.sysRead 0 0xa2f00000 4, .call 0xa000df14 (.readDrv 0 0xa2f00000 4), -2⟩] p := by
  have r : Run DrvStep (drvInit drvElf fun _ => ⟨0, 0, 0⟩) _ _ := Run.init
    |>.step (.intro (.sysRead 0 0xa2f00000 4) (-2) nofun)
    |>.step (.intro (.registerDrv 7 0xa000d000 0xa000c000) 0 fun _ => Outcome.ret.inj)
    |>.step (.intro (.sysWrite 7 0xa2f00000 8) 8 nofun)
    |>.step (.intro (.sysOpen 8 0) (-1) fun _ => Outcome.ret.inj)
    |>.step (.intro (.sysOpen 100 0) (-1) fun _ => Outcome.ret.inj)
  exact ⟨_, dispatch_iff r |>.mpr <| by decide⟩

-- A read from a driver that is not registered goes through a null pointer, and a driver with the number
-- `drvLimit` replaces the function pointers behind the table.
theorem dispatch_through_null : ∃ p,
    Run DrvStep (drvInit drvElf fun _ => ⟨0, 0, 0⟩)
      [⟨.sysRead 1 0xa2f00000 4, .call 0 (.readDrv 1 0xa2f00000 4), 0⟩] p ∧
    (drvExec p <| .registerDrv 100 0xa000d000 0xa000c000).1 = .ret 0 ∧
    (drvExec p <| .registerDrv 100 0xa000d000 0xa000c000).2 100 = ⟨0xa000c000, 0, 0xa000d000⟩ ∧
    ¬Run.Always DrvStep (drvInit drvElf fun _ => ⟨0, 0, 0⟩) (Dispatches drvElf)
      [⟨.sysRead 1 0xa2f00000 4, .call 0 (.readDrv 1 0xa2f00000 4), 0⟩] p := by
  have st : DrvStep (drvInit drvElf fun _ => ⟨0, 0, 0⟩)
      ⟨.sysRead 1 0xa2f00000 4, .call 0 (.readDrv 1 0xa2f00000 4), 0⟩ _ :=
    .intro (.sysRead 1 0xa2f00000 4) 0 nofun
  refine ⟨_, .single st, by decide, by decide, fun h => ?_⟩
  have ⟨_, hf⟩ := h [] _ _ _ _ rfl .init st .init |>.fops rfl
  exact absurd rfl hf

end Chap16
