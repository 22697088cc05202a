import Navilnux.Clib.Basic
import Navilnux.Message.Theorems.Mailbox

namespace Clib

open Message

def Rejected (n : Word) : Prop :=
  maxMsg.sle n ∨ n.slt 0

structure Distinct (n : Word) (s : State) (r : Reply) (t : State) : Prop where
  error    : (Blocking.navilnuxItcGet n).result r = some (-1) ↔ Rejected n
  rejected : Rejected n → t.msgmng = s.msgmng
  retry    : (Blocking.navilnuxItcGet n).result r = none → t.msgmng = s.msgmng
  -- The message was in the channel before, and is not any more.
  consumed : ∀ {v}, toMail (s.msgmng n) = some v → toMail (t.msgmng n) = none →
    (Blocking.navilnuxItcGet n).result r = some v ∧ v ≠ -1

def Receives (s : State) (e : Event) (t : State) : Prop :=
  ∀ {n me}, e = .poll (.navilnuxItcGet n) me → Distinct n s me.reply t

def NotMinusOne (s : State) (e : Event) : Prop :=
  ∀ {n me}, e = .poll (.navilnuxItcGet n) me → Rejected n ∨ toMail (s.msgmng n) ≠ some (-1)

variable {s t s₀ : State} {e : Event} {es : List Event} {n u : Word} {p : NavilMsgMng}

theorem itcGet_exec_of_rejected (h : Rejected n) : (Call.itcGet n).exec u p = ({ ret := -1 }, p) :=
  Call.exec_of_slot_none <| if_neg <| itc_rejects_iff.mp h

theorem distinct_iff (hp : t.msgmng = ((Call.itcGet n).exec u s.msgmng).2) :
    Distinct n s ((Call.itcGet n).exec u s.msgmng).1 t ↔
      Rejected n ∨ toMail (s.msgmng n) ≠ some (-1) := by
  by_cases hn : Rejected n
  case pos =>
    rw [itcGet_exec_of_rejected hn] at *
    refine iff_of_true ?_ (.inl hn)
    constructor
    case error    => exact iff_of_true rfl hn
    case rejected => exact fun _ => hp
    case retry    => exact fun _ => hp
    case consumed => exact fun hv ht => nomatch (hp ▸ ht).symm.trans hv
  case neg =>
    have hl : n < maxMsg := Decidable.not_not.mp <| itc_rejects_iff.not.mp hn
    rw [Call.itcGet_exec_of_lt hl] at *
    rw [or_iff_right hn]
    cases hm : toMail (s.msgmng n)
    case none =>
      rw [hm] at hp
      have hr : (Blocking.navilnuxItcGet n).result { ret := -2 } = none := rfl
      refine iff_of_true ?_ (Option.some_ne_none _).symm
      constructor
      case error    => exact iff_of_false (fun h => nomatch hr.symm.trans h) hn
      case rejected => exact fun h => absurd h hn
      case retry    => exact fun _ => hp
      case consumed => exact fun hv => nomatch hm.symm.trans hv
    case some d =>
      rw [hm] at hp
      have hr : (Blocking.navilnuxItcGet n).result { ret := 0, data := some d } = some d := rfl
      have ht : toMail (t.msgmng n) = none := by rw [hp]; exact toMail_update
      constructor
      case mp  => exact fun h he => (h.consumed hm ht).right <| Option.some.inj he
      case mpr =>
        intro hd
        constructor
        case error    => exact iff_of_false (hr ▸ hd) hn
        case rejected => exact fun h => absurd h hn
        case retry    => exact fun h => nomatch hr.symm.trans h
        case consumed =>
          intro v hv _
          obtain rfl : d = v := Option.some.inj <| hm.symm.trans hv
          exact ⟨hr, fun he => hd <| he ▸ rfl⟩

theorem receives_iff (st : Step s e t) : Receives s e t ↔ NotMinusOne s e := by
  cases st
  case poll u b hu =>
    cases b
    case navilnuxItcGet n =>
      constructor
      · rintro h _ _ ⟨⟩
        exact distinct_iff (u := u) rfl |>.mp <| h rfl
      · rintro h _ _ ⟨⟩
        exact distinct_iff (u := u) rfl |>.mpr <| h rfl
    all_goals exact iff_of_true nofun nofun
  all_goals exact iff_of_true nofun nofun

-- `navilnux_itc_get` keeps messages apart from errors as long as no task receives the message -1.
theorem receives_always_iff : Run.Always Step s₀ (fun _ => Receives) es s ↔
    Run.Always Step s₀ (fun _ s e _ => NotMinusOne s e) es s :=
  Run.always_iff_always (I := fun _ _ => True) trivial (fun _ _ _ => trivial) fun _ st => receives_iff st

-- The task 2 receives the message -1 from the task 1, and gets the result of an error. The message is lost.
theorem minus_one_lost : ∃ s, Run Step ⟨msgInit fun _ => ⟨0, 0⟩, fun _ => .user⟩
      [.poll (.navilnuxItcGet 0) ⟨2, .itcGet 0, { ret := 0, data := some (-1) }⟩,
        .enter 2 (.navilnuxItcGet 0), .call ⟨1, .itcSend 0 (-1), { ret := 0 }⟩] s ∧
    (Blocking.navilnuxItcGet 0).result { ret := 0, data := some (-1) } = some (-1) ∧
    (Blocking.navilnuxItcGet 255).result { ret := -1 } = some (-1) ∧
    (s.msgmng 0).flag = 0 ∧
    ¬Run.Always Step ⟨msgInit fun _ => ⟨0, 0⟩, fun _ => .user⟩ (fun _ => Receives)
      [.poll (.navilnuxItcGet 0) ⟨2, .itcGet 0, { ret := 0, data := some (-1) }⟩,
        .enter 2 (.navilnuxItcGet 0), .call ⟨1, .itcSend 0 (-1), { ret := 0 }⟩] s := by
  have r : Run Step ⟨msgInit fun _ => ⟨0, 0⟩, fun _ => .user⟩ _ _ := Run.init
    |>.step (.call 1 (.itcSend 0 (-1)) rfl) |>.step (.enter 2 (.navilnuxItcGet 0) rfl)
  refine ⟨_, r.step (.poll 2 (.navilnuxItcGet 0) rfl), rfl, rfl, by decide, fun h => ?_⟩
  have hc := h [] _ _ _ _ rfl r (.poll 2 (.navilnuxItcGet 0) rfl) .init rfl |>.error.mp rfl
  exact absurd hc (by unfold Rejected; decide)

end Clib
