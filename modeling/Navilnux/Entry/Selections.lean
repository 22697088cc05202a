import Mathlib.Data.List.Basic
import Navilnux.Entry.Registers

namespace Entry

open Arm Task

variable {ι : Type} {timer : ι → Prop} {n : Nat} {a b : Machine} {e : Event ι} {es : List (Event ι)}
variable {u : Tcb}

namespace Event

def Timed (timer : ι → Prop) : Event ι → Prop
  | irq i _ => timer i
  | _       => True

def selection : Event ι → Option Word
  | compute => none
  | irq _ x => some x
  | yield x => some x

end Event

def selections (es : List (Event ι)) : List Word :=
  es.filterMap Event.selection |>.reverse

theorem selections_cons : selections (e :: es) = selections es ++ e.selection.toList := by
  cases h : e.selection <;> simp [selections, h]

namespace Machine

def TimedStep (n : Nat) (timer : ι → Prop) (a : Machine) (e : Event ι) (b : Machine) : Prop :=
  Step n timer a e b ∧ e.Timed timer

structure Selected (n : Nat) (es : List (Event ι)) (a : Machine) : Prop where
  length : (selections es).length = a.switches
  nth    : ∀ {k x}, (selections es)[k]? = some x → x = indexAfter n (k + 1)

namespace Selected

theorem switch (h : Selected n es a) (hb : b.switches = a.switches + 1)
    (he : e.selection = some (indexAfter n (a.switches + 1))) : Selected n (e :: es) b where
  length      := by rw [selections_cons, he, hb, ← h.length]; exact List.length_append
  nth {k x} hx := by
    rw [selections_cons, he, ← h.length] at hx
    have hk := (List.getElem?_eq_some_iff.mp hx).1
    rw [List.length_append, Option.toList_some, List.length_singleton] at hk
    by_cases hl : k < (selections es).length
    case pos => exact h.nth <| List.getElem?_append_left hl ▸ hx
    case neg =>
      have hk : k = (selections es).length := by omega
      rw [hk, Option.toList_some, List.getElem?_concat_length] at hx
      rw [hk]
      exact (Option.some.inj hx).symm

theorem step (h : Selected n es a) (st : TimedStep n timer a e b) : Selected n (e :: es) b := by
  have ⟨st, ht⟩ := st
  cases st
  case compute =>
    constructor
    case length => simpa [selections_cons, Event.selection] using h.length
    case nth    =>
      intro k x hx
      exact h.nth <| by simpa [selections_cons, Event.selection] using hx
  case tick     => exact h.switch rfl rfl
  case yield    => exact h.switch rfl rfl
  case other hi => exact absurd ht hi

end Selected

theorem selected (r : Run (TimedStep n timer) a es b) (ha : a.switches = 0) : Selected n es b :=
  r.invariant ⟨ha.symm, nofun⟩ fun _ h st => h.step st

theorem control_psr_update {regs : Tcb → Context} {v : Tcb} {c : Context}
    (h : control c.psr = control (regs v).psr) :
    control (Function.update regs v c u).psr = control (regs u).psr := by
  by_cases hu : u = v
  case pos => rw [hu, Function.update_self, h]
  case neg => rw [Function.update_of_ne hu]

theorem Step.control_psr (st : Step n timer a e b) :
    control (b.regs u).psr = control (a.regs u).psr := by
  cases st
  case compute hc => exact control_psr_update hc
  case yield      => exact control_psr_update rfl
  all_goals rfl

theorem control_psr (r : Run (TimedStep n timer) a es b) :
    control (b.regs u).psr = control (a.regs u).psr := by
  induction r
  case init       => rfl
  case step st ih => exact st.left.control_psr.trans ih

end Machine

end Entry
