import Navilnux.Entry.Selections

namespace Entry

open Arm Task Image

variable {ι : Type} {L : Image} {irqHandler : ι → Memory → Memory} {timer : ι → Prop} {n : Nat}
variable {s₀ s t : Cpu} {a b : Machine} {e : Event ι} {es es₁ es₂ : List (Event ι)}

namespace Event

def Returns : Event ι → Prop
  | compute => False
  | _       => True

theorem not_returns_iff : ¬e.Returns ↔ e = .compute := by
  cases e <;> simp [Returns]

end Event

-- The first exception of a run is no interrupt from another source than the timer.
def StartsTimed (timer : ι → Prop) (es : List (Event ι)) : Prop :=
  ∀ es₁ e es₂, es = es₂ ++ e :: es₁ → (∀ e' ∈ es₁, e' = .compute) → e.Timed timer

structure Consistent (L : Image) (s : Cpu) : Prop where
  current : L.view s.mem .current = L.view s.mem .next
  next    : L.view s.mem .next = L.freeTaskPool (L.view s.mem .index)

structure KnowsRunning (L : Image) (irqHandler : ι → Memory → Memory) (timer : ι → Prop) (n : Nat)
    (s₀ : Cpu) (es : List (Event ι)) (s : Cpu) : Prop where
  consistent : ∀ {es₁ e es₂ t}, es = es₂ ++ e :: es₁ → Run (Step L irqHandler) s₀ (e :: es₁) t →
    Run (Step L irqHandler) t es₂ s → e.Returns → Consistent L t
  -- No task gets the registers of another task, or registers that it had before.
  registers  : ∃ a, Run (Machine.Step n timer) (.boot L s₀) es a ∧ Represents L n s a

theorem StartsTimed.of_append (h : StartsTimed timer (es₂ ++ es)) : StartsTimed timer es :=
  fun es₁ e es₃ he => h es₁ e (es₂ ++ es₃) <| by rw [he, List.append_assoc]

theorem startsTimed_singleton_iff : StartsTimed timer [e] ↔ e.Timed timer := by
  constructor
  case mp  => exact fun h => h [] e [] rfl nofun
  case mpr =>
    intro h es₁ e' es₂ he _
    cases es₂
    case nil =>
      rw [(List.cons.inj he).left] at h
      exact h
    case cons =>
      have hl := congrArg List.length (List.cons.inj he).right
      simp at hl

namespace Represents

theorem consistent (h : Represents L n s a) (ha : a.switches ≠ 0) : Consistent L s where
  current := by rw [h.scheduled.current, h.scheduled.next, if_neg ha, if_neg ha]
  next    := by rw [h.scheduled.next, h.scheduled.index, if_neg ha]

-- After an interrupt that comes too early, the first task runs, but `navilnux_current` is `dummyTCB`.
theorem continues_first {i : ι} {x : Word} (h : Represents L n s a) (hn : 0 < n)
    (hl : n ≤ maxTaskNum) (ha : a.switches = 0) (hi : Handles L irqHandler timer) (ht : ¬timer i)
    (st : Step L irqHandler s (.irq i x) t) :
    Runs L t .dummy ∧ t.context = savedContext (L.view t.mem) (.task 0) := by
  cases st
  case irq k hc hk he =>
    subst he
    have hs := h.irq_stored hn hl hi ht hk |>.scheduled
    have hx := hs.next
    rw [if_pos ha] at hx
    have hx := hx.trans <| freeTaskPool_ofNat ⟨0, by decide⟩
    refine ⟨hs.current.trans <| if_pos ha, ?_⟩
    rw [(irq_switched (L := L) (k := k) (f := irqHandler i)).context]
    exact congrArg _ hx |>.trans load_tcb

theorem not_consistent {i : ι} {x : Word} (h : Represents L n s a) (hn : 0 < n)
    (hl : n ≤ maxTaskNum) (ha : a.switches = 0) (hi : Handles L irqHandler timer) (ht : ¬timer i)
    (st : Step L irqHandler s (.irq i x) t) : ¬Consistent L t := by
  cases st
  case irq hc hk he =>
    subst he
    have hs := h.irq_stored hn hl hi ht hk |>.scheduled
    intro hc
    have hd := hc.current
    rw [hs.current, hs.next, if_pos ha, if_pos ha] at hd
    have hp := freeTaskPool_ofNat (L := L) ⟨0, by decide⟩
    exact Tcb.noConfusion (Var.tcb.inj <| at_inj <| hd.trans hp).left

end Represents

theorem Machine.switches_eq (r : Run (Machine.Step n timer) a es b) (h : ∀ e ∈ es, e = .compute) :
    b.switches = a.switches := by
  induction r
  case init => rfl
  case step st ih =>
    have ⟨he, hes⟩ := List.forall_mem_cons.mp h
    subst he
    cases st
    case compute => exact ih hes

theorem StartsTimed.simulated (h : StartsTimed timer es) (hn : 0 < n) (hl : n ≤ maxTaskNum)
    (hi : Handles L irqHandler timer) (h₀ : Represents L n s₀ a)
    (r : Run (Step L irqHandler) s₀ es s) :
    ∃ b, Run (Machine.Step n timer) a es b ∧ Represents L n s b ∧
      (b.switches = 0 → ∀ e ∈ es, e = .compute) := by
  induction r
  case init => exact ⟨a, .init, h₀, fun _ => nofun⟩
  case step es' s₁ e s₂ r st ih =>
    have ⟨b, rb, hb, hc⟩ := ih <| @StartsTimed.of_append _ _ _ [e] h
    have ht : TameStep L irqHandler timer s₁ e s₂ := by
      refine ⟨st, fun i x he => ?_⟩
      by_cases hd : Runs L s₁ .dummy
      case pos =>
        have hz := hb.runs_dummy_iff hn hl |>.mp hd
        have ht := h es' e [] rfl (hc hz)
        rw [he] at ht
        exact .inl ht
      case neg => exact .inr hd
    have ⟨c, sc, hc'⟩ := hb.step hn hl hi ht
    refine ⟨c, rb.step sc, hc', fun hz => ?_⟩
    cases sc
    case compute => exact List.forall_mem_cons.mpr ⟨rfl, hc hz⟩
    case other hx =>
      have hd := hb.runs_dummy_iff hn hl |>.mpr hz
      exact ht.right _ _ rfl |>.elim (absurd · hx) (absurd hd)
    all_goals exact absurd hz (Nat.succ_ne_zero _)

-- The kernel knows which task runs exactly if the first exception of the run is no interrupt from
-- another source than the timer.
theorem knowsRunning_iff (hn : 0 < n) (hl : n ≤ maxTaskNum) (hi : Handles L irqHandler timer)
    (h₀ : Scheduled L n 0 (L.view s₀.mem)) (r : Run (Step L irqHandler) s₀ es s) :
    KnowsRunning L irqHandler timer n s₀ es s ↔ StartsTimed timer es := by
  have hb := Represents.boot h₀
  constructor
  case mp =>
    intro h es₁ e es₂ he hc
    by_contra ht
    cases e
    case irq i x =>
      have ⟨t, r₁, r₂⟩ := Run.of_append (he ▸ r)
      have hcon := h.consistent he r₁ r₂ trivial
      cases r₁
      case step s₁ r₁ st =>
        have hs : StartsTimed timer es₁ := by
          intro es₃ e es₄ he' _
          have he := hc e <| by simp [he']
          rw [he]
          trivial
        have ⟨b, rb, hb', _⟩ := hs.simulated hn hl hi hb r₁
        exact hb'.not_consistent hn hl (Machine.switches_eq rb hc) hi ht st hcon
    all_goals exact ht trivial
  case mpr =>
    intro h
    constructor
    case registers =>
      have ⟨b, rb, hb', _⟩ := h.simulated hn hl hi hb r
      exact ⟨b, rb, hb'⟩
    case consistent =>
      intro es₁ e es₂ t he r₁ _ hr
      have ⟨b, _, hb', hz⟩ := (StartsTimed.of_append (he ▸ h)).simulated hn hl hi hb r₁
      refine hb'.consistent fun hs => ?_
      have hc := hz hs e (List.mem_cons_self ..)
      exact Event.not_returns_iff.mpr hc hr

end Entry
