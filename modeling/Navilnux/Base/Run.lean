import Mathlib.Tactic.Common

-- A run of a labelled transition system. The events of the run are listed from the latest to the
-- first, so that the list is the history seen by the last state.
inductive Run {σ ε : Type} (Step : σ → ε → σ → Prop) (s₀ : σ) : List ε → σ → Prop
  | init : Run Step s₀ [] s₀
  | step : (Run Step s₀ es s₁) → (Step s₁ e s₂) → Run Step s₀ (e :: es) s₂

namespace Run

variable {σ ε : Type} {Step Step' : σ → ε → σ → Prop} {s₀ s₁ s₂ s : σ} {es es₁ es₂ : List ε}

theorem invariant {P : List ε → σ → Prop} (r : Run Step s₀ es s) (hi : P [] s₀)
    (hs : ∀ {es s₁ e s₂}, Run Step s₀ es s₁ → P es s₁ → Step s₁ e s₂ → P (e :: es) s₂) :
    P es s := by
  induction r
  case init        => exact hi
  case step r e ih => exact hs r ih e

theorem single {a : ε} (e : Step s₁ a s₂) : Run Step s₁ [a] s₂ :=
  .step .init e

theorem of_append (r : Run Step s₀ (es₂ ++ es₁) s) :
    ∃ s₁, Run Step s₀ es₁ s₁ ∧ Run Step s₁ es₂ s := by
  induction es₂ generalizing s
  case nil => exact ⟨s, r, .init⟩
  case cons ih =>
    cases r
    case step r e =>
      have ⟨s₁, r₁, r₂⟩ := ih r
      exact ⟨s₁, r₁, r₂.step e⟩

theorem append (r₁ : Run Step s₀ es₁ s₁) (r₂ : Run Step s₁ es₂ s) :
    Run Step s₀ (es₂ ++ es₁) s := by
  induction r₂
  case init        => exact r₁
  case step _ e ih => exact .step ih e

theorem mono (h : ∀ {s₁ e s₂}, Step s₁ e s₂ → Step' s₁ e s₂) (r : Run Step s₀ es s) :
    Run Step' s₀ es s := by
  induction r
  case init        => exact .init
  case step _ e ih => exact .step ih (h e)

theorem restrict {P : ε → Prop} (r : Run Step s₀ es s) (h : ∀ e ∈ es, P e) :
    Run (fun s₁ e s₂ => Step s₁ e s₂ ∧ P e) s₀ es s := by
  induction r
  case init => exact .init
  case step e ih =>
    have ⟨he, h⟩ := List.forall_mem_cons.mp h
    exact .step (ih h) ⟨e, he⟩

-- `P` holds for every step of the runs with the history `es` that end in `s`. It can refer to the history
-- before the step.
def Always (Step : σ → ε → σ → Prop) (s₀ : σ) (P : List ε → σ → ε → σ → Prop) (es : List ε)
    (s : σ) : Prop :=
  ∀ es₂ e es₁ s₁ s₂, es = es₂ ++ e :: es₁ →
    Run Step s₀ es₁ s₁ → Step s₁ e s₂ → Run Step s₂ es₂ s → P es₁ s₁ e s₂

def Heeds (C : List ε → ε → Prop) : List ε → Prop
  | []      => True
  | e :: es => C es e ∧ Heeds C es

instance {C : List ε → ε → Prop} [∀ es e, Decidable (C es e)] : DecidablePred (Heeds C) :=
  go
where
  go : (es : List ε) → Decidable (Heeds C es)
    | []      => .isTrue trivial
    | _ :: es => have := go es; inferInstanceAs <| Decidable (_ ∧ _)

section Always

variable {P Q : List ε → σ → ε → σ → Prop} {C : List ε → ε → Prop} {I : List ε → σ → Prop}

theorem heeds_iff_forall {C : ε → Prop} : Heeds (fun _ e => C e) es ↔ ∀ e ∈ es, C e := by
  induction es
  case nil     => exact iff_of_true trivial <| List.forall_mem_nil _
  case cons ih => rw [Heeds, ih, List.forall_mem_cons]

theorem Heeds.of_append (h : Heeds C (es₂ ++ es₁)) : Heeds C es₁ := by
  induction es₂
  case nil     => exact h
  case cons ih => exact ih h.right

namespace Always

theorem of_run (h : Always Step s₀ P (es₂ ++ es₁) s) (r : Run Step s₁ es₂ s) :
    Always Step s₀ P es₁ s₁ := by
  intro es₂' e es₁' _ _ he r₁ st r₂
  exact h (es₂ ++ es₂') e es₁' _ _ (by rw [he, List.append_assoc]) r₁ st (r₂.append r)

theorem of_step {e : ε} (h : Always Step s₀ P (e :: es) s₂) (st : Step s₁ e s₂) :
    Always Step s₀ P es s₁ :=
  have h : Always Step s₀ P ([e] ++ es) s₂ := h
  h.of_run <| .single st

theorem invariant (h : Always Step s₀ P es s) (r : Run Step s₀ es s) (hi : I [] s₀)
    (hI : ∀ {es s₁ e s₂}, I es s₁ → Step s₁ e s₂ → P es s₁ e s₂ → I (e :: es) s₂) :
    I es s := by
  induction r
  case init          => exact hi
  case step r₁ st ih => exact hI (ih <| h.of_step st) st <| h [] _ _ _ _ rfl r₁ st .init

theorem mono (h : Always Step s₀ P es s) (hi : I [] s₀)
    (hI : ∀ {es s₁ e s₂}, I es s₁ → Step s₁ e s₂ → P es s₁ e s₂ → I (e :: es) s₂)
    (hQ : ∀ {es s₁ e s₂}, I es s₁ → Step s₁ e s₂ → P es s₁ e s₂ → Q es s₁ e s₂) :
    Always Step s₀ Q es s := by
  intro es₂ e es₁ s₁ s₂ he r₁ st r₂
  subst he
  have h' : Always Step s₀ P ((es₂ ++ [e]) ++ es₁) s := by rwa [List.append_assoc]
  have h' := h'.of_run (.append (.single st) r₂)
  exact hQ (h'.invariant r₁ hi hI) st <| h _ _ _ _ _ rfl r₁ st r₂

end Always

-- If `Q` decides about `P` in the states with the invariant, and keeps the invariant, then it decides about
-- `P` in the whole run.
theorem always_iff_always (hi : I [] s₀)
    (hI : ∀ {es s₁ e s₂}, I es s₁ → Step s₁ e s₂ → Q es s₁ e s₂ → I (e :: es) s₂)
    (hP : ∀ {es s₁ e s₂}, I es s₁ → Step s₁ e s₂ → (P es s₁ e s₂ ↔ Q es s₁ e s₂)) :
    Always Step s₀ P es s ↔ Always Step s₀ Q es s := by
  constructor
  case mp =>
    exact fun h => h.mono hi (fun h st hp => hI h st <| hP h st |>.mp hp) fun h st => (hP h st).mp
  case mpr => exact fun h => h.mono hi hI fun h st => (hP h st).mpr

theorem heeds_iff_always (r : Run Step s₀ es s) :
    Heeds C es ↔ Always Step s₀ (fun es _ e _ => C es e) es s := by
  constructor
  case mp =>
    intro h es₂ e es₁ _ _ he _ _ _
    have ⟨hc, _⟩ : Heeds C (e :: es₁) := (he ▸ h).of_append
    exact hc
  case mpr =>
    intro h
    induction r
    case init => trivial
    case step r st ih => exact ⟨h [] _ _ _ _ rfl r st .init, ih <| h.of_step st⟩

theorem always_iff_heeds (r : Run Step s₀ es s) (hi : I [] s₀)
    (hI : ∀ {es s₁ e s₂}, I es s₁ → Step s₁ e s₂ → C es e → I (e :: es) s₂)
    (hP : ∀ {es s₁ e s₂}, I es s₁ → Step s₁ e s₂ → (P es s₁ e s₂ ↔ C es e)) :
    Always Step s₀ P es s ↔ Heeds C es :=
  always_iff_always hi hI hP |>.trans r.heeds_iff_always.symm

end Always

end Run

-- Every step of the first system is matched by a step of the second, and related states stay
-- related. The events of the second system are given by `f`.
structure Simulation {σ ε τ δ : Type} (Step : σ → ε → σ → Prop) (Step' : τ → δ → τ → Prop)
    (f : ε → δ) (R : σ → τ → Prop) : Prop where
  step : ∀ {s₁ e s₂ t₁}, R s₁ t₁ → Step s₁ e s₂ → ∃ t₂, Step' t₁ (f e) t₂ ∧ R s₂ t₂

theorem Simulation.run {σ ε τ δ : Type} {Step : σ → ε → σ → Prop} {Step' : τ → δ → τ → Prop}
    {f : ε → δ} {R : σ → τ → Prop} {s₀ s : σ} {t₀ : τ} {es : List ε}
    (sim : Simulation Step Step' f R) (h : R s₀ t₀) (r : Run Step s₀ es s) :
    ∃ t, Run Step' t₀ (es.map f) t ∧ R s t := by
  induction r
  case init => exact ⟨t₀, .init, h⟩
  case step _ e ih =>
    have ⟨_, r, hr⟩ := ih
    have ⟨t, e, ht⟩ := sim.step hr e
    exact ⟨t, .step r e, ht⟩
