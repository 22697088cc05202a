import Navilnux.Message.Objects

namespace Message

def Holds (t m : Word) : List Event → Prop
  | []      => False
  | e :: es =>
    if e.task = t ∧ e.call = .mutexWait m ∧ e.reply.ret = 0 then True
    else if e.task = t ∧ e.call = .mutexRelease m ∧ e.reply.ret = 0 then False
    else Holds t m es

namespace Objects

variable {o : Objects} {t u m : Word} {c : Call} {es : List Event}

theorem owner_exec (hw : c ≠ .mutexWait m) (hr : c ≠ .mutexRelease m) :
    (o.exec u c).2.owner m = o.owner m := by
  cases c
  case mutexWait m' | mutexRelease m' =>
    have hm : m ≠ m' := by simp_all [eq_comm]
    simp only [exec]
    repeat' split
    all_goals simp [Function.update_of_ne hm]
  all_goals
    simp only [exec]
    repeat' split
    all_goals rfl

theorem holds_iff_owner (r : Run Step init es o) (hm : m ≤ mutexEnd - mutexStart) :
    Holds t m es ↔ o.owner m = some t := by
  induction r
  case init => simp [Holds, init]
  case step o _ _ _ e ih =>
    obtain ⟨u, c⟩ := e
    by_cases hw : c = .mutexWait m
    case pos =>
      subst hw
      cases ho : o.owner m
      case none   => simp [Holds, exec, hm, ho, ih]
      case some v => simp [Holds, exec, hm, ho, ih]
    case neg =>
      by_cases hr : c = .mutexRelease m
      case pos =>
        subst hr
        by_cases ho : o.owner m = some u
        case pos => simp [Holds, exec, hm, ho, ih]
        case neg => simp [Holds, exec, hm, ho, ih]
      case neg => simp [Holds, hw, hr, ih, owner_exec hw hr]

end Objects

structure MutualExclusion (es : List Event) (p : NavilMsgMng) : Prop where
  unique  : ∀ {m t u}, m ≤ mutexEnd - mutexStart → Holds t m es → Holds u m es → t = u
  wait    : ∀ {m t}, m ≤ mutexEnd - mutexStart → t ≠ 0 →
    ((Call.mutexWait m).exec t p).1.ret = 0 ∧ (∀ u, ¬Holds u m es) ∨
    ((Call.mutexWait m).exec t p).1.ret = -2 ∧ (∃ u, Holds u m es)
  release : ∀ {m t}, m ≤ mutexEnd - mutexStart → t ≠ 0 → ¬Holds t m es →
    ((Call.mutexRelease m).exec t p).1.ret = -2
  failed  : ∀ {c : Call} {t}, (c.exec t p).1.ret.slt 0 → (c.exec t p).2 = p
  slot    : ∀ {m}, m ≤ mutexEnd - mutexStart →
    p (m + mutexStart) = ⟨0, 0⟩ ∧ (∀ u, ¬Holds u m es) ∨
    (∃ u, u ≠ 0 ∧ Holds u m es ∧ p (m + mutexStart) = ⟨u, 1⟩)

theorem mutual_exclusion {p₀ p : NavilMsgMng} {es : List Event}
    (r : Run TaskStep (msgInit p₀) es p) : MutualExclusion es p := by
  have ⟨o, ro, h⟩ := refines.run .init r
  rw [List.map_id] at ro
  exact {
    unique hm ht hu := by
      have ht := (Objects.holds_iff_owner ro hm).mp ht
      have hu := (Objects.holds_iff_owner ro hm).mp hu
      exact Option.some.inj <| ht.symm.trans hu
    wait {m t} hm ht := by
      rw [(h.exec (c := .mutexWait m) ht trivial).left]
      simp only [Objects.holds_iff_owner ro hm, Objects.exec, if_pos hm]
      cases o.owner m <;> simp
    release {m t} hm ht hn := by
      rw [(h.exec (c := .mutexRelease m) ht trivial).left]
      rw [Objects.holds_iff_owner ro hm] at hn
      simp [Objects.exec, hm, hn]
    failed := Call.exec_of_neg
    slot {m} hm := by
      simp only [Objects.holds_iff_owner ro hm, h.owner hm]
      cases ho : o.owner m
      case none   => simp [ofOwner]
      case some u =>
        have hu : u ≠ 0 := fun hu => h.tasks (hu ▸ ho)
        exact .inr ⟨u, hu, rfl, rfl⟩
  }

theorem mutual_exclusion_compete :
    MutualExclusion
      [⟨2, .mutexWait 3, { ret := -2 }⟩, ⟨1, .mutexWait 3, { ret := 0 }⟩]
      ((Call.mutexWait 3).exec 2 ((Call.mutexWait 3).exec 1 (msgInit fun _ => ⟨0, 0⟩)).2).2 := by
  refine @mutual_exclusion (fun _ => ⟨0, 0⟩) _ _ ?_
  refine .step (.step .init ⟨.intro _ _, ?_⟩) ⟨.intro _ _, ?_⟩
  all_goals exact ⟨by decide, trivial⟩

end Message
