import Navilnux.Base.Permits
import Navilnux.Message.Objects

namespace Message

def permit (k : Word) (e : Event) : Option (Permit Word) :=
  if e.call = .semP k ∧ e.reply.ret = 0 then some (.take e.task)
  else if e.call = .semV k then some (.give e.task)
  else none

def permits (k : Word) (es : List Event) : List (Permit Word) :=
  es.filterMap (permit k)

-- The calls after the semaphore `k` was initialized: it is not initialized again.
structure KeepsInit (k : Word) (e : Event) : Prop where
  itc     : e.call.ItcInRange
  semInit : ∀ v, e.call ≠ .semInit k v

namespace Call

variable {t k s : Word} {p : NavilMsgMng} {c : Call}

theorem semP_slot (hk : k ≤ semEnd - semStart) : (semP k).slot = some (k + semStart) :=
  if_pos hk

theorem semV_slot (hk : k ≤ semEnd - semStart) : (semV k).slot = some (k + semStart) :=
  if_pos hk

theorem eq_sem_of_slot (hc : c.ItcInRange) (hk : k ≤ semEnd - semStart)
    (h : c.slot = some (k + semStart)) : c = semP k ∨ c = semV k ∨ (∃ v, c = semInit k v) := by
  cases c
  all_goals
    simp only [slot, Option.ite_none_right_eq_some, Option.some.injEq] at h
    obtain ⟨hn, h⟩ := h
  case itcSend | itcGet =>
    exact absurd h <| Represents.mail_ne_count (ItcInRange.le_itcEnd hc) hk
  case mutexWait | mutexRelease =>
    exact absurd h.symm <| Represents.count_ne_owner hk hn
  all_goals
    have h := (BitVec.add_left_inj _).mp h
    simp [h]

theorem semP_exec_of_pos (hk : k ≤ semEnd - semStart) (h : 0 < (p (k + semStart)).flag.toInt) :
    (semP k).exec t p =
      ({ ret := 0 }, p.setFlag (k + semStart) ((p (k + semStart)).flag - 1)) := by
  have h : ¬(p (k + semStart)).flag.toInt ≤ (0 : Word).toInt := Int.not_le.mpr h
  rw [exec_of_slot_some (semP_slot hk)]
  simp only [access, BitVec.sle_eq_decide, decide_eq_true_eq, if_neg h, NavilMsgMng.setFlag]

theorem semP_exec_of_not_pos (hk : k ≤ semEnd - semStart)
    (h : ¬0 < (p (k + semStart)).flag.toInt) : (semP k).exec t p = ({ ret := -2 }, p) := by
  have h : (p (k + semStart)).flag.toInt ≤ (0 : Word).toInt := Int.not_lt.mp h
  rw [exec_of_slot_some (semP_slot hk)]
  simp only [access, BitVec.sle_eq_decide, decide_eq_true_eq, if_pos h, Function.update_eq_self]

theorem semV_exec (hk : k ≤ semEnd - semStart) : (semV k).exec t p =
    ({ ret := 0 }, p.setFlag (k + semStart) ((p (k + semStart)).flag + 1)) :=
  exec_of_slot_some (semV_slot hk)

end Call

theorem msgSemInit_flag {k s : Word} {p : NavilMsgMng} (hk : k ≤ semEnd - semStart) :
    ((msgSemInit k s p).2 (k + semStart)).flag = s := by
  simp only [msgSemInit, sem_rejects_iff, if_neg (not_not_intro hk)]
  simp [NavilMsgMng.setFlag]

variable {k : Word} {s : Int} {p p₀ : NavilMsgMng} (es : List Event)

structure Counts (k : Word) (s : Int) (es : List Event) (p : NavilMsgMng) : Prop where
  count  : (p (k + semStart)).flag.toInt =
    s + Permit.given (permits k es) - Permit.taken (permits k es)
  nonneg : 0 ≤ (p (k + semStart)).flag.toInt

theorem permits_take {e : Event} (hc : e.call = .semP k) (hr : e.reply.ret = 0) :
    permits k (e :: es) = .take e.task :: permits k es := by
  simp only [permits, List.filterMap_cons, permit, hc, hr, and_self, if_true]

theorem permits_give {e : Event} (hc : e.call = .semV k) :
    permits k (e :: es) = .give e.task :: permits k es := by
  simp [permits, permit, hc]

theorem permits_refused {e : Event} (hc : e.call = .semP k) (hr : e.reply.ret = -2) :
    permits k (e :: es) = permits k es := by
  simp [permits, permit, hc, hr]

theorem permits_other {e : Event} (hP : e.call ≠ .semP k) (hV : e.call ≠ .semV k) :
    permits k (e :: es) = permits k es := by
  simp [permits, permit, hP, hV]

variable {es}

theorem setFlag_flag {i f : Word} : (p.setFlag i f i).flag = f := by
  simp [NavilMsgMng.setFlag]

theorem Counts.step {e : Event} {p₁ p₂ : NavilMsgMng} (h : Counts k s es p₁)
    (hk : k ≤ semEnd - semStart) (hs : s + Permit.given (permits k (e :: es)) < 2 ^ 31)
    (hi : KeepsInit k e) (st : Step p₁ e p₂) : Counts k s (e :: es) p₂ := by
  have ⟨hc, hn⟩ := h
  obtain ⟨t, c⟩ := st
  by_cases hsl : c.slot = some (k + semStart)
  case neg =>
    have hP : c ≠ .semP k := fun h => hsl (h ▸ Call.semP_slot hk)
    have hV : c ≠ .semV k := fun h => hsl (h ▸ Call.semV_slot hk)
    have hp := permits_other es (e := ⟨t, c, (c.exec t p₁).1⟩) hP hV
    exact ⟨by rw [Call.exec_frame hsl, hp, hc], by rwa [Call.exec_frame hsl]⟩
  case pos =>
    rcases Call.eq_sem_of_slot hi.itc hk hsl with rfl | rfl | ⟨v, rfl⟩
    case inl =>
      by_cases hpos : 0 < (p₁ (k + semStart)).flag.toInt
      case pos =>
        rw [Call.semP_exec_of_pos hk hpos]
        have hp := permits_take es (e := ⟨t, .semP k, { ret := 0 }⟩) rfl rfl
        constructor
        case count  =>
          rw [hp, setFlag_flag, toInt_sub_one (by omega), hc, Permit.taken, Permit.given]
          omega
        case nonneg => rw [setFlag_flag, toInt_sub_one (by omega)]; omega
      case neg =>
        rw [Call.semP_exec_of_not_pos hk hpos]
        have hp := permits_refused es (e := ⟨t, .semP k, { ret := -2 }⟩) rfl rfl
        exact ⟨hp ▸ hc, hn⟩
    case inr.inl =>
      rw [permits_give es rfl, Permit.given] at hs
      have hf : (p₁ (k + semStart)).flag.toInt + 1 < 2 ^ 31 := by omega
      rw [Call.semV_exec hk]
      have hp := permits_give es (e := ⟨t, .semV k, { ret := 0 }⟩) rfl
      constructor
      case count  => rw [hp, setFlag_flag, toInt_add_one hf, hc, Permit.taken, Permit.given]; omega
      case nonneg => rw [setFlag_flag, toInt_add_one hf]; omega
    case inr.inr => exact absurd rfl (hi.semInit v)

theorem given_permits_le (es : List Event) {e : Event} :
    Permit.given (permits k es) ≤ Permit.given (permits k (e :: es)) := by
  simp only [permits, permit, List.filterMap_cons]
  split_ifs <;> simp [Permit.given]

def SemStep (k : Word) (p₁ : NavilMsgMng) (e : Event) (p₂ : NavilMsgMng) : Prop :=
  Step p₁ e p₂ ∧ KeepsInit k e

theorem Counts.run (h : Counts k s [] p₀) (hk : k ≤ semEnd - semStart)
    (hs : s + Permit.given (permits k es) < 2 ^ 31) (r : Run (SemStep k) p₀ es p) :
    Counts k s es p := by
  induction r
  case init => exact h
  case step es _ e _ _ st ih =>
    have := given_permits_le es (k := k) (e := e)
    exact (ih (by omega)).step hk hs st.right st.left

end Message
