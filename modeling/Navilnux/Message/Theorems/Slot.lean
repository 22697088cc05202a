import Navilnux.Message.Basic

namespace Message

theorem itc_rejects_iff {n : Word} : (maxMsg.sle n ∨ n.slt 0) ↔ ¬(n < maxMsg) := by
  simp only [BitVec.slt_eq_decide, BitVec.sle_eq_decide, decide_eq_true_eq,
    BitVec.toInt_eq_toNat_cond, maxMsg]
  bv_omega

-- The numbers of semaphores and mutexes are checked after the start of the region was added, with a
-- signed addition that may wrap around. The check accepts exactly the numbers up to the length of
-- the region nonetheless.
theorem region_rejects_iff {n lo hi : Word} (h : lo ≤ hi) (hh : hi < 0x80000000) :
    (hi.slt (n + lo) ∨ (n + lo).slt lo) ↔ ¬(n ≤ hi - lo) := by
  simp only [BitVec.slt_eq_decide, decide_eq_true_eq, BitVec.toInt_eq_toNat_cond]
  bv_omega

theorem sem_rejects_iff {n : Word} :
    (semEnd.slt (n + semStart) ∨ (n + semStart).slt semStart) ↔ ¬(n ≤ semEnd - semStart) :=
  region_rejects_iff (by decide) (by decide)

theorem mutex_rejects_iff {n : Word} :
    (mutexEnd.slt (n + mutexStart) ∨ (n + mutexStart).slt mutexStart) ↔
      ¬(n ≤ mutexEnd - mutexStart) :=
  region_rejects_iff (by decide) (by decide)

namespace Call

def slot : Call → Option Word
  | itcSend n _ | itcGet n         => if n < maxMsg then some n else none
  | semInit n _ | semP n | semV n  => if n ≤ semEnd - semStart then some (n + semStart) else none
  | mutexWait n | mutexRelease n   =>
    if n ≤ mutexEnd - mutexStart then some (n + mutexStart) else none

def access (current : Word) (s : NavilFreeMsg) : Call → Reply × NavilFreeMsg
  | itcSend n d    => ({ ret := n }, { data := d, flag := 1 })
  | itcGet _       =>
    if s.flag = 0 then ({ ret := -2 }, s)
    else ({ ret := 0, data := some s.data }, { data := 0, flag := 0 })
  | semInit _ v    => ({ ret := 0 }, { s with flag := v })
  | semP _         =>
    if s.flag.sle 0 then ({ ret := -2 }, s) else ({ ret := 0 }, { s with flag := s.flag - 1 })
  | semV _         => ({ ret := 0 }, { s with flag := s.flag + 1 })
  | mutexWait _    =>
    if s.flag = 0 then ({ ret := 0 }, { data := current, flag := 1 }) else ({ ret := -2 }, s)
  | mutexRelease _ =>
    if s.data = current then ({ ret := 0 }, { data := 0, flag := 0 }) else ({ ret := -2 }, s)

variable {t : Word} {p p₁ p₂ : NavilMsgMng} {c : Call} {i j : Word}

theorem itcGet_slot_self {n : Word} (hn : n ≤ itcEnd) : (itcGet n).slot = some n := by
  refine if_pos ?_
  simp only [itcEnd, maxMsg] at *
  bv_omega

theorem itcSend_slot_self {n d : Word} (hn : n ≤ itcEnd) : (itcSend n d).slot = some n :=
  itcGet_slot_self hn

theorem exec_of_slot_none (h : c.slot = none) : c.exec t p = ({ ret := -1 }, p) := by
  cases c
  all_goals simp only [slot, ite_eq_right_iff, reduceCtorEq, imp_false] at h
  case itcSend      => simp only [exec, msgItcSend, itc_rejects_iff, if_pos h]
  case itcGet       => simp only [exec, msgItcGet, itc_rejects_iff, if_pos h]
  case semInit      => simp only [exec, msgSemInit, sem_rejects_iff, if_pos h]
  case semP         => simp only [exec, msgSemP, sem_rejects_iff, if_pos h]
  case semV         => simp only [exec, msgSemV, sem_rejects_iff, if_pos h]
  case mutexWait    => simp only [exec, msgMutexWait, or_comm, mutex_rejects_iff, if_pos h]
  case mutexRelease => simp only [exec, msgMutexRelease, mutex_rejects_iff, if_pos h]

theorem exec_of_slot_some (h : c.slot = some i) :
    c.exec t p = ((c.access t (p i)).1, Function.update p i (c.access t (p i)).2) := by
  cases c
  all_goals
    simp only [slot, Option.ite_none_right_eq_some, Option.some.injEq] at h
    obtain ⟨h, rfl⟩ := h
    have h := not_not_intro h
  case itcSend      =>
    simp only [exec, access, msgItcSend, itc_rejects_iff, if_neg h]
    simp [NavilMsgMng.setData, NavilMsgMng.setFlag]
  case itcGet       =>
    simp only [exec, access, msgItcGet, itc_rejects_iff, if_neg h]
    split <;> simp [NavilMsgMng.setData, NavilMsgMng.setFlag]
  case semInit      =>
    simp only [exec, access, msgSemInit, sem_rejects_iff, if_neg h, NavilMsgMng.setFlag]
  case semP         =>
    simp only [exec, access, msgSemP, sem_rejects_iff, if_neg h]
    split <;> simp [NavilMsgMng.setFlag]
  case semV         =>
    simp only [exec, access, msgSemV, sem_rejects_iff, if_neg h, NavilMsgMng.setFlag]
  case mutexWait    =>
    simp only [exec, access, msgMutexWait, or_comm, mutex_rejects_iff, if_neg h]
    split <;> simp [NavilMsgMng.setData, NavilMsgMng.setFlag]
  case mutexRelease =>
    simp only [exec, access, msgMutexRelease, mutex_rejects_iff, if_neg h, ne_eq, ite_not]
    split <;> simp [NavilMsgMng.setData, NavilMsgMng.setFlag]

theorem slot_lt_maxMsg (h : c.slot = some i) : i < maxMsg := by
  cases c
  all_goals
    simp only [slot, Option.ite_none_right_eq_some, Option.some.injEq] at h
    obtain ⟨h, rfl⟩ := h
    simp only [maxMsg, semStart, semEnd, mutexStart, mutexEnd] at *
    bv_omega

theorem exec_frame (h : c.slot ≠ some j) : (c.exec t p).2 j = p j := by
  cases hs : c.slot
  case none   => rw [exec_of_slot_none hs]
  case some i =>
    rw [exec_of_slot_some hs]
    have hj : j ≠ i := fun hj => h (hj.symm ▸ hs)
    exact Function.update_of_ne hj ..

theorem exec_of_neg (h : (c.exec t p).1.ret.slt 0) : (c.exec t p).2 = p := by
  cases hs : c.slot
  case none   => rw [exec_of_slot_none hs]
  case some i =>
    have hi := slot_lt_maxMsg hs
    rw [exec_of_slot_some hs] at h ⊢
    suffices (c.access t (p i)).2 = p i by rw [this, Function.update_eq_self]
    cases c
    case itcSend n _ =>
      simp only [slot, Option.ite_none_right_eq_some] at hs
      exact absurd (.inr h) (mt itc_rejects_iff.mp <| not_not_intro hs.left)
    case semInit | semV => exact absurd h Bool.false_ne_true
    all_goals
      simp only [access] at h ⊢
      split
      case isTrue  => first | rfl | simp_all
      case isFalse => first | rfl | simp_all

end Call
end Message
