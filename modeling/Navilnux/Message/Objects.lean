import Navilnux.Message.Theorems.Slot

namespace Message

-- What the message manager is for: mailboxes which hold at most one message, counters, and locks
-- which know their owner. There is no table here, so that the objects can not overlap.
structure Objects where
  mail  : Word → Option Word
  count : Word → Word
  owner : Word → Option Word

namespace Objects

def init : Objects where
  mail _  := none
  count _ := 0
  owner _ := none

def exec (t : Word) (o : Objects) : Call → Reply × Objects
  | .itcSend n d    =>
    if n ≤ itcEnd then ({ ret := n }, { o with mail := Function.update o.mail n (some d) })
    else ({ ret := -1 }, o)
  | .itcGet n       =>
    if n ≤ itcEnd then
      match o.mail n with
      | none   => ({ ret := -2 }, o)
      | some d => ({ ret := 0, data := some d }, { o with mail := Function.update o.mail n none })
    else ({ ret := -1 }, o)
  | .semInit n v    =>
    if n ≤ semEnd - semStart then ({ ret := 0 }, { o with count := Function.update o.count n v })
    else ({ ret := -1 }, o)
  | .semP n         =>
    if n ≤ semEnd - semStart then
      if (o.count n).toInt ≤ (0 : Word).toInt then ({ ret := -2 }, o)
      else ({ ret := 0 }, { o with count := Function.update o.count n (o.count n - 1) })
    else ({ ret := -1 }, o)
  | .semV n         =>
    if n ≤ semEnd - semStart then
      ({ ret := 0 }, { o with count := Function.update o.count n (o.count n + 1) })
    else ({ ret := -1 }, o)
  | .mutexWait m    =>
    if m ≤ mutexEnd - mutexStart then
      match o.owner m with
      | none   => ({ ret := 0 }, { o with owner := Function.update o.owner m (some t) })
      | some _ => ({ ret := -2 }, o)
    else ({ ret := -1 }, o)
  | .mutexRelease m =>
    if m ≤ mutexEnd - mutexStart then
      if o.owner m = some t then ({ ret := 0 }, { o with owner := Function.update o.owner m none })
      else ({ ret := -2 }, o)
    else ({ ret := -1 }, o)

inductive Step : Objects → Event → Objects → Prop
  | intro (t : Word) (c : Call) : Step o ⟨t, c, (o.exec t c).1⟩ (o.exec t c).2

end Objects

def Call.ItcInRange : Call → Prop
  | itcSend n _ | itcGet n => itcStart.sle n ∧ n.sle itcEnd
  | _                      => True

theorem Call.ItcInRange.le_itcEnd {n : Word} (h : itcStart.sle n ∧ n.sle itcEnd) : n ≤ itcEnd := by
  simp only [BitVec.sle_eq_decide, decide_eq_true_eq, BitVec.toInt_eq_toNat_cond, itcStart,
    itcEnd] at *
  bv_omega

structure Admissible (e : Event) : Prop where
  task : e.task ≠ 0
  itc  : e.call.ItcInRange

def TaskStep (p₁ : NavilMsgMng) (e : Event) (p₂ : NavilMsgMng) : Prop :=
  Step p₁ e p₂ ∧ Admissible e

def ofOwner : Option Word → NavilFreeMsg
  | none   => { data := 0, flag := 0 }
  | some t => { data := t, flag := 1 }

def toMail (s : NavilFreeMsg) : Option Word :=
  if s.flag = 0 then none else some s.data

structure Represents (p : NavilMsgMng) (o : Objects) : Prop where
  mail  : ∀ {n}, n ≤ itcEnd → o.mail n = toMail (p n)
  count : ∀ {n}, n ≤ semEnd - semStart → o.count n = (p (n + semStart)).flag
  owner : ∀ {m}, m ≤ mutexEnd - mutexStart → p (m + mutexStart) = ofOwner (o.owner m)
  tasks : ∀ {m}, o.owner m ≠ some 0

namespace Represents

variable {p : NavilMsgMng} {o : Objects} {n k m t v : Word} {w : Option Word} {s : NavilFreeMsg}

theorem init : Represents (msgInit p) .init where
  mail {n} h := by
    have h : n < maxMsg := by simp only [itcEnd, maxMsg] at *; bv_omega
    simp [msgInit, Objects.init, toMail, h]
  count {n} h := by
    have h : n + semStart < maxMsg := by simp only [semStart, semEnd, maxMsg] at *; bv_omega
    simp [msgInit, Objects.init, h]
  owner {m} h := by
    have h : m + mutexStart < maxMsg := by simp only [mutexStart, mutexEnd, maxMsg] at *; bv_omega
    simp [msgInit, Objects.init, ofOwner, h]
  tasks := by simp [Objects.init]

theorem mail_ne_count (hn : n ≤ itcEnd) (hk : k ≤ semEnd - semStart) : n ≠ k + semStart := by
  simp only [itcEnd, semStart, semEnd] at *
  bv_omega

theorem mail_ne_owner (hn : n ≤ itcEnd) (hm : m ≤ mutexEnd - mutexStart) : n ≠ m + mutexStart := by
  simp only [itcEnd, mutexStart, mutexEnd] at *
  bv_omega

theorem count_ne_owner (hk : k ≤ semEnd - semStart) (hm : m ≤ mutexEnd - mutexStart) :
    k + semStart ≠ m + mutexStart := by
  simp only [semStart, semEnd, mutexStart, mutexEnd] at *
  bv_omega

theorem setMail (h : Represents p o) (hn : n ≤ itcEnd) :
    Represents (Function.update p n s) { o with mail := Function.update o.mail n (toMail s) } where
  mail {n'} hn' := by
    by_cases he : n' = n
    case pos => simp [he]
    case neg => simp [he, h.mail hn']
  count hk := by simp [(mail_ne_count hn hk).symm, h.count hk]
  owner hm := by simp [(mail_ne_owner hn hm).symm, h.owner hm]
  tasks    := h.tasks

theorem setCount (h : Represents p o) (hk : k ≤ semEnd - semStart) :
    Represents (Function.update p (k + semStart) { p (k + semStart) with flag := v })
      { o with count := Function.update o.count k v } where
  mail hn := by simp [mail_ne_count hn hk, h.mail hn]
  count {k'} hk' := by
    by_cases he : k' = k
    case pos => simp [he]
    case neg => simp [he, h.count hk']
  owner hm := by simp [(count_ne_owner hk hm).symm, h.owner hm]
  tasks    := h.tasks

theorem setOwner (h : Represents p o) (hm : m ≤ mutexEnd - mutexStart) (hw : w ≠ some 0) :
    Represents (Function.update p (m + mutexStart) (ofOwner w))
      { o with owner := Function.update o.owner m w } where
  mail hn  := by simp [mail_ne_owner hn hm, h.mail hn]
  count hk := by simp [count_ne_owner hk hm, h.count hk]
  owner {m'} hm' := by
    by_cases he : m' = m
    case pos => simp [he]
    case neg => simp [he, h.owner hm']
  tasks {m'} := by
    by_cases he : m' = m
    case pos => simpa only [he, Function.update_self] using hw
    case neg => simpa only [Function.update_of_ne he] using h.tasks

theorem update_owner (h : Represents p o) (hm : m ≤ mutexEnd - mutexStart) :
    Represents (Function.update p (m + mutexStart) (ofOwner (o.owner m))) o := by
  rw [← h.owner hm, Function.update_eq_self]
  exact h

theorem exec {c : Call} (h : Represents p o) (ht : t ≠ 0) (hc : c.ItcInRange) :
    (c.exec t p).1 = (o.exec t c).1 ∧ Represents (c.exec t p).2 (o.exec t c).2 := by
  cases hs : c.slot
  case none =>
    rw [Call.exec_of_slot_none hs]
    cases c
    all_goals simp only [Call.slot, ite_eq_right_iff, reduceCtorEq, imp_false] at hs
    case itcSend | itcGet =>
      have := Call.ItcInRange.le_itcEnd hc
      simp only [maxMsg, itcEnd] at *
      bv_omega
    all_goals simp [Objects.exec, hs, h]
  case some i =>
    rw [Call.exec_of_slot_some hs]
    cases c
    all_goals
      simp only [Call.slot, Option.ite_none_right_eq_some, Option.some.injEq] at hs
      obtain ⟨hs, rfl⟩ := hs
    case itcSend n d =>
      have hn := Call.ItcInRange.le_itcEnd hc
      simpa [Objects.exec, Call.access, hn, toMail] using h.setMail (s := ⟨d, 1⟩) hn
    case itcGet n =>
      have hn := Call.ItcInRange.le_itcEnd hc
      simp only [Objects.exec, Call.access, if_pos hn, h.mail hn, toMail]
      by_cases hf : (p n).flag = 0
      case pos => simpa only [if_pos hf, Function.update_eq_self, true_and] using h
      case neg =>
        have hm : toMail ⟨0, 0⟩ = none := rfl
        simpa only [if_neg hf, true_and, hm] using h.setMail (s := ⟨0, 0⟩) hn
    case semInit k v => simpa [Objects.exec, Call.access, hs] using h.setCount hs
    case semP k =>
      simp only [Objects.exec, Call.access, if_pos hs, h.count hs, BitVec.sle_eq_decide,
        decide_eq_true_eq]
      by_cases hf : (p (k + semStart)).flag.toInt ≤ (0 : Word).toInt
      case pos => simpa only [if_pos hf, Function.update_eq_self, true_and] using h
      case neg => simpa only [if_neg hf, true_and] using h.setCount hs
    case semV k => simpa [Objects.exec, Call.access, hs, h.count hs] using h.setCount hs
    case mutexWait m =>
      simp only [Objects.exec, Call.access, if_pos hs, h.owner hs]
      have hu := h.update_owner hs
      cases ho : o.owner m
      case none   => simpa [ofOwner] using h.setOwner (w := some t) hs (by simpa using ht)
      case some u => simpa [ofOwner, ho] using hu
    case mutexRelease m =>
      simp only [Objects.exec, Call.access, if_pos hs, h.owner hs]
      have hu := h.update_owner hs
      cases ho : o.owner m
      case none =>
        have ht : (ofOwner none).data ≠ t := ht.symm
        simpa [if_neg ht, ho] using hu
      case some u =>
        by_cases he : u = t
        case pos => simpa [ofOwner, he] using h.setOwner (w := none) hs (by simp)
        case neg => simpa [ofOwner, he, ho] using hu

end Represents

theorem refines : Simulation TaskStep Objects.Step id Represents where
  step h e := by
    obtain ⟨⟨t, c⟩, ha⟩ := e
    have ⟨hr, h⟩ := h.exec ha.task ha.itc
    exact ⟨_, hr ▸ .intro t c, h⟩

end Message
