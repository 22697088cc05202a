import Navilnux.Base.Run
import Navilnux.Chap16.Message
import Navilnux.Message.Objects

-- The mutexes with an owner (navilnux/chap16_driver) next to those without (source/chap16).
namespace Chap16

open Message (NavilFreeMsg NavilMsgMng Call Reply msgInit itcEnd ofOwner toMail)

structure BothEvent where
  task  : Word
  call  : Call
  owned : Reply
  plain : Reply

inductive BothStep : NavilMsgMng × NavilMsgMng → BothEvent → NavilMsgMng × NavilMsgMng → Prop
  | intro (t : Word) (c : Call) : BothStep (p, q) ⟨t, c, (c.exec t p).1, (msgExec q c).1⟩
    ((c.exec t p).2, (msgExec q c).2)

def Common : Call → Prop
  | .itcSend n _ | .itcGet n         => n ≤ itcEnd
  | .semInit n _ | .semP n | .semV n => n ≤ semEnd - semStart
  | .mutexWait m | .mutexRelease m   => m ≤ Message.mutexEnd - Message.mutexStart

instance : DecidablePred Common
  | .itcSend .. | .itcGet _ | .semInit .. | .semP _ | .semV _ | .mutexWait _ | .mutexRelease _ =>
    inferInstanceAs <| Decidable (_ ≤ _)

def holder (m : Word) : List BothEvent → Option Word
  | []      => none
  | e :: es =>
    if e.call = .mutexWait m ∧ e.owned.ret = 0 then some e.task
    else if e.call = .mutexRelease m then none
    else holder m es

def WellBehaved : List BothEvent → Prop
  | []      => True
  | e :: es => (∀ m, e.call = .mutexRelease m → holder m es = some e.task) ∧ WellBehaved es

variable {n k m t v : Word} {p q : NavilMsgMng} {o : Word → Option Word} {w : Option Word}
variable {s : NavilFreeMsg} {c : Call} {es : List BothEvent} {e : BothEvent}

-- Both tables represent the same objects, and `o` gives the holders of the mutexes.
structure Agree (o : Word → Option Word) (p q : NavilMsgMng) : Prop where
  mail  : ∀ {n}, n ≤ itcEnd → q n = p n
  count : ∀ {k}, k ≤ semEnd - semStart →
    (q (k + semStart)).flag = (p (k + Message.semStart)).flag
  owned : ∀ {m}, m ≤ Message.mutexEnd - Message.mutexStart →
    p (m + Message.mutexStart) = ofOwner (o m)
  plain : ∀ {m}, m ≤ Message.mutexEnd - Message.mutexStart →
    (q (m + mutexStart)).flag = (ofOwner (o m)).flag

namespace Agree

theorem init : Agree (fun _ => none) (msgInit p) (msgInit q) where
  mail {n} h := by
    have h : n < Message.maxMsg := by simp only [itcEnd, Message.maxMsg] at *; bv_omega
    simp [msgInit, h]
  count {k} h := by
    have h₁ : k + semStart < Message.maxMsg := by
      simp only [semStart, semEnd, Message.maxMsg] at *; bv_omega
    have h₂ : k + Message.semStart < Message.maxMsg := by
      simp only [semStart, semEnd, Message.semStart, Message.maxMsg] at *; bv_omega
    simp [msgInit, h₁, h₂]
  owned {m} h := by
    have h : m + Message.mutexStart < Message.maxMsg := by
      simp only [Message.mutexStart, Message.mutexEnd, Message.maxMsg] at *; bv_omega
    simp [msgInit, ofOwner, h]
  plain {m} h := by
    have h : m + mutexStart < Message.maxMsg := by
      simp only [Message.mutexStart, Message.mutexEnd, mutexStart, Message.maxMsg] at *; bv_omega
    simp [msgInit, ofOwner, h]

theorem sem_le (hk : k ≤ semEnd - semStart) : k ≤ Message.semEnd - Message.semStart := by
  simp only [semStart, semEnd, Message.semStart, Message.semEnd] at *
  bv_omega

theorem mutex_le (hm : m ≤ Message.mutexEnd - Message.mutexStart) : m ≤ mutexEnd - mutexStart := by
  simp only [mutexStart, mutexEnd, Message.mutexStart, Message.mutexEnd] at *
  bv_omega

theorem mail_ne_count (hn : n ≤ itcEnd) (hk : k ≤ semEnd - semStart) : n ≠ k + semStart := by
  simp only [itcEnd, semStart, semEnd] at *
  bv_omega

theorem mail_ne_plain (hn : n ≤ itcEnd) (hm : m ≤ mutexEnd - mutexStart) : n ≠ m + mutexStart := by
  simp only [itcEnd, mutexStart, mutexEnd] at *
  bv_omega

theorem count_ne_plain (hk : k ≤ semEnd - semStart) (hm : m ≤ mutexEnd - mutexStart) :
    k + semStart ≠ m + mutexStart := by
  simp only [semStart, semEnd, mutexStart, mutexEnd] at *
  bv_omega

open Message.Represents (count_ne_owner mail_ne_owner)

theorem setMail (h : Agree o p q) (hn : n ≤ itcEnd) :
    Agree o (Function.update p n s) (Function.update q n s) where
  mail {n'} hn' := by
    by_cases he : n' = n
    case pos => simp [he]
    case neg => simp [he, h.mail hn']
  count hk := by
    simp [(mail_ne_count hn hk).symm, (Message.Represents.mail_ne_count hn (sem_le hk)).symm, h.count hk]
  owned hm := by simp [(mail_ne_owner hn hm).symm, h.owned hm]
  plain hm := by simp [(mail_ne_plain hn (mutex_le hm)).symm, h.plain hm]

theorem setCount (h : Agree o p q) (hk : k ≤ semEnd - semStart) :
    Agree o (Function.update p (k + Message.semStart) { p (k + Message.semStart) with flag := v })
      (Function.update q (k + semStart) { q (k + semStart) with flag := v }) where
  mail hn := by
    simp [mail_ne_count hn hk, Message.Represents.mail_ne_count hn (sem_le hk), h.mail hn]
  count {k'} hk' := by
    by_cases he : k' = k
    case pos => simp [he]
    case neg => simp [he, h.count hk']
  owned hm := by simp [(count_ne_owner (sem_le hk) hm).symm, h.owned hm]
  plain hm := by simp [(count_ne_plain hk (mutex_le hm)).symm, h.plain hm]

theorem setOwner (h : Agree o p q) (hm : m ≤ Message.mutexEnd - Message.mutexStart) :
    Agree (Function.update o m w) (Function.update p (m + Message.mutexStart) (ofOwner w))
      (Function.update q (m + mutexStart) { q (m + mutexStart) with flag := (ofOwner w).flag }) where
  mail hn  := by simp [mail_ne_owner hn hm, mail_ne_plain hn (mutex_le hm), h.mail hn]
  count hk := by
    simp [count_ne_owner (sem_le hk) hm, count_ne_plain hk (mutex_le hm), h.count hk]
  owned {m'} hm' := by
    by_cases he : m' = m
    case pos => simp [he]
    case neg => simp [he, h.owned hm']
  plain {m'} hm' := by
    by_cases he : m' = m
    case pos => simp [he]
    case neg => simp [he, h.plain hm']

end Agree

def held (o : Word → Option Word) (t : Word) (c : Call) (r : Word) : Word → Option Word :=
  match c with
  | .mutexWait m    => if r = 0 then Function.update o m (some t) else o
  | .mutexRelease m => Function.update o m none
  | _               => o

theorem holder_cons : (holder · (e :: es)) = held (holder · es) e.task e.call e.owned.ret := by
  obtain ⟨t, c, r, r'⟩ := e
  cases c
  case mutexWait m =>
    simp only [held]
    split
    case isTrue hr =>
      funext m'
      simp only [holder, hr, Call.mutexWait.injEq, and_true, reduceCtorEq, if_false,
        Function.update_apply, eq_comm (a := m')]
    case isFalse hr =>
      funext m'
      simp only [holder, hr, and_false, reduceCtorEq, if_false]
  case mutexRelease m =>
    funext m'
    simp only [holder, held, Call.mutexRelease.injEq, reduceCtorEq, false_and, if_false,
      Function.update_apply, eq_comm (a := m')]
  all_goals rfl

namespace Agree

theorem call (h : Agree o p q) (hc : Common c) (hr : ∀ m, c = .mutexRelease m → o m = some t) :
    (c.exec t p).1 = (msgExec q c).1 ∧
    Agree (held o t c (c.exec t p).1.ret) (c.exec t p).2 (msgExec q c).2 := by
  cases c
  case itcSend n d =>
    have hs : (Call.itcSend n d).slot = some n := Call.itcSend_slot_self hc
    have hs' : slot (.itcSend n d) = some n := if_pos hc
    rw [Call.exec_of_slot_some hs, msgExec_of_slot hs']
    exact ⟨rfl, h.setMail hc⟩
  case itcGet n =>
    have hs : (Call.itcGet n).slot = some n := Call.itcGet_slot_self hc
    have hs' : slot (.itcGet n) = some n := if_pos hc
    have ha : access (q n) (.itcGet n) = Call.access t (p n) (.itcGet n) :=
      congrArg (Call.access t · (.itcGet n)) (h.mail hc)
    rw [Call.exec_of_slot_some hs, msgExec_of_slot hs', ha]
    exact ⟨rfl, h.setMail hc⟩
  case semInit k v =>
    have hs : (Call.semInit k v).slot = some (k + Message.semStart) := if_pos (sem_le hc)
    have hs' : slot (.semInit k v) = some (k + semStart) := if_pos hc
    rw [Call.exec_of_slot_some hs, msgExec_of_slot hs']
    exact ⟨rfl, h.setCount hc⟩
  case semP k =>
    have hs : (Call.semP k).slot = some (k + Message.semStart) := if_pos (sem_le hc)
    have hs' : slot (.semP k) = some (k + semStart) := if_pos hc
    rw [Call.exec_of_slot_some hs, msgExec_of_slot hs']
    simp only [access, Call.access, h.count hc]
    by_cases hf : (p (k + Message.semStart)).flag.sle 0
    case pos => simpa only [if_pos hf, Function.update_eq_self, true_and, held] using h
    case neg => simpa only [if_neg hf, true_and, held] using h.setCount hc
  case semV k =>
    have hs : (Call.semV k).slot = some (k + Message.semStart) := if_pos (sem_le hc)
    have hs' : slot (.semV k) = some (k + semStart) := if_pos hc
    rw [Call.exec_of_slot_some hs, msgExec_of_slot hs']
    simp only [access, Call.access, h.count hc, true_and]
    exact h.setCount hc
  case mutexWait m =>
    have hs : (Call.mutexWait m).slot = some (m + Message.mutexStart) := if_pos hc
    have hs' : slot (.mutexWait m) = some (m + mutexStart) := if_pos <| mutex_le hc
    rw [Call.exec_of_slot_some hs, msgExec_of_slot hs']
    have ho := h.setOwner (w := some t) hc
    simp only [access, Call.access, h.owned hc, h.plain hc]
    cases hw : o m
    case none   => simpa [ofOwner, held] using ho
    case some u =>
      have hf : (ofOwner (some u)).flag ≠ 0 := (by decide : (1 : Word) ≠ 0)
      have hr : (-2 : Word) ≠ 0 := by decide
      simp only [if_neg hf, held, if_neg hr, true_and]
      rwa [← hw, ← h.owned hc, Function.update_eq_self, Function.update_eq_self]
  case mutexRelease m =>
    have hs : (Call.mutexRelease m).slot = some (m + Message.mutexStart) := if_pos hc
    have hs' : slot (.mutexRelease m) = some (m + mutexStart) := if_pos <| mutex_le hc
    rw [Call.exec_of_slot_some hs, msgExec_of_slot hs']
    have ho := h.setOwner (w := none) hc
    simp only [access, Call.access, h.owned hc, hr m rfl]
    simpa [ofOwner, held] using ho

end Agree

structure SameBehaviour (es : List BothEvent) (p q : NavilMsgMng) : Prop where
  replies : ∀ e ∈ es, e.owned = e.plain
  locked  : ∀ {m}, m ≤ Message.mutexEnd - Message.mutexStart →
    ((p (m + Message.mutexStart)).flag = 0 ↔ (q (m + mutexStart)).flag = 0)
  counts  : ∀ {k}, k ≤ semEnd - semStart →
    (p (k + Message.semStart)).flag = (q (k + semStart)).flag
  mail    : ∀ {n}, n ≤ itcEnd → toMail (p n) = toMail (q n)

theorem Agree.of_run {p₀ q₀ : NavilMsgMng} {s : NavilMsgMng × NavilMsgMng}
    (r : Run BothStep (msgInit p₀, msgInit q₀) es s) (hc : ∀ e ∈ es, Common e.call)
    (hw : WellBehaved es) : (∀ e ∈ es, e.owned = e.plain) ∧ Agree (holder · es) s.1 s.2 := by
  induction r
  case init => exact ⟨nofun, .init⟩
  case step es s e s' _ st ih =>
    have ⟨hc, hcs⟩ := List.forall_mem_cons.mp hc
    have ⟨hr, hw⟩ := hw
    have ⟨he, h⟩ := ih hcs hw
    obtain ⟨t, c⟩ := st
    have ⟨he', h⟩ := h.call hc hr
    exact ⟨List.forall_mem_cons.mpr ⟨he', he⟩, holder_cons ▸ h⟩

-- Programs that release only what they hold can not tell the two kinds of mutexes apart.
theorem same_behaviour {p₀ q₀ : NavilMsgMng} (r : Run BothStep (msgInit p₀, msgInit q₀) es (p, q))
    (hc : ∀ e ∈ es, Common e.call) (hw : WellBehaved es) : SameBehaviour es p q := by
  have ⟨he, h⟩ := Agree.of_run r hc hw
  have h : Agree (holder · es) p q := h
  constructor
  case replies => exact he
  case locked =>
    intro m hm
    rw [h.owned hm, h.plain hm]
  case counts => exact fun hk => (h.count hk).symm
  case mail =>
    intro n hn
    rw [h.mail hn]

theorem same_behaviour_wait : ∃ es p q, SameBehaviour es p q ∧
    es.map (·.plain.ret) = [0, -2, 0] := by
  have r : Run BothStep (msgInit fun _ => ⟨0, 0⟩, msgInit fun _ => ⟨0, 0⟩) _ _ := Run.init
    |>.step (.intro 1 <| .mutexWait 3) |>.step (.intro 2 <| .mutexWait 3)
    |>.step (.intro 1 <| .mutexRelease 3)
  refine ⟨_, _, _, same_behaviour r (by decide) ?_, by decide⟩
  simp only [WellBehaved, reduceCtorEq, false_implies, implies_true, and_true]
  intro m hm
  cases hm
  decide

end Chap16
