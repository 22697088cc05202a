import Mathlib.Data.Set.Basic
import Navilnux.Message.Theorems.Slot

namespace Message

def Reachable (p : NavilMsgMng) : Prop :=
  ∃ p₀ es, Run Step (msgInit p₀) es p

-- The channel numbers which `msgItcSend` and `msgItcGet` accept although they lie outside of the
-- region of the channels.
def StrayChannel (n : Word) : Prop :=
  itcEnd < n ∧ n < maxMsg

namespace Call

def first : Call → Word
  | itcSend .. | itcGet _            => itcStart
  | semInit .. | semP _ | semV _     => semStart
  | mutexWait _ | mutexRelease _     => mutexStart

def last : Call → Word
  | itcSend .. | itcGet _            => itcEnd
  | semInit .. | semP _ | semV _     => semEnd
  | mutexWait _ | mutexRelease _     => mutexEnd

-- The call reads and writes no slot but `i`: its reply and the new value of the slot are determined
-- by the value of the slot, and all other slots keep their values.
structure OnlyAccesses (c : Call) (t i : Word) : Prop where
  reads  : ∀ {p q}, Reachable p → Reachable q → p i = q i →
    (c.exec t p).1 = (c.exec t q).1 ∧ (c.exec t p).2 i = (c.exec t q).2 i
  writes : ∀ {p j}, Reachable p → j ≠ i → (c.exec t p).2 j = p j

def Confined (c : Call) : Prop :=
  ∀ t, (∀ p, Reachable p → c.exec t p = ({ ret := -1 }, p)) ∨
    (∃ i, c.first ≤ i ∧ i ≤ c.last ∧ c.OnlyAccesses t i)

def Stray : Call → Prop
  | itcSend n _ | itcGet n => StrayChannel n
  | _                      => False

def OnChannel (s : Set Word) : Call → Prop
  | itcSend n _ | itcGet n => n ∈ s
  | _                      => False

variable {t : Word} {p q : NavilMsgMng} {c : Call} {i n d : Word}

theorem onlyAccesses_slot (h : c.slot = some i) : c.OnlyAccesses t i where
  reads _ _ hp := by simp [exec_of_slot_some h, hp]
  writes _ hj  := exec_frame fun hs => hj <| Option.some.inj <| hs.symm.trans h

theorem slot_mem_region (h : c.slot = some i) (hs : ¬c.Stray) : c.first ≤ i ∧ i ≤ c.last := by
  cases c
  all_goals
    simp only [slot, Option.ite_none_right_eq_some, Option.some.injEq] at h
    obtain ⟨h, rfl⟩ := h
    simp only [Stray, StrayChannel, first, last, itcStart, itcEnd, semStart, semEnd, mutexStart,
      mutexEnd, maxMsg] at *
    bv_omega

theorem confined_of_not_stray (h : ¬c.Stray) : c.Confined := by
  intro t
  cases hs : c.slot
  case none   => exact .inl fun _ _ => exec_of_slot_none hs
  case some i =>
    have ⟨hf, hl⟩ := slot_mem_region hs h
    exact .inr ⟨i, hf, hl, onlyAccesses_slot hs⟩

theorem itcSend_slot (h : StrayChannel n) : (itcSend n d).slot = some n :=
  if_pos h.right

theorem itcGet_slot (h : StrayChannel n) : (itcGet n).slot = some n :=
  if_pos h.right

end Call

namespace Reachable

theorem init {p : NavilMsgMng} : Reachable (msgInit p) :=
  ⟨p, [], .init⟩

theorem exec {p : NavilMsgMng} (h : Reachable p) (t : Word) (c : Call) : Reachable (c.exec t p).2 :=
  have ⟨p₀, _, r⟩ := h
  ⟨p₀, _, r.step (.intro t c)⟩

end Reachable

namespace Call

variable {t : Word} {p q : NavilMsgMng} {c : Call} {n d : Word}

theorem exec_stray_send (h : StrayChannel n) :
    (itcSend n d).exec t p = ({ ret := n }, Function.update p n { data := d, flag := 1 }) :=
  exec_of_slot_some (itcSend_slot h)

theorem exec_stray_get (h : StrayChannel n) :
    ((itcGet n).exec t p).1 =
      if (p n).flag = 0 then { ret := -2 } else { ret := 0, data := some (p n).data } := by
  rw [exec_of_slot_some (itcGet_slot h)]
  simp only [access]
  split <;> rfl

theorem not_confined_of_stray (h : c.Stray) : ¬c.Confined := by
  intro hc
  have hi (n : Word) (h : StrayChannel n) : msgInit (fun _ => ⟨0, 0⟩) n = ⟨0, 0⟩ := if_pos h.right
  have hr : Reachable (msgInit fun _ => ⟨0, 0⟩) := .init
  cases c
  case itcSend n d =>
    rcases hc 0 with hc | ⟨i, _, hl, ha⟩
    case inl =>
      have hn : n = -1 := congrArg (·.1.ret) <| exec_stray_send h ▸ hc _ hr
      exact absurd h.right (by simp [hn, maxMsg])
    case inr =>
      have hn : n ≠ i := fun hn => BitVec.not_lt.mpr hl (hn ▸ h.left)
      have hw := ha.writes hr hn
      simp only [exec_stray_send h, hi n h, Function.update_self] at hw
      exact absurd (NavilFreeMsg.mk.inj hw).right (by decide)
  case itcGet n =>
    rcases hc 0 with hc | ⟨i, _, hl, ha⟩
    case inl =>
      have hn := congrArg (·.1.ret) (hc _ hr)
      simp only [exec_stray_get h, hi n h] at hn
      exact absurd hn (by decide)
    case inr =>
      -- A message in the slot changes the reply, although it is not the slot `i`.
      have hn : i ≠ n := fun hn => BitVec.not_lt.mpr hl (hn ▸ h.left)
      have hq := hr.exec 0 (itcSend n 1)
      have he := ha.reads hr hq (by simp only [exec_stray_send h, Function.update_of_ne hn]) |>.left
      simp only [exec_stray_get h, exec_stray_send h, hi n h, Function.update_self] at he
      exact absurd (congrArg (·.ret) he) (by decide)
  all_goals exact h.elim

theorem confined_iff : c.Confined ↔ ¬c.Stray :=
  ⟨fun hc h => not_confined_of_stray h hc, confined_of_not_stray⟩

theorem exec_onChannel {s : Set Word} {j : Word} (hs : ∀ n ∈ s, ¬StrayChannel n)
    (hc : c.OnChannel s) (hj : semStart ≤ j) : (c.exec t p).2 j = p j := by
  apply exec_frame
  intro hsl
  cases c
  case itcSend n d | itcGet n =>
    have := slot_mem_region hsl (hs n hc) |>.right
    simp only [last, itcEnd, semStart] at *
    bv_omega
  all_goals exact hc.elim

end Call

def ItcRun (s : Set Word) (p : NavilMsgMng) (es : List Event) (q : NavilMsgMng) : Prop :=
  Run Step p es q ∧ (∀ e ∈ es, e.call.OnChannel s)

theorem ItcRun.send {s : Set Word} {p : NavilMsgMng} {n d : Word} (h : n ∈ s) :
    ItcRun s p [⟨0, .itcSend n d, ((Call.itcSend n d).exec 0 p).1⟩]
      ((Call.itcSend n d).exec 0 p).2 :=
  ⟨.single (.intro _ _), List.forall_mem_singleton.mpr h⟩

theorem ItcRun.frame {s : Set Word} {p q : NavilMsgMng} {es : List Event} {j : Word}
    (hs : ∀ n ∈ s, ¬StrayChannel n) (r : ItcRun s p es q) (hj : semStart ≤ j) : q j = p j := by
  have ⟨r, hc⟩ := r
  induction r
  case init => rfl
  case step e ih =>
    have ⟨he, hes⟩ := List.forall_mem_cons.mp hc
    obtain ⟨t, c⟩ := e
    rw [Call.exec_onChannel hs he hj, ih ⟨‹_›, hes⟩ hes]

-- A call leaves the slots of the other services alone unless it is made on a stray channel, and ITC
-- calls can not disturb semaphores and mutexes unless they are made on a stray channel.
theorem never_interfere_iff (c : Call) (s : Set Word) :
    (c.Confined ↔ ¬c.Stray) ∧
    ((∀ p es q j, Reachable p → ItcRun s p es q → semStart ≤ j → j ≤ mutexEnd → q j = p j) ↔
      (∀ n ∈ s, ¬StrayChannel n)) := by
  refine ⟨Call.confined_iff, fun h n hn hs => ?_, fun hs _ _ _ _ _ r hj _ => r.frame hs hj⟩
  have hr : Reachable (msgInit fun _ => ⟨0, 0⟩) := .init
  have hi : msgInit (fun _ => ⟨0, 0⟩) n = ⟨0, 0⟩ := if_pos hs.right
  have hl : semStart ≤ n := by have := hs.left; simp only [itcEnd, semStart] at *; bv_omega
  have hu : n ≤ mutexEnd := by have := hs.right; simp only [maxMsg, mutexEnd] at *; bv_omega
  have hj := h _ _ _ n hr (.send (d := 0) hn) hl hu
  simp only [Call.exec_stray_send hs, hi, Function.update_self] at hj
  exact absurd (NavilFreeMsg.mk.inj hj).right (by decide)

-- Sending to the channel 200 locks the mutex 0.
theorem itcSend_unconfined :
    ¬(Call.itcSend 200 7).Confined ∧
    ((Call.itcSend 200 7).exec 1 (msgInit fun _ => ⟨0, 0⟩)).2 (0 + mutexStart) = ⟨7, 1⟩ ∧
    ((Call.mutexWait 0).exec 2 ((Call.itcSend 200 7).exec 1 (msgInit fun _ => ⟨0, 0⟩)).2).1.ret = -2 :=
  ⟨Call.not_confined_of_stray ⟨by decide, by decide⟩, by decide, by decide⟩

end Message
