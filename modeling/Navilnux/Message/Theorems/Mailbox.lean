import Navilnux.Base.Mailbox
import Navilnux.Message.Objects

namespace Message

def post (c : Word) (e : Event) : Option (Post Word) :=
  match e.call with
  | .itcSend n d => if n = c then some (.put d) else none
  | .itcGet n    =>
    if n = c ∧ e.reply.ret = 0 then some (.take <| e.reply.data.getD 0) else none
  | _            => none

def posts (c : Word) (es : List Event) : List (Post Word) :=
  es.filterMap (post c)

variable {c t : Word} {p p₁ p₂ p₀ : NavilMsgMng} {e : Event} {es : List Event} {d : Word} {cl : Call}

structure Mailbox (c : Word) (es : List Event) (p : NavilMsgMng) : Prop where
  pending   : toMail (p c) = Post.pending (posts c es)
  delivered : Post.Delivered (posts c es)

theorem Call.eq_itc_of_slot (hc : c ≤ itcEnd) (h : cl.slot = some c) :
    cl = itcGet c ∨ ∃ d, cl = itcSend c d := by
  cases cl
  all_goals
    simp only [slot, Option.ite_none_right_eq_some, Option.some.injEq] at h
    obtain ⟨hn, h⟩ := h
  case itcGet               => exact .inl <| by rw [h]
  case itcSend d            => exact .inr ⟨d, by rw [h]⟩
  case semInit | semP | semV => exact absurd h.symm <| Represents.mail_ne_count hc hn
  case mutexWait | mutexRelease => exact absurd h.symm <| Represents.mail_ne_owner hc hn

theorem Call.itcGet_exec_of_lt (hc : c < maxMsg) : (itcGet c).exec t p =
    match toMail (p c) with
    | none   => ({ ret := -2 }, p)
    | some d => ({ ret := 0, data := some d }, Function.update p c ⟨0, 0⟩) := by
  have hs : (itcGet c).slot = some c := if_pos hc
  rw [exec_of_slot_some hs, toMail]
  by_cases hf : (p c).flag = 0
  case pos => simp only [access, if_pos hf, Function.update_eq_self]
  case neg => simp only [access, if_neg hf]

theorem Call.itcGet_exec (hc : c ≤ itcEnd) : (itcGet c).exec t p =
    match toMail (p c) with
    | none   => ({ ret := -2 }, p)
    | some d => ({ ret := 0, data := some d }, Function.update p c ⟨0, 0⟩) :=
  itcGet_exec_of_lt <| Nat.lt_of_le_of_lt hc (by decide)

theorem toMail_update {s : NavilFreeMsg} : toMail (Function.update p c s c) = toMail s := by
  rw [Function.update_self]

theorem posts_cons : posts c (e :: es) = (post c e).toList ++ posts c es := by
  cases h : post c e <;> simp [posts, h]

theorem post_of_slot_ne (hc : c ≤ itcEnd) (h : e.call.slot ≠ some c) : post c e = none := by
  obtain ⟨t, cl, r⟩ := e
  cases cl
  case itcSend n d =>
    refine if_neg fun hn : n = c => h ?_
    rw [hn]
    exact Call.itcSend_slot_self hc
  case itcGet n =>
    refine if_neg fun hn : n = c ∧ r.ret = 0 => h ?_
    rw [hn.left]
    exact Call.itcGet_slot_self hc
  all_goals rfl

namespace Mailbox

theorem init (hc : c ≤ itcEnd) : Mailbox c [] (msgInit p₀) where
  pending   := by
    have hc : c < maxMsg := by simp only [itcEnd, maxMsg] at *; bv_omega
    simp [toMail, msgInit, hc, posts, Post.pending]
  delivered := trivial

theorem step (h : Mailbox c es p₁) (hc : c ≤ itcEnd) (st : Step p₁ e p₂) : Mailbox c (e :: es) p₂ := by
  have ⟨hp, hd⟩ := h
  obtain ⟨t, cl⟩ := st
  by_cases hs : cl.slot = some c
  case neg =>
    have hn := post_of_slot_ne hc (e := ⟨t, cl, (cl.exec t p₁).1⟩) hs
    constructor
    case pending   => rwa [Call.exec_frame hs, posts_cons, hn]
    case delivered => rwa [posts_cons, hn]
  case pos =>
    rcases Call.eq_itc_of_slot hc hs with rfl | ⟨d, rfl⟩
    case inr =>
      have hn : post c ⟨t, .itcSend c d, ((Call.itcSend c d).exec t p₁).1⟩ = some (.put d) := if_pos rfl
      rw [Call.exec_of_slot_some hs] at hn ⊢
      constructor
      case pending =>
        rw [posts_cons, hn]
        exact toMail_update
      case delivered =>
        rw [posts_cons, hn]
        exact hd
    case inl =>
      rw [Call.itcGet_exec hc]
      cases hm : toMail (p₁ c)
      case none   =>
        have hn : post c ⟨t, .itcGet c, { ret := -2 }⟩ = none := if_neg fun h => nomatch h.right
        constructor
        case pending   => rwa [posts_cons, hn]
        case delivered => rwa [posts_cons, hn]
      case some d =>
        have hn : post c ⟨t, .itcGet c, { ret := 0, data := some d }⟩ = some (.take d) :=
          if_pos ⟨rfl, rfl⟩
        constructor
        case pending =>
          rw [posts_cons, hn]
          exact toMail_update
        case delivered =>
          rw [posts_cons, hn]
          exact ⟨hp ▸ hm, hd⟩

theorem of_run (hc : c ≤ itcEnd) (r : Run Step (msgInit p₀) es p) : Mailbox c es p :=
  r.invariant (P := fun es p => Mailbox c es p) (init hc) fun _ h st => h.step hc st

end Mailbox

structure LastValue (c : Word) (es : List Event) (p : NavilMsgMng) : Prop where
  -- The last message that was sent, if none was received since.
  message    : ∀ {v} t, Post.pending (posts c es) = some v →
    ((Call.itcGet c).exec t p).1 = { ret := 0, data := some v }
  empty      : ∀ t, Post.pending (posts c es) = none →
    (Call.itcGet c).exec t p = ({ ret := -2 }, p)
  -- What was received is the message that was sent last on the channel, and it was not received before.
  received   : ∀ {h₁ v h₂}, posts c es = h₂ ++ .take v :: h₁ → ∃ h, h₁ = .put v :: h
  atMostOnce : ∀ v, (posts c es).count (.take v) ≤ (posts c es).count (.put v)

-- Channels are mailboxes that keep the last message.
theorem last_value (hc : c ≤ itcEnd) (r : Run Step (msgInit p₀) es p) : LastValue c es p := by
  have ⟨hp, hd⟩ := Mailbox.of_run hc r
  constructor
  case message =>
    intro v t hv
    rw [Call.itcGet_exec hc, hp, hv]
  case empty =>
    intro t hv
    rw [Call.itcGet_exec hc, hp, hv]
  case received   => exact fun he => Post.Delivered.put_of_take (he ▸ hd)
  case atMostOnce => exact fun v => Nat.le_of_add_right_le hd.count_take_le

theorem last_value_twice : ∃ p, LastValue 2
    [⟨3, .itcGet 2, { ret := 0, data := some 8 }⟩, ⟨1, .itcSend 2 8, { ret := 2 }⟩,
      ⟨1, .itcSend 2 7, { ret := 2 }⟩] p := by
  have r : Run Step (msgInit fun _ => ⟨0, 0⟩) _ _ := Run.init
    |>.step (.intro 1 <| .itcSend 2 7) |>.step (.intro 1 <| .itcSend 2 8)
    |>.step (.intro 3 <| .itcGet 2)
  exact ⟨_, last_value (by decide) r⟩

end Message
