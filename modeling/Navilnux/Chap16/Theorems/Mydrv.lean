import Navilnux.Base.Mailbox
import Navilnux.Chap16.Mydrv

namespace Chap16

variable {L : Image} {C : MydrvCode} {m m₀ m₁ m₂ : Memory} {e : MydrvEvent} {es : List MydrvEvent}

-- A recorded push is put into `switch_pushed`, a read or an open takes it out.
def MydrvEvent.post (e : MydrvEvent) : Option (Post Unit) :=
  if e.isPush then some (.put ())
  else if e.isRead ∨ e.isDiscard then some (.take ())
  else none

def mydrvPosts (es : List MydrvEvent) : List (Post Unit) :=
  es.filterMap MydrvEvent.post

def pushes (es : List MydrvEvent) : Nat :=
  es.countP MydrvEvent.isPush

def reads (es : List MydrvEvent) : Nat :=
  es.countP MydrvEvent.isRead

def discards (es : List MydrvEvent) : Nat :=
  es.countP MydrvEvent.isDiscard

structure PushesAccounted (L : Image) (C : MydrvCode) (es : List MydrvEvent) (m : Memory) : Prop where
  count     : pushes es = reads es + discards es + (m.word L.switchPushed).toNat
  flag      : m.word L.switchPushed = 0 ∨ m.word L.switchPushed = 1
  -- Before a read or a discard comes the push that is taken.
  taken     : ∀ {h₁ h₂}, mydrvPosts es = h₂ ++ .take () :: h₁ → ∃ h, h₁ = .put () :: h
  -- After a push comes its read or discard, if it is not pending.
  answered  : ∀ {h₁ h₂}, mydrvPosts es = h₂ ++ .put () :: h₁ →
    (h₂ = [] ∧ m.word L.switchPushed = 1) ∨ ∃ h, h₂ = h ++ [.take ()]
  -- The interrupts of the switch get to the driver.
  installed : m.word L.irq8Vector = C.gpio0IrqHandler

structure SwitchMail (L : Image) (C : MydrvCode) (es : List MydrvEvent) (m : Memory) : Prop where
  flag      : m.word L.switchPushed = if Post.pending (mydrvPosts es) = some () then 1 else 0
  delivered : Post.Delivered (mydrvPosts es)
  kept      : Post.Kept (mydrvPosts es)
  installed : m.word L.irq8Vector = C.gpio0IrqHandler

theorem mydrvPosts_cons : mydrvPosts (e :: es) = e.post.toList ++ mydrvPosts es := by
  cases h : e.post <;> simp [mydrvPosts, h]

theorem count_post : e.post.toList.count (.put ()) = (if e.isPush then 1 else 0) ∧
    e.post.toList.count (.take ()) = (if e.isRead then 1 else 0) + (if e.isDiscard then 1 else 0) := by
  rw [MydrvEvent.post]
  cases e
  case irq icip r =>
    have hr : (MydrvEvent.irq icip r).isRead = false := rfl
    have hd : (MydrvEvent.irq icip r).isDiscard = false := rfl
    cases hp : (MydrvEvent.irq icip r).isPush <;> simp [hr, hd]
  case openDrv n mode f r =>
    have hp : (MydrvEvent.openDrv n mode f r).isPush = false := rfl
    have hr : (MydrvEvent.openDrv n mode f r).isRead = false := rfl
    cases hd : (MydrvEvent.openDrv n mode f r).isDiscard <;> simp [hp, hr]
  case readDrv n b size r v =>
    have hp : (MydrvEvent.readDrv n b size r v).isPush = false := rfl
    have hd : (MydrvEvent.readDrv n b size r v).isDiscard = false := rfl
    cases hr : (MydrvEvent.readDrv n b size r v).isRead <;> simp [hp, hd]
  case other => exact ⟨rfl, rfl⟩

theorem count_mydrvPosts (es : List MydrvEvent) : (mydrvPosts es).count (.put ()) = pushes es ∧
    (mydrvPosts es).count (.take ()) = reads es + discards es := by
  induction es
  case nil => exact ⟨rfl, rfl⟩
  case cons e es ih =>
    have ⟨hp, ht⟩ := ih
    have ⟨hp', ht'⟩ := count_post (e := e)
    rw [mydrvPosts_cons, List.count_append, List.count_append, hp, ht, hp', ht']
    simp only [pushes, reads, discards, List.countP_cons]
    omega

namespace SwitchMail

theorem of_post_none (h : SwitchMail L C es m₁) (hp : e.post = none)
    (hf : m₂.word L.switchPushed = m₁.word L.switchPushed)
    (hv : m₂.word L.irq8Vector = C.gpio0IrqHandler) : SwitchMail L C (e :: es) m₂ := by
  have he : mydrvPosts (e :: es) = mydrvPosts es := by rw [mydrvPosts_cons, hp]; rfl
  have ⟨hs, hd, hk, _⟩ := h
  constructor
  case flag      => rw [he, hf, hs]
  case delivered => rwa [he]
  case kept      => rwa [he]
  case installed => exact hv

theorem of_put (h : SwitchMail L C es m₁) (hp : e.post = some (.put ()))
    (h₁ : m₁.word L.switchPushed = 0) (h₂ : m₂.word L.switchPushed = 1)
    (hv : m₂.word L.irq8Vector = C.gpio0IrqHandler) : SwitchMail L C (e :: es) m₂ := by
  have he : mydrvPosts (e :: es) = .put () :: mydrvPosts es := by rw [mydrvPosts_cons, hp]; rfl
  have ⟨hs, hd, hk, _⟩ := h
  constructor
  case flag      => rw [he, h₂]; rfl
  case delivered => rwa [he]
  case kept      =>
    rw [he]
    refine ⟨?_, hk⟩
    cases hn : Post.pending (mydrvPosts es)
    case none => rfl
    case some =>
      rw [hs, hn, if_pos rfl] at h₁
      exact absurd h₁ (by decide)
  case installed => exact hv

theorem of_take (h : SwitchMail L C es m₁) (hp : e.post = some (.take ()))
    (h₁ : m₁.word L.switchPushed ≠ 0) (h₂ : m₂.word L.switchPushed = 0)
    (hv : m₂.word L.irq8Vector = C.gpio0IrqHandler) : SwitchMail L C (e :: es) m₂ := by
  have he : mydrvPosts (e :: es) = .take () :: mydrvPosts es := by rw [mydrvPosts_cons, hp]; rfl
  have ⟨hs, hd, hk, _⟩ := h
  constructor
  case flag      => rw [he, h₂]; rfl
  case delivered =>
    rw [he]
    refine ⟨?_, hd⟩
    by_contra hn
    exact h₁ <| hs.trans <| if_neg hn
  case kept      => rwa [he]
  case installed => exact hv

theorem init (m : Memory) (n mode : Word) : SwitchMail L C [] (mydrvOpen L C n mode m).2 where
  flag      := Memory.word_setWord
  delivered := trivial
  kept      := trivial
  installed := by
    rw [mydrvOpen, Memory.word_setWord_of_apart switchPushed_apart_irq8Vector, Memory.word_setWord]

theorem step (h : SwitchMail L C es m₁) (st : MydrvStep L C m₁ e m₂) :
    SwitchMail L C (e :: es) m₂ := by
  cases st
  case irq icip =>
    have hv := (irq8Vector_irqHandler icip).trans h.installed
    by_cases hp : gpio0Result L icip m₁ = some 0
    case pos =>
      have ⟨h₁, h₂⟩ := switchPushed_of_gpio0Result hp
      exact h.of_put (by rw [hp]; rfl) h₁ h₂ hv
    case neg =>
      refine h.of_post_none ?_ (switchPushed_of_gpio0Result_ne hp) hv
      cases hr : gpio0Result L icip m₁
      case none => rfl
      case some r =>
        have hr : r ≠ 0 := fun h0 => hp <| hr.trans <| congrArg _ h0
        simpa [MydrvEvent.post, MydrvEvent.isPush, MydrvEvent.isRead, MydrvEvent.isDiscard] using hr
  case openDrv n mode =>
    have ⟨_, _, _, hv⟩ := SwitchMail.init (L := L) (C := C) m₁ n mode
    have hf : (mydrvOpen L C n mode m₁).2.word L.switchPushed = 0 := Memory.word_setWord
    by_cases hs : m₁.word L.switchPushed = 0
    case pos =>
      refine h.of_post_none ?_ (hf.trans hs.symm) hv
      simp [MydrvEvent.post, MydrvEvent.isPush, MydrvEvent.isRead, MydrvEvent.isDiscard, hs]
    case neg =>
      refine h.of_take ?_ hs hf hv
      simpa [MydrvEvent.post, MydrvEvent.isPush, MydrvEvent.isRead, MydrvEvent.isDiscard] using hs
  case readDrv n buf size hb =>
    by_cases hs : m₁.word L.switchPushed = 1
    case pos =>
      rw [mydrvRead, if_pos hs]
      refine h.of_take ?_ (by rw [hs]; decide) Memory.word_setWord ?_
      · simp [MydrvEvent.post, MydrvEvent.isPush, MydrvEvent.isRead, hs]
      · rw [Memory.word_setWord_of_apart switchPushed_apart_irq8Vector, Memory.word_setWord_of_apart hb,
          h.installed]
    case neg =>
      rw [mydrvRead, if_neg hs]
      exact h.of_post_none rfl rfl h.installed
  case other hf hv => exact h.of_post_none rfl hf <| hv.trans h.installed

theorem of_run {n mode : Word} (r : Run (MydrvStep L C) (mydrvOpen L C n mode m₀).2 es m) :
    SwitchMail L C es m :=
  r.invariant (P := SwitchMail L C) (init m₀ n mode) fun _ => step

end SwitchMail

-- Pushes are not lost, unless a task opens the driver again, and not delivered twice.
theorem pushes_accounted {n mode : Word}
    (r : Run (MydrvStep L C) (mydrvOpen L C n mode m₀).2 es m) : PushesAccounted L C es m := by
  have ⟨hs, hd, hk, hv⟩ := SwitchMail.of_run r
  have ⟨hp, ht⟩ := count_mydrvPosts es
  constructor
  case count =>
    rw [← ht, ← hp, hd.count_put hk, hs]
    split <;> rfl
  case flag =>
    rw [hs]
    split
    · exact .inr rfl
    · exact .inl rfl
  case taken =>
    intro h₁ h₂ he
    exact Post.Delivered.put_of_take (he ▸ hd)
  case answered =>
    intro h₁ h₂ he
    rcases Post.Delivered.take_of_put (he ▸ hd) (he ▸ hk) with rfl | ha
    case inl =>
      refine .inl ⟨rfl, ?_⟩
      rw [hs, he]
      rfl
    case inr => exact .inr ha
  case installed => exact hv

theorem exists_push : ∃ m, m.word navilnuxElf.switchPushed = 1 ∧
    Run (MydrvStep navilnuxElf mydrvElf) (mydrvOpen navilnuxElf mydrvElf 0 2 fun _ => 0).2
      [.irq (0, 0x100) (some 0)] m := by
  have ⟨hs, _, _, hv⟩ := SwitchMail.init (L := navilnuxElf) (C := mydrvElf) (fun _ => 0) 0 2
  have hi : ((0 : Word), (0x100 : Word)).2 &&& (1 <<< 8) ≠ 0 := by decide
  have hr := gpio0Result_eq_zero hi (hv ▸ by decide) hs
  refine ⟨_, (switchPushed_of_gpio0Result hr).right, .single ?_⟩
  exact hr ▸ .irq (0, 0x100)

theorem pushes_accounted_read : ∃ m, PushesAccounted navilnuxElf mydrvElf
    [.readDrv 0 0xa2f00000 4 4 (some 1), .irq (0, 0x100) (some 0)] m := by
  have ⟨m, hs, r⟩ := exists_push
  have hr : mydrvRead navilnuxElf 0 0xa2f00000 4 m = _ := if_pos hs
  have st : MydrvStep navilnuxElf mydrvElf m _ _ := .readDrv 0 0xa2f00000 4 ⟨by decide, by decide⟩
  rw [hr, hs] at st
  exact ⟨_, pushes_accounted <| r.step st⟩

-- A second task opens the driver after the push, and the first task cannot read the push any more.
theorem push_discarded : ∃ m,
    Run (MydrvStep navilnuxElf mydrvElf) (mydrvOpen navilnuxElf mydrvElf 0 2 fun _ => 0).2
      [.readDrv 0 0xa2f00000 4 (-2) none, .openDrv 0 2 1 0, .irq (0, 0x100) (some 0)] m ∧
    m.word navilnuxElf.switchPushed = 0 ∧
    pushes [.readDrv 0 0xa2f00000 4 (-2) none, .openDrv 0 2 1 0, .irq (0, 0x100) (some 0)] = 1 ∧
    reads [.readDrv 0 0xa2f00000 4 (-2) none, .openDrv 0 2 1 0, .irq (0, 0x100) (some 0)] = 0 := by
  have ⟨m, hs, r⟩ := exists_push
  have st₁ : MydrvStep navilnuxElf mydrvElf m _ _ := .openDrv 0 2
  have h0 : (mydrvOpen navilnuxElf mydrvElf 0 2 m).2.word navilnuxElf.switchPushed = 0 :=
    Memory.word_setWord
  have hr : mydrvRead navilnuxElf 0 0xa2f00000 4 (mydrvOpen navilnuxElf mydrvElf 0 2 m).2 = _ :=
    if_neg (by rw [h0]; decide)
  have st₂ : MydrvStep navilnuxElf mydrvElf (mydrvOpen navilnuxElf mydrvElf 0 2 m).2 _ _ :=
    .readDrv 0 0xa2f00000 4 ⟨by decide, by decide⟩
  rw [hs] at st₁
  rw [hr] at st₂
  exact ⟨_, r.step st₁ |>.step st₂, h0, by decide, by decide⟩

end Chap16
