import Navilnux.Clib.Sleep

namespace Clib.Sleep

open Arm Entry Task Task.Image

variable {L : Image} {m : Memory} {i : Fin maxTaskNum} {f f' : Frame} {own d e : Word}
variable {ticks t : Nat}

namespace Point

def Own (own : Word) : Point → Prop
  | testEnd a | armEnd _ a | dueEnd a | clearEnd a => a = own
  | _                                              => True

def Fresh : Point → Prop
  | test | testEnd _ | arm => True
  | _                      => False

def Arming (d : Word) : Point → Prop
  | armCurrent x | armEnd x _ => x = d
  | _                         => False

def Waiting (d : Word) : Point → Prop
  | test | testEnd _ | due | dueEnd _ | callScheduler => True
  | dueTick x                                         => x = d
  | _                                                 => False

def Waking : Point → Prop
  | clear | clearEnd _ => True
  | _                  => False

end Point

inductive Frame.Valid (ticks : Nat) (e : Word) (f : Frame) : Prop
  | fresh : (f.start = none) → (e = 0) → (f.point.Fresh) → Valid ticks e f
  | arming (t : Nat) : (f.start = some (BitVec.ofNat 32 t)) → (t ≤ ticks) → (e = 0) →
    (f.point.Arming (BitVec.ofNat 32 t + f.sec)) → Valid ticks e f
  | waiting (t : Nat) : (f.start = some (BitVec.ofNat 32 t)) → (t ≤ ticks) →
    (e = BitVec.ofNat 32 t + f.sec) → (f.point.Waiting e) → Valid ticks e f
  | waking (t : Nat) : (f.start = some (BitVec.ofNat 32 t)) → (t + f.sec.toNat ≤ ticks) →
    (f.point.Waking) → Valid ticks e f

structure Frame.Fits (own : Word) (ticks : Nat) (e : Word) (f : Frame) : Prop where
  pos   : 0 < f.sec.toNat
  own   : f.point.Own own
  valid : ticks + f.sec.toNat < 2 ^ 32 → f.Valid ticks e

def Fits (own : Word) (ticks : Nat) (e : Word) : Option Frame → Prop
  | none   => e = 0
  | some f => f.Fits own ticks e

theorem field_sleepEndTick {u : Tcb} :
    field (L.tcb u) NavilFreeTask.sleepEndTick = L.at (.tcb u 17) :=
  field_tcb (j := 17)

theorem toNat_pos {sec : Word} (h : 1 ≤ sec.toInt) : 0 < sec.toNat := by
  rw [BitVec.toInt_eq_toNat_cond] at h
  split at h <;> omega

theorem toNat_deadline {sec : Word} (ht : t ≤ ticks) (hb : ticks + sec.toNat < 2 ^ 32) :
    (BitVec.ofNat 32 t + sec).toNat = t + sec.toNat := by
  have h : (BitVec.ofNat 32 t).toNat = t := Nat.mod_eq_of_lt (by omega)
  rw [BitVec.toNat_add, h, Nat.mod_eq_of_lt (by omega)]

theorem deadline_le_iff {sec : Word} (ht : t ≤ ticks) (hb : ticks + sec.toNat < 2 ^ 32) :
    BitVec.ofNat 32 t + sec ≤ BitVec.ofNat 32 ticks ↔ t + sec.toNat ≤ ticks := by
  have h : (BitVec.ofNat 32 ticks).toNat = ticks := Nat.mod_eq_of_lt (by omega)
  rw [BitVec.le_def, toNat_deadline ht hb, h]

structure AtAccess (L : Image) (m : Memory) (i : Fin maxTaskNum) (ticks : Nat) (f : Frame) : Prop where
  current : m.word L.navilnuxCurrent = L.tcb (.task i)
  tick    : m.word L.navilnuxTimeTick = BitVec.ofNat 32 ticks
  fits    : f.Fits (L.tcb (.task i)) ticks (L.view m (.tcb (.task i) 17))

namespace AtAccess

theorem view_of_ne {v : Var} (h : AtAccess L m i ticks f) (hv : v ≠ .tcb (.task i) 17) :
    L.view (f.access L m).2 v = L.view m v := by
  have hs {w : Word} :
      L.view (m.setWord (field (L.tcb (.task i)) NavilFreeTask.sleepEndTick) w) v = L.view m v := by
    rw [field_sleepEndTick, view_setWord, Function.update_of_ne hv]
  have ho := h.fits.own
  obtain ⟨sec, start, point⟩ := f
  cases point
  case armEnd endTick current => exact ho ▸ hs
  case clearEnd current       => exact ho ▸ hs
  all_goals rfl

theorem view_of_none (h : AtAccess L m i ticks f) (hn : (f.access L m).1 = none) :
    L.view (f.access L m).2 (.tcb (.task i) 17) = 0 := by
  have ho := h.fits.own
  obtain ⟨sec, start, point⟩ := f
  cases point
  case clearEnd current =>
    subst ho
    refine congrArg (L.view · _) (congrArg (m.setWord · 0) field_sleepEndTick) |>.trans ?_
    rw [view_setWord, Function.update_self]
  all_goals nomatch hn

theorem sec_eq (h : (f.access L m).1 = some f') : f'.sec = f.sec := by
  obtain ⟨sec, start, point⟩ := f
  cases point
  case clearEnd => nomatch h
  all_goals
    have he := Option.some.inj h
    subst he
    rfl

theorem own_access (h : AtAccess L m i ticks f) (hf : (f.access L m).1 = some f') :
    f'.point.Own (L.tcb (.task i)) := by
  have hc := h.current
  obtain ⟨sec, start, point⟩ := f
  cases point
  case clearEnd => nomatch hf
  case testEnd current =>
    have hp : f'.point = _ := congrArg Frame.point (Option.some.inj hf).symm
    rw [hp]
    split <;> trivial
  case dueTick endTick =>
    have hp : f'.point = _ := congrArg Frame.point (Option.some.inj hf).symm
    rw [hp]
    split <;> trivial
  all_goals
    have he := Option.some.inj hf
    subst he
    first | exact hc | trivial

end AtAccess

def Accessed (L : Image) (m : Memory) (i : Fin maxTaskNum) (ticks : Nat) (f : Frame) : Prop :=
  ∀ f', (f.access L m).1 = some f' →
    f'.Valid ticks (L.view (f.access L m).2 (.tcb (.task i) 17))

namespace AtAccess

theorem load (ha : f.access L m = (some f', m))
    (hv : f'.Valid ticks (L.view m (.tcb (.task i) 17))) : Accessed L m i ticks f := by
  intro f'' hf
  rw [ha] at hf ⊢
  exact Option.some.inj hf ▸ hv

theorem fresh (h : AtAccess L m i ticks f) (hs : f.start = none)
    (he : L.view m (.tcb (.task i) 17) = 0) (hp : f.point.Fresh) : Accessed L m i ticks f := by
  have ho := h.fits.own
  have ht := h.tick
  obtain ⟨sec, start, point⟩ := f
  subst hs
  cases point
  case test => exact load rfl <| .fresh rfl he trivial
  case testEnd current =>
    subst ho
    have hm : m.word (field (L.tcb (.task i)) NavilFreeTask.sleepEndTick) = 0 :=
      field_sleepEndTick ▸ he
    have ha : Frame.access L m ⟨sec, none, .testEnd (L.tcb (.task i))⟩ =
        (some ⟨sec, none, .arm⟩, m) := by
      simp [Frame.access, hm]
    exact load ha <| .fresh rfl he trivial
  case arm =>
    have hd := congrArg (· + sec) ht
    exact load rfl <| .arming ticks (congrArg some ht) (Nat.le_refl _) he hd
  all_goals exact hp.elim

theorem arming (h : AtAccess L m i ticks f) (hs : f.start = some (BitVec.ofNat 32 t))
    (ht : t ≤ ticks) (he : L.view m (.tcb (.task i) 17) = 0)
    (hp : f.point.Arming (BitVec.ofNat 32 t + f.sec)) : Accessed L m i ticks f := by
  have ho := h.fits.own
  obtain ⟨sec, start, point⟩ := f
  subst hs
  cases point
  case armCurrent endTick => exact load rfl <| .arming t rfl ht he hp
  case armEnd endTick current =>
    subst ho
    intro f' hf
    have hf := Option.some.inj hf
    subst hf
    have hv : L.view (m.setWord (field (L.tcb (.task i)) NavilFreeTask.sleepEndTick) endTick)
        (.tcb (.task i) 17) = endTick := by
      rw [field_sleepEndTick, view_setWord, Function.update_self]
    exact .waiting t rfl ht (hv.trans hp) trivial
  all_goals exact hp.elim

theorem waiting (h : AtAccess L m i ticks f) (hb : ticks + f.sec.toNat < 2 ^ 32)
    (hs : f.start = some (BitVec.ofNat 32 t)) (ht : t ≤ ticks)
    (he : L.view m (.tcb (.task i) 17) = BitVec.ofNat 32 t + f.sec)
    (hp : f.point.Waiting (L.view m (.tcb (.task i) 17))) (hy : f.point ≠ .callScheduler) :
    Accessed L m i ticks f := by
  have hd := toNat_deadline ht hb
  have hpos := h.fits.pos
  have ho := h.fits.own
  have htick := h.tick
  obtain ⟨sec, start, point⟩ := f
  subst hs
  have hv {p : Point} (hp : p.Waiting (L.view m (.tcb (.task i) 17))) :
      Frame.Valid ticks (L.view m (.tcb (.task i) 17)) ⟨sec, some (BitVec.ofNat 32 t), p⟩ :=
    .waiting t rfl ht he hp
  have hm : m.word (field (L.tcb (.task i)) NavilFreeTask.sleepEndTick) =
      L.view m (.tcb (.task i) 17) := field_sleepEndTick ▸ rfl
  cases point
  case test => exact load rfl <| hv trivial
  case testEnd current =>
    subst ho
    -- A deadline is not 0, which would mean that there is none.
    have hne : L.view m (.tcb (.task i) 17) ≠ 0 := by
      intro hz
      rw [← he, hz] at hd
      have hd : 0 = t + sec.toNat := hd
      exact Nat.ne_of_gt (Nat.lt_of_lt_of_le hpos <| Nat.le_add_left _ t) hd.symm
    have ha : Frame.access L m ⟨sec, some (BitVec.ofNat 32 t), .testEnd (L.tcb (.task i))⟩ =
        (some ⟨sec, some (BitVec.ofNat 32 t), .due⟩, m) := by
      simp only [Frame.access, hm, if_neg hne]
    exact load ha <| hv trivial
  case due => exact load rfl <| hv trivial
  case dueEnd current =>
    subst ho
    exact load rfl <| hv hm
  case dueTick endTick =>
    have hp : endTick = L.view m (.tcb (.task i) 17) := hp
    by_cases hle : endTick ≤ m.word L.navilnuxTimeTick
    case pos =>
      have ha : Frame.access L m ⟨sec, some (BitVec.ofNat 32 t), .dueTick endTick⟩ =
          (some ⟨sec, some (BitVec.ofNat 32 t), .clear⟩, m) := by
        simp only [Frame.access, if_pos hle]
      rw [htick, hp, he, deadline_le_iff ht hb] at hle
      exact load ha <| .waking t rfl hle trivial
    case neg =>
      have ha : Frame.access L m ⟨sec, some (BitVec.ofNat 32 t), .dueTick endTick⟩ =
          (some ⟨sec, some (BitVec.ofNat 32 t), .callScheduler⟩, m) := by
        simp only [Frame.access, if_neg hle]
      exact load ha <| hv trivial
  case callScheduler => exact absurd rfl hy
  all_goals exact hp.elim

theorem waking (hs : f.start = some (BitVec.ofNat 32 t)) (ht : t + f.sec.toNat ≤ ticks)
    (hp : f.point.Waking) : Accessed L m i ticks f := by
  obtain ⟨sec, start, point⟩ := f
  subst hs
  cases point
  case clear    => exact load rfl <| .waking t rfl ht trivial
  case clearEnd => exact nofun
  all_goals exact hp.elim

theorem accessed (h : AtAccess L m i ticks f) (hb : ticks + f.sec.toNat < 2 ^ 32)
    (hy : f.point ≠ .callScheduler) : Accessed L m i ticks f := by
  cases h.fits.valid hb
  case fresh hs he hp        => exact h.fresh hs he hp
  case arming t hs ht he hp  => exact h.arming hs ht he hp
  case waiting t hs ht he hp => exact h.waiting hb hs ht he hp hy
  case waking t hs ht hp     => exact waking hs ht hp

theorem fits_access (h : AtAccess L m i ticks f) (hy : f.point ≠ .callScheduler) :
    Fits (L.tcb (.task i)) ticks (L.view (f.access L m).2 (.tcb (.task i) 17)) (f.access L m).1 := by
  cases hf : (f.access L m).1
  case none => exact h.view_of_none hf
  case some f' =>
    have hs := sec_eq hf
    exact ⟨hs ▸ h.fits.pos, h.own_access hf, fun hb => h.accessed (hs ▸ hb) hy f' hf⟩

end AtAccess

namespace Frame

theorem Valid.mono {ticks' : Nat} (h : f.Valid ticks e) (ht' : ticks ≤ ticks') :
    f.Valid ticks' e := by
  cases h
  case fresh hs he hp        => exact .fresh hs he hp
  case arming t hs ht he hp  => exact .arming t hs (Nat.le_trans ht ht') he hp
  case waiting t hs ht he hp => exact .waiting t hs (Nat.le_trans ht ht') he hp
  case waking t hs ht hp     => exact .waking t hs (Nat.le_trans ht ht') hp

theorem Valid.test (h : f.Valid ticks e) (hp : f.point = .callScheduler) :
    Frame.Valid ticks e { f with point := .test } := by
  cases h
  case fresh hf             => rw [hp] at hf; exact hf.elim
  case arming ha            => rw [hp] at ha; exact ha.elim
  case waiting t hs ht he _ => exact .waiting t hs ht he trivial
  case waking hw            => rw [hp] at hw; exact hw.elim

theorem Fits.test (h : f.Fits own ticks e) (hp : f.point = .callScheduler) :
    Frame.Fits own ticks e { f with point := .test } :=
  ⟨h.pos, trivial, fun hb => h.valid hb |>.test hp⟩

end Frame

theorem Fits.mono {ticks' : Nat} {o : Option Frame} (h : Fits own ticks e o) (ht' : ticks ≤ ticks') :
    Fits own ticks' e o := by
  cases o
  case none => exact h
  case some =>
    have ⟨hp, ho, hv⟩ := h
    exact ⟨hp, ho, fun hb => hv (Nat.lt_of_le_of_lt (Nat.add_le_add_right ht' _) hb) |>.mono ht'⟩

end Clib.Sleep
