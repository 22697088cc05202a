import Navilnux.Clib.Deadline

namespace Clib.Sleep

open Arm Entry Task Task.Image

variable {L : Image} {m : Memory} {i : Fin maxTaskNum} {f : Frame} {d : Word}

structure Invariant (L : Image) (n : Nat) (s : System) : Prop where
  represents : ∃ a, Represents L n s.cpu a
  tick       : L.view s.cpu.mem .tick = BitVec.ofNat 32 s.ticks
  fits       : ∀ i, Fits (L.tcb (.task i)) s.ticks (L.view s.cpu.mem (.tcb (.task i) 17)) (s.frames i)

variable {fs : List Word} {s s' : System} {ev : Entry.Event Word} {c : Cpu} {es : List (Entry.Event Word)}

namespace Invariant

theorem boot (hb : Booted L fs c) (hf : fs ≠ []) (hl : fs.length ≤ maxTaskNum) :
    Invariant L fs.length (.boot c) where
  represents := ⟨_, hb.represents hf hl⟩
  tick       := hb.tick hf hl
  fits _     := hb.sleepEnd hf hl

theorem runs (h : Invariant L fs.length s) (hf : fs ≠ []) (hl : fs.length ≤ maxTaskNum) :
    ∃ u, Runs L s.cpu u :=
  have ⟨_, hr⟩ := h.represents
  ⟨_, hr.runs_iff (List.length_pos_iff.mpr hf) hl |>.mpr rfl⟩

theorem kernelStep (h : Invariant L fs.length s) (hf : fs ≠ []) (hl : fs.length ≤ maxTaskNum)
    (st : KernelStep L s.cpu ev c) : ∃ a, Represents L fs.length c a :=
  have ⟨_, hr⟩ := h.represents
  have ⟨b, _, hb⟩ := kernel_refines hf hl |>.step hr st
  ⟨b, hb⟩

theorem idle (h : Invariant L fs.length s) (hi : s.frames i = none) :
    L.view s.cpu.mem (.tcb (.task i) 17) = 0 := by
  have hfit := h.fits i
  rwa [hi] at hfit

theorem atAccess (h : Invariant L fs.length s) (hu : Runs L s.cpu (.task i))
    (hi : s.frames i = some f) : AtAccess L s.cpu.mem i s.ticks f where
  current := hu
  tick    := h.tick
  fits    := by
    have hfit := h.fits i
    rwa [hi] at hfit

theorem valid (h : Invariant L fs.length s) (hi : s.frames i = some f) (hb : s.InTime f) :
    f.Valid s.ticks (L.view s.cpu.mem (.tcb (.task i) 17)) := by
  have hfit := h.fits i
  rw [hi] at hfit
  exact Frame.Fits.valid hfit hb

theorem fits_update {o : Option Frame} (h : Invariant L fs.length s)
    (hi : Fits (L.tcb (.task i)) s.ticks (L.view m (.tcb (.task i) 17)) o)
    (hne : ∀ j, j ≠ i → L.view m (.tcb (.task j) 17) = L.view s.cpu.mem (.tcb (.task j) 17))
    (j : Fin maxTaskNum) :
    Fits (L.tcb (.task j)) s.ticks (L.view m (.tcb (.task j) 17)) (Function.update s.frames i o j) := by
  by_cases hj : j = i
  case pos =>
    subst hj
    rwa [Function.update_self]
  case neg =>
    rw [Function.update_of_ne hj, hne j hj]
    exact h.fits j

theorem accessStep (h : Invariant L fs.length s) (hu : Runs L s.cpu (.task i))
    (hi : s.frames i = some f) (hc : control c.cpsr = control s.cpu.cpsr)
    (hm : c.mem = (f.access L s.cpu.mem).2) : KernelStep L s.cpu .compute c := by
  refine ⟨.compute hc fun v hp => ?_, trivial⟩
  rw [hm]
  refine h.atAccess hu hi |>.view_of_ne ?_
  rintro rfl
  exact hp rfl

theorem step (h : Invariant L fs.length s) (hf : fs ≠ []) (hl : fs.length ≤ maxTaskNum)
    (st : Step L s ev s') : Invariant L fs.length s' := by
  have ⟨u, hu⟩ := h.runs hf hl
  cases st
  case irq ks =>
    have ⟨ht, hs⟩ := ks.irq_view hu
    refine ⟨h.kernelStep hf hl ks, ?_, fun i => ?_⟩
    · rw [ht, h.tick]
      exact (BitVec.ofNat_add ..).symm
    · rw [hs]
      exact h.fits i |>.mono <| Nat.le_succ _
  case yield _ ks =>
    have ⟨ht, hs⟩ := ks.yield_view hu
    refine ⟨h.kernelStep hf hl ks, ht.trans h.tick, fun i => ?_⟩
    rw [hs]
    exact h.fits i
  case compute ks hs =>
    refine ⟨h.kernelStep hf hl ks, ks.compute_view.trans h.tick, fun i => ?_⟩
    rw [hs]
    exact h.fits i
  case call i c sec hr hi hsec hc hm =>
    have hv (v : Var) : L.view c.mem v = L.view s.cpu.mem v := congrArg (L.view · v) hm
    have ks : KernelStep L s.cpu .compute c := ⟨.compute hc fun v _ => hv v, trivial⟩
    have he := h.idle hi
    refine ⟨h.kernelStep hf hl ks, ks.compute_view.trans h.tick, h.fits_update ?_ fun _ _ => hv _⟩
    exact ⟨toNat_pos hsec, trivial, fun _ => .fresh rfl ((hv _).trans he) trivial⟩
  case access i ha =>
    obtain ⟨hr, hi, hy, hc, hm⟩ := ha
    have ks := h.accessStep hr hi hc hm
    have ha := h.atAccess hr hi
    refine ⟨h.kernelStep hf hl ks, ks.compute_view.trans h.tick, h.fits_update ?_ fun j hj => ?_⟩
    · rw [hm]
      exact ha.fits_access hy
    · rw [hm]
      exact ha.view_of_ne fun he => hj <| Tcb.task.inj (Var.tcb.inj he).left
  case callScheduler i f x c hr hi hp ks =>
    have ⟨ht, hs⟩ := ks.yield_view hu
    refine ⟨h.kernelStep hf hl ks, ht.trans h.tick, h.fits_update ?_ fun j _ => hs _⟩
    rw [hs]
    exact h.atAccess hr hi |>.fits.test hp

theorem of_run (hb : Booted L fs c) (hf : fs ≠ []) (hl : fs.length ≤ maxTaskNum)
    (r : Run (Step L) (.boot c) es s) : Invariant L fs.length s :=
  r.invariant (P := fun _ s => Invariant L fs.length s) (boot hb hf hl) fun _ h st => h.step hf hl st

theorem kernelRun (hb : Booted L fs c) (hf : fs ≠ []) (hl : fs.length ≤ maxTaskNum)
    (r : Run (Step L) (.boot c) es s) : Run (KernelStep L) c es s.cpu := by
  induction r
  case init => exact .init
  case step r st ih =>
    have h := of_run hb hf hl r
    refine ih.step ?_
    cases st
    case irq ks                => exact ks
    case yield _ ks            => exact ks
    case compute ks _          => exact ks
    case callScheduler ks      => exact ks
    case call hc hm            => exact ⟨.compute hc fun v _ => congrArg (L.view · v) hm, trivial⟩
    case access ha =>
      obtain ⟨hr, hi, _, hc, hm⟩ := ha
      exact h.accessStep hr hi hc hm

end Invariant

-- The number of accesses before the return, if the deadline has passed.
def Point.left : Point → Nat
  | arm           => 10
  | armCurrent _  => 9
  | armEnd ..     => 8
  | test          => 7
  | testEnd _     => 6
  | due           => 5
  | dueEnd _      => 4
  | dueTick _     => 3
  | clear         => 2
  | clearEnd _    => 1
  | callScheduler => 7

-- The steps while the task `i` is in `navilnux_sleep`. Its own accesses are marked.
def During (L : Image) (i : Fin maxTaskNum) (s : System) (own : Bool) (s' : System) : Prop :=
  s.frames i ≠ none ∧ (∃ e, Step L s e s') ∧ (own ↔ Access L i s s')

structure SleepExact (L : Image) (s : System) : Prop where
  -- A call that began at the tick `t` does not return before `t + sec`.
  notEarly : ∀ {i f e s'}, s.frames i = some f → s.InTime f → Step L s e s' →
    s'.frames i = none → ∃ t,
    f.start = some t ∧ t.toNat + f.sec.toNat ≤ (L.view s.cpu.mem .tick).toNat
  -- Its test succeeds from then on ...
  wakes    : ∀ {i f d t s'}, s.frames i = some f → s.InTime f → f.point = .dueTick d →
    f.start = some t → t.toNat + f.sec.toNat ≤ (L.view s.cpu.mem .tick).toNat → Access L i s s' →
    s'.frames i = some { f with point := .clear }
  -- ... and whatever happens in between, it returns after a fixed number of its accesses.
  returns  : ∀ {i f t bs s'}, s.frames i = some f → f.start = some t →
    t.toNat + f.sec.toNat ≤ (L.view s.cpu.mem .tick).toNat → Run (During L i) s bs s' → s'.InTime f →
    (s'.frames i = none ↔ bs.count true = f.point.left) ∧
    (∀ f', s'.frames i = some f' → f'.point.left + bs.count true = f.point.left) ∧
    (s'.frames i = none → L.view s'.cpu.mem (.tcb (.task i) 17) = 0)
  accesses : ∀ {i f}, s.frames i = some f → f.point ≠ .callScheduler → Runs L s.cpu (.task i) →
    ∃ s', Access L i s s'
  -- Only the running task changes a deadline, and only its own.
  own      : ∀ {u e s'}, Step L s e s' →
    L.view s'.cpu.mem (.tcb u 17) ≠ L.view s.cpu.mem (.tcb u 17) →
    ∃ i, u = .task i ∧ Runs L s.cpu (.task i) ∧ s.frames i ≠ none
  idle     : ∀ {i}, s.frames i = none → L.view s.cpu.mem (.tcb (.task i) 17) = 0

theorem Point.left_pos {p : Point} : 0 < p.left := by
  cases p <;> exact Nat.succ_pos _

theorem Access.runs (ha : Access L i s s') : Runs L s.cpu (.task i) := by
  cases ha
  case intro hr _ _ _ _ => exact hr

theorem Access.frames (ha : Access L i s s') (hi : s.frames i = some f) :
    f.point ≠ .callScheduler ∧ s'.frames i = (f.access L s.cpu.mem).1 := by
  cases ha
  case intro hf hy _ _ =>
    have hf := Option.some.inj <| hi.symm.trans hf
    subst hf
    exact ⟨hy, Function.update_self ..⟩

theorem exists_access (hr : Runs L s.cpu (.task i)) (hi : s.frames i = some f)
    (hy : f.point ≠ .callScheduler) : ∃ s', Access L i s s' := by
  let c := { s.cpu with mem := (f.access L s.cpu.mem).2 }
  exact ⟨_, .intro (c := c) hr hi hy rfl rfl⟩

theorem Step.frames (st : Step L s ev s') (hi : s.frames i = some f) :
    s'.frames i = some f ∨ Access L i s s' ∨
    f.point = .callScheduler ∧ s'.frames i = some { f with point := .test } := by
  cases st
  case call j _ _ _ hj _ _ _ =>
    have hne : i ≠ j := by
      rintro rfl
      nomatch hi.symm.trans hj
    exact .inl <| (Function.update_of_ne hne _ _).trans hi
  case access j ha =>
    by_cases hij : i = j
    case pos => exact .inr <| .inl <| hij ▸ ha
    case neg =>
      obtain ⟨_, hj, _, _, _⟩ := ha
      exact .inl <| (Function.update_of_ne hij _ _).trans hi
  case callScheduler j f' _ _ hr hj hp _ =>
    by_cases hij : i = j
    case pos =>
      subst hij
      have hf := Option.some.inj <| hi.symm.trans hj
      subst hf
      exact .inr <| .inr ⟨hp, Function.update_self ..⟩
    case neg => exact .inl <| (Function.update_of_ne hij _ _).trans hi
  all_goals exact .inl hi

theorem Access.ticks (ha : Access L i s s') : s'.ticks = s.ticks := by
  cases ha
  rfl

theorem Step.ticks_le (st : Step L s ev s') : s.ticks ≤ s'.ticks := by
  cases st
  case irq       => exact Nat.le_succ _
  case access ha => exact Nat.le_of_eq ha.ticks.symm
  all_goals exact Nat.le_refl _

theorem Frame.access_eq_none (h : (f.access L m).1 = none) : ∃ a, f.point = .clearEnd a := by
  obtain ⟨sec, start, point⟩ := f
  cases point
  case clearEnd a => exact ⟨a, rfl⟩
  all_goals nomatch h

namespace AtAccess

variable {ticks : Nat} {t a : Word}

theorem due (h : AtAccess L m i ticks f) (hb : ticks + f.sec.toNat < 2 ^ 32) (hp : f.point = .dueTick d)
    (hs : f.start = some t) (ht : t.toNat + f.sec.toNat ≤ ticks) : d ≤ m.word L.navilnuxTimeTick := by
  cases h.fits.valid hb
  case fresh hf  => rw [hp] at hf; exact hf.elim
  case arming ha => rw [hp] at ha; exact ha.elim
  case waking hw => rw [hp] at hw; exact hw.elim
  case waiting t' hs' ht' hd hw =>
    rw [hp] at hw
    have hd : d = BitVec.ofNat 32 t' + f.sec := Eq.trans hw hd
    have hst := Option.some.inj <| hs.symm.trans hs'
    rw [hst, BitVec.toNat_ofNat, Nat.mod_eq_of_lt (by omega)] at ht
    rwa [hd, h.tick, deadline_le_iff ht' hb]

theorem armed (h : AtAccess L m i ticks f) (hb : ticks + f.sec.toNat < 2 ^ 32) (hp : f.point = .testEnd a)
    (hs : f.start = some t) : m.word (field a NavilFreeTask.sleepEndTick) ≠ 0 := by
  have hpos := h.fits.pos
  have ho := h.fits.own
  cases h.fits.valid hb
  case fresh hn _ _ => nomatch hs.symm.trans hn
  case arming ha    => rw [hp] at ha; exact ha.elim
  case waking hw    => rw [hp] at hw; exact hw.elim
  case waiting t' _ ht' hd _ =>
    rw [hp] at ho
    have ho : a = L.tcb (.task i) := ho
    have hm : m.word (field a NavilFreeTask.sleepEndTick) = BitVec.ofNat 32 t' + f.sec := by
      rw [ho, field_sleepEndTick]
      exact hd
    intro hz
    have hn := toNat_deadline ht' hb
    rw [← hm, hz] at hn
    have hn : 0 = t' + f.sec.toNat := hn
    omega

theorem left_access (h : AtAccess L m i ticks f) (hb : ticks + f.sec.toNat < 2 ^ 32)
    (hs : f.start = some t) (ht : t.toNat + f.sec.toNat ≤ ticks) (hy : f.point ≠ .callScheduler) :
    ((f.access L m).1.elim 0 fun f' => f'.point.left) + 1 = f.point.left ∧
    ∀ f', (f.access L m).1 = some f' → f'.start = f.start := by
  have hdue {d : Word} (hp : f.point = .dueTick d) := h.due hb hp hs ht
  have harmed {a : Word} (hp : f.point = .testEnd a) := h.armed hb hp hs
  have hv := h.fits.valid hb
  obtain ⟨sec, start, point⟩ := f
  cases point
  case testEnd a =>
    simp only [Frame.access, if_neg (harmed rfl)]
    exact ⟨rfl, fun _ he => Option.some.inj he ▸ rfl⟩
  case dueTick d =>
    simp only [Frame.access, if_pos (hdue rfl)]
    exact ⟨rfl, fun _ he => Option.some.inj he ▸ rfl⟩
  case arm =>
    cases hv
    case fresh hn _ _ => exact absurd (hs.symm.trans hn) <| Option.some_ne_none t
    case arming ha    => exact ha.elim
    case waiting hw   => exact hw.elim
    case waking hw    => exact hw.elim
  case callScheduler => exact absurd rfl hy
  all_goals simp [Frame.access, Point.left]

end AtAccess

namespace Invariant

theorem tick_toNat (h : Invariant L fs.length s) (hb : s.InTime f) :
    (L.view s.cpu.mem .tick).toNat = s.ticks := by
  rw [h.tick]
  exact Nat.mod_eq_of_lt <| Nat.lt_of_le_of_lt (Nat.le_add_right _ _) hb

theorem notEarly (h : Invariant L fs.length s) (hi : s.frames i = some f) (hb : s.InTime f)
    (st : Step L s ev s') (hn : s'.frames i = none) :
    ∃ t, f.start = some t ∧ t.toNat + f.sec.toNat ≤ (L.view s.cpu.mem .tick).toNat := by
  have ha : (f.access L s.cpu.mem).1 = none := by
    rcases st.frames hi with he | ha | ⟨_, he⟩
    · nomatch hn.symm.trans he
    · exact (ha.frames hi).right.symm.trans hn
    · nomatch hn.symm.trans he
  have ⟨a, hp⟩ := Frame.access_eq_none ha
  have hv := h.valid hi hb
  rw [h.tick_toNat hb]
  cases hv
  case fresh hf         => rw [hp] at hf; exact hf.elim
  case arming ha        => rw [hp] at ha; exact ha.elim
  case waiting hw       => rw [hp] at hw; exact hw.elim
  case waking t hs ht _ =>
    refine ⟨_, hs, ?_⟩
    have hb : s.ticks + f.sec.toNat < 2 ^ 32 := hb
    rwa [BitVec.toNat_ofNat, Nat.mod_eq_of_lt (by omega)]

theorem wakes {t : Word} (h : Invariant L fs.length s) (hi : s.frames i = some f)
    (hb : s.InTime f) (hp : f.point = .dueTick d) (hs : f.start = some t)
    (ht : t.toNat + f.sec.toNat ≤ (L.view s.cpu.mem .tick).toNat) (ha : Access L i s s') :
    s'.frames i = some { f with point := .clear } := by
  rw [h.tick_toNat hb] at ht
  have hle := h.atAccess ha.runs hi |>.due hb hp hs ht
  rw [(ha.frames hi).right]
  simp only [Frame.access, hp, if_pos hle]

end Invariant

structure Nearing (i : Fin maxTaskNum) (f : Frame) (n : Nat) (s : System) : Prop where
  inside  : ∀ f', s.frames i = some f' →
    f'.sec = f.sec ∧ f'.start = f.start ∧ f'.point.left + n = f.point.left
  outside : s.frames i = none → n = f.point.left

theorem Nearing.access {n : Nat} {t : Word} (h : Nearing i f n s) (hI : Invariant L fs.length s)
    (hb : s.InTime f) (hs : f.start = some t) (ht : t.toNat + f.sec.toNat ≤ s.ticks)
    (hn : s.frames i ≠ none) (ha : Access L i s s') : Nearing i f (n + 1) s' := by
  have ⟨g, hg⟩ := Option.ne_none_iff_exists'.mp hn
  have ⟨hsec, hstart, hl⟩ := h.inside g hg
  have ⟨hy, he⟩ := ha.frames hg
  have hb : s.ticks + g.sec.toNat < 2 ^ 32 := hsec ▸ hb
  have ⟨hleft, hkept⟩ := hI.atAccess ha.runs hg |>.left_access hb (hstart.trans hs) (hsec ▸ ht) hy
  constructor
  case inside =>
    intro f' hf
    rw [he] at hf
    rw [hf] at hleft
    have hleft : f'.point.left + 1 = g.point.left := hleft
    exact ⟨(AtAccess.sec_eq hf).trans hsec, (hkept f' hf).trans hstart, by omega⟩
  case outside =>
    intro hf
    rw [he] at hf
    rw [hf] at hleft
    have hleft : 0 + 1 = g.point.left := hleft
    omega

theorem Nearing.other {n : Nat} (h : Nearing i f n s) (hn : s.frames i ≠ none) (st : Step L s ev s')
    (ha : ¬Access L i s s') : Nearing i f n s' := by
  have ⟨g, hg⟩ := Option.ne_none_iff_exists'.mp hn
  have ⟨hsec, hstart, hl⟩ := h.inside g hg
  rcases st.frames hg with he | ha' | ⟨hp, he⟩
  case inl =>
    exact ⟨fun f' hf => h.inside f' <| hg.trans <| he.symm.trans hf, fun hf => nomatch he.symm.trans hf⟩
  case inr.inl => exact absurd ha' ha
  case inr.inr =>
    refine ⟨fun f' hf => ?_, fun hf => nomatch he.symm.trans hf⟩
    have hf := Option.some.inj <| he.symm.trans hf
    subst hf
    rw [hp] at hl
    exact ⟨hsec, hstart, hl⟩

namespace Invariant

theorem nearing {t : Word} {bs : List Bool} (h : Invariant L fs.length s) (hf : fs ≠ [])
    (hl : fs.length ≤ maxTaskNum) (hi : s.frames i = some f) (hs : f.start = some t)
    (ht : t.toNat + f.sec.toNat ≤ s.ticks) (r : Run (During L i) s bs s') :
    Invariant L fs.length s' ∧ s.ticks ≤ s'.ticks ∧ (s'.InTime f → Nearing i f (bs.count true) s') := by
  refine r.invariant (P := fun bs s' => Invariant L fs.length s' ∧ s.ticks ≤ s'.ticks ∧
    (s'.InTime f → Nearing i f (bs.count true) s')) ⟨h, Nat.le_refl _, fun _ => ?_⟩ ?_
  case refine_1 =>
    refine ⟨fun f' hf' => ?_, fun hn => nomatch hi.symm.trans hn⟩
    have he := Option.some.inj <| hi.symm.trans hf'
    exact he ▸ ⟨rfl, rfl, rfl⟩
  case refine_2 =>
    intro bs s₁ own s₂ _ ⟨h, hle, hN⟩ ⟨hn, ⟨_, st⟩, ho⟩
    have hle' := st.ticks_le
    refine ⟨h.step hf hl st, Nat.le_trans hle hle', fun hb => ?_⟩
    have hb : s₁.InTime f := Nat.lt_of_le_of_lt (Nat.add_le_add_right hle' _) hb
    cases own
    case true  =>
      rw [List.count_cons_self]
      exact (hN hb).access h hb hs (Nat.le_trans ht hle) hn (ho.mp rfl)
    case false => exact (hN hb).other hn st fun ha => nomatch ho.mpr ha

theorem returns {t : Word} {bs : List Bool} (h : Invariant L fs.length s) (hf : fs ≠ [])
    (hl : fs.length ≤ maxTaskNum) (hi : s.frames i = some f) (hs : f.start = some t)
    (ht : t.toNat + f.sec.toNat ≤ (L.view s.cpu.mem .tick).toNat) (r : Run (During L i) s bs s')
    (hb : s'.InTime f) :
    (s'.frames i = none ↔ bs.count true = f.point.left) ∧
    (∀ f', s'.frames i = some f' → f'.point.left + bs.count true = f.point.left) ∧
    (s'.frames i = none → L.view s'.cpu.mem (.tcb (.task i) 17) = 0) := by
  have hticks : (L.view s.cpu.mem .tick).toNat ≤ s.ticks := by
    rw [h.tick]
    exact Nat.mod_le _ _
  have ⟨h', _, hN⟩ := h.nearing hf hl hi hs (Nat.le_trans ht hticks) r
  refine ⟨⟨(hN hb).outside, fun hc => ?_⟩, fun f' hf' => ((hN hb).inside f' hf').right.right, h'.idle⟩
  by_contra hn
  have ⟨f', hf'⟩ := Option.ne_none_iff_exists'.mp hn
  have ⟨_, _, he⟩ := (hN hb).inside f' hf'
  have := Point.left_pos (p := f'.point)
  omega

theorem changes_own {u : Tcb} (h : Invariant L fs.length s) (hf : fs ≠ [])
    (hl : fs.length ≤ maxTaskNum) (st : Step L s ev s')
    (hne : L.view s'.cpu.mem (.tcb u 17) ≠ L.view s.cpu.mem (.tcb u 17)) :
    ∃ i, u = .task i ∧ Runs L s.cpu (.task i) ∧ s.frames i ≠ none := by
  have ⟨_, hu⟩ := h.runs hf hl
  cases st
  case irq ks                    => exact absurd (ks.irq_view hu |>.right u) hne
  case yield _ ks                => exact absurd (ks.yield_view hu |>.right u) hne
  case compute _ hs              => exact absurd (hs u) hne
  case call hm                   => exact absurd (congrArg (L.view · _) hm) hne
  case callScheduler ks          => exact absurd (ks.yield_view hu |>.right u) hne
  case access i ha =>
    obtain ⟨hr, hi, hy, hc, hm⟩ := ha
    rw [hm] at hne
    by_cases he : u = .task i
    case pos => exact ⟨i, he, hr, hi ▸ nofun⟩
    case neg =>
      have ha := h.atAccess hr hi
      exact absurd (ha.view_of_ne fun hv => he (Var.tcb.inj hv).left) hne

end Invariant

-- Tasks sleep for the time that they asked for, however they are interrupted.
theorem sleep_exact (hf : fs ≠ []) (hl : fs.length ≤ maxTaskNum) (hb : Booted L fs c)
    (r : Run (Step L) (.boot c) es s) : SleepExact L s := by
  have h := Invariant.of_run hb hf hl r
  constructor
  case notEarly => exact h.notEarly
  case wakes    => exact h.wakes
  case returns  => exact h.returns hf hl
  case accesses => exact fun hi hy hr => exists_access hr hi hy
  case own      => exact h.changes_own hf hl
  case idle     => exact h.idle

structure Sleeping (n : Nat) (e : Word) (f : Frame) (s : System) : Prop where
  run      : ∃ es, Run (Step navilnuxElf) (.boot (bootCpu navilnuxElf [userTask1])) es s
  runs     : Runs navilnuxElf s.cpu (.task 0)
  frame    : s.frames 0 = some f
  ticks    : s.ticks = n
  deadline : navilnuxElf.view s.cpu.mem (.tcb (.task 0) 17) = e

namespace Sleeping

variable {n : Nat} {e e' : Word}

theorem invariant (h : Sleeping n e f s) : Invariant navilnuxElf [userTask1].length s :=
  have ⟨_, r⟩ := h.run
  .of_run .bootCpu (List.cons_ne_nil _ _) (by decide) r

theorem irq (h : Sleeping n e f s) : ∃ s', Sleeping (n + 1) e f s' := by
  have ⟨_, r⟩ := h.run
  have hb : Booted navilnuxElf [userTask1] (bootCpu navilnuxElf [userTask1]) := .bootCpu
  have hf : [userTask1] ≠ [] := List.cons_ne_nil _ _
  have hk := Invariant.kernelRun hb hf (by decide) r
  have ⟨x, c, ks⟩ := hb.exists_irq hf (by decide) hk (by decide : Timer 0x08000000)
  have hr := hb.runs hf (by decide) <| hk.step ks
  have ⟨_, hs⟩ := ks.irq_view h.runs
  rw [selections_cons, List.length_append] at hr
  have hsel {k : Nat} : selected 1 (k + 1) = .task 0 := by
    rw [selected, Nat.mod_one]
    rfl
  have hr : Runs navilnuxElf c (selected 1 (_ + 1)) := hr
  rw [hsel] at hr
  exact ⟨_, ⟨_, r.step <| .irq ks⟩, hr, h.frame, congrArg (· + 1) h.ticks, (hs _).trans h.deadline⟩

theorem next (h : Sleeping n e f s) (hy : f.point ≠ .callScheduler)
    (ha : ∀ m : Memory, m.word navilnuxElf.navilnuxCurrent = navilnuxElf.tcb (.task 0) →
      m.word navilnuxElf.navilnuxTimeTick = BitVec.ofNat 32 n →
      navilnuxElf.view m (.tcb (.task 0) 17) = e → (f.access navilnuxElf m).1 = some f' ∧
      navilnuxElf.view (f.access navilnuxElf m).2 (.tcb (.task 0) 17) = e') :
    ∃ s', Access navilnuxElf 0 s s' ∧ Sleeping n e' f' s' := by
  have ⟨_, r⟩ := h.run
  have ⟨hf, he⟩ := ha s.cpu.mem h.runs (h.invariant.tick.trans <| congrArg _ h.ticks) h.deadline
  let c := { s.cpu with mem := (f.access navilnuxElf s.cpu.mem).2 }
  have hs : Access navilnuxElf 0 s _ := .intro (c := c) h.runs h.frame hy rfl rfl
  have hv := h.invariant.atAccess h.runs h.frame |>.view_of_ne (v := .current) nofun
  have hf := (hs.frames h.frame).right.trans hf
  exact ⟨_, hs, ⟨_, r.step <| .access hs⟩, hv.trans h.runs, hf, h.ticks, he⟩

theorem first : ∃ s, Sleeping 1 0 ⟨1, none, .test⟩ s := by
  have hb : Booted navilnuxElf [userTask1] (bootCpu navilnuxElf [userTask1]) := .bootCpu
  have hf : [userTask1] ≠ [] := List.cons_ne_nil _ _
  have ⟨x, c, ks⟩ := hb.exists_irq hf (by decide) .init (by decide : Timer 0x08000000)
  have hr : Runs navilnuxElf c (.task 0) := hb.runs hf (by decide) (.single ks)
  have r : Run (Step navilnuxElf) (.boot (bootCpu navilnuxElf [userTask1])) _ _ := .single (.irq ks)
  have hi := Invariant.of_run hb hf (by decide) r
  have r := r.step <| .call (i := 0) (c := c) 1 hr rfl (by decide) rfl rfl
  exact ⟨_, ⟨_, r⟩, hr, rfl, rfl, hi.idle rfl⟩

theorem word_sleepEndTick {m : Memory} :
    m.word (field (navilnuxElf.tcb (.task 0)) NavilFreeTask.sleepEndTick) =
      navilnuxElf.view m (.tcb (.task 0) 17) :=
  field_sleepEndTick ▸ rfl

theorem armed (h : Sleeping 1 0 ⟨1, none, .test⟩ s) : ∃ s, Sleeping 1 2 ⟨1, some 1, .test⟩ s := by
  obtain ⟨_, _, h⟩ : ∃ s', _ ∧ Sleeping 1 0 ⟨1, none, .testEnd (navilnuxElf.tcb (.task 0))⟩ s' :=
    h.next (by simp) fun m hc _ he => ⟨by simp only [Frame.access, hc], he⟩
  obtain ⟨_, _, h⟩ : ∃ s', _ ∧ Sleeping 1 0 ⟨1, none, .arm⟩ s' :=
    h.next (by simp) fun m _ _ he => ⟨by simp only [Frame.access, word_sleepEndTick, he, if_true], he⟩
  obtain ⟨_, _, h⟩ : ∃ s', _ ∧ Sleeping 1 0 ⟨1, some 1, .armCurrent 2⟩ s' :=
    h.next (by simp) fun m _ ht he => ⟨by simp only [Frame.access, ht]; rfl, he⟩
  obtain ⟨s₁, _, h⟩ : ∃ s', _ ∧ Sleeping 1 0 ⟨1, some 1, .armEnd 2 (navilnuxElf.tcb (.task 0))⟩ s' :=
    h.next (by simp) fun m hc _ he => ⟨by simp only [Frame.access, hc], he⟩
  obtain ⟨_, _, h⟩ : ∃ s', Access navilnuxElf 0 s₁ s' ∧ Sleeping 1 2 ⟨1, some 1, .test⟩ s' := by
    refine h.next (by simp) fun m _ _ _ => ⟨rfl, ?_⟩
    simp only [Frame.access]
    rw [field_sleepEndTick, view_setWord, Function.update_self]
  exact ⟨_, h⟩

theorem loaded (h : Sleeping 1 2 ⟨1, some 1, .test⟩ s) : ∃ s, Sleeping 1 2 ⟨1, some 1, .dueTick 2⟩ s := by
  have hne : ¬(2 : Word) = 0 := by decide
  obtain ⟨_, _, h⟩ : ∃ s', _ ∧ Sleeping 1 2 ⟨1, some 1, .testEnd (navilnuxElf.tcb (.task 0))⟩ s' :=
    h.next (by simp) fun m hc _ he => ⟨by simp only [Frame.access, hc], he⟩
  obtain ⟨_, _, h⟩ : ∃ s', _ ∧ Sleeping 1 2 ⟨1, some 1, .due⟩ s' :=
    h.next (by simp) fun m _ _ he => ⟨by simp only [Frame.access, word_sleepEndTick, he, if_neg hne], he⟩
  obtain ⟨_, _, h⟩ : ∃ s', _ ∧ Sleeping 1 2 ⟨1, some 1, .dueEnd (navilnuxElf.tcb (.task 0))⟩ s' :=
    h.next (by simp) fun m hc _ he => ⟨by simp only [Frame.access, hc], he⟩
  obtain ⟨_, _, h⟩ : ∃ s', _ ∧ Sleeping 1 2 ⟨1, some 1, .dueTick 2⟩ s' :=
    h.next (by simp) fun m _ _ he => ⟨by simp only [Frame.access, word_sleepEndTick, he], he⟩
  exact ⟨_, h⟩

theorem returned (h : Sleeping 2 2 ⟨1, some 1, .dueTick 2⟩ s) :
    ∃ s', Run (During navilnuxElf 0) s [true, true, true] s' ∧ s'.ticks = 2 := by
  have during {f : Frame} {s s' : System} (hf : s.frames 0 = some f) (ha : Access navilnuxElf 0 s s') :
      During navilnuxElf 0 s true s' :=
    ⟨hf ▸ Option.some_ne_none f, ⟨_, .access ha⟩, iff_of_true rfl ha⟩
  obtain ⟨_, a₁, h₁⟩ : ∃ s', _ ∧ Sleeping 2 2 ⟨1, some 1, .clear⟩ s' :=
    h.next (by simp) fun m _ ht he => ⟨by simp only [Frame.access, ht]; rfl, he⟩
  obtain ⟨_, a₂, h₂⟩ : ∃ s', _ ∧ Sleeping 2 2 ⟨1, some 1, .clearEnd (navilnuxElf.tcb (.task 0))⟩ s' :=
    h₁.next (by simp) fun m hc _ he => ⟨by simp only [Frame.access, hc], he⟩
  obtain ⟨s', a₃⟩ := exists_access h₂.runs h₂.frame (by simp)
  have r := Run.single (during h.frame a₁) |>.step (during h₁.frame a₂) |>.step (during h₂.frame a₃)
  exact ⟨s', r, a₃.ticks.trans h₂.ticks⟩

end Sleeping

-- The only task calls `navilnux_sleep(1)` at the tick 1, and tests its deadline at the tick 2. Then it
-- returns with its next two accesses.
theorem sleep_exact_one_tick : ∃ (es : List (Entry.Event Word)) (s s' : System),
    Run (Step navilnuxElf) (.boot (bootCpu navilnuxElf [userTask1])) es s ∧
    s.frames 0 = some ⟨1, some 1, .dueTick 2⟩ ∧ SleepExact navilnuxElf s ∧
    Run (During navilnuxElf 0) s [true, true, true] s' ∧ s'.frames 0 = none := by
  have ⟨_, h⟩ := Sleeping.first
  have ⟨_, h⟩ := h.armed
  have ⟨_, h⟩ := h.loaded
  have ⟨s, h⟩ := h.irq
  have ⟨es, r⟩ := h.run
  have ⟨s', rd, hticks⟩ := h.returned
  have he : SleepExact navilnuxElf s := sleep_exact (List.cons_ne_nil _ _) (by decide) .bootCpu r
  have hb {s : System} (ht : s.ticks = 2) : s.InTime ⟨1, some 1, .dueTick 2⟩ := by
    rw [System.InTime, ht]
    decide
  have ht : (1 : Word).toNat + (1 : Word).toNat ≤ (navilnuxElf.view s.cpu.mem .tick).toNat := by
    rw [h.invariant.tick_toNat (hb h.ticks), h.ticks]
    decide
  exact ⟨es, s, s', r, h.frame, he, rd, he.returns h.frame rfl ht rd (hb hticks) |>.left.mpr rfl⟩

end Clib.Sleep
