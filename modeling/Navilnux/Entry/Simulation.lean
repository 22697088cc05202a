import Navilnux.Entry.Machine

namespace Entry

open Arm Task Image

variable {L : Image} {n j : Nat} {s t : Cpu} {m m' : Memory} {x y : Var → Word} {c : Context}
variable {regs : Tcb → Context}

theorem load_tcb {u : Tcb} : Context.load m (L.tcb u) = savedContext (L.view m) u := by
  have hf (j : Fin NavilFreeTask.words) :
      m.word (L.tcb u + BitVec.ofNat 32 (4 * j)) = L.view m (.tcb u j) := congrArg _ field_tcb
  exact Context.ext rfl (funext fun i => hf ⟨i + 1, _⟩) (hf 14) (hf 15) (hf 16)

theorem savedContext_congr {u : Tcb} (h : ∀ j, j ≠ 17 → x (.tcb u j) = y (.tcb u j)) :
    savedContext x u = savedContext y u := by
  have hr (i : Fin 13) : (i + 1 : Nat) ≠ 17 := by omega
  exact Context.ext (h 0 (by decide)) (funext fun i => h _ fun he => hr i <| congrArg Fin.val he)
    (h 14 (by decide)) (h 15 (by decide)) (h 16 (by decide))

theorem savedContext_store {u : Tcb} :
    savedContext (L.view (Context.store m (L.tcb u) c)) u = c :=
  load_tcb.symm.trans Context.load_store

theorem view_store {u : Tcb} {v : Var} (h : ∀ j, v = .tcb u j → j = 17) :
    L.view (Context.store m (L.tcb u) c) v = L.view m v := by
  refine Context.word_store_of_apart fun i hi => ?_
  have hf : L.tcb u + BitVec.ofNat 32 (4 * i) = L.at (.tcb u ⟨i, Nat.lt_succ_of_lt hi⟩) :=
    field_tcb (j := ⟨i, Nat.lt_succ_of_lt hi⟩)
  refine hf ▸ at_apart fun hv => ?_
  have hj := congrArg Fin.val <| h _ hv.symm
  exact Nat.ne_of_lt hi hj

-- No program runs: all registers are in the TCBs.
structure Stored (L : Image) (n j : Nat) (regs : Tcb → Context) (x : Var → Word) : Prop where
  scheduled : Scheduled L n j x
  saved     : ∀ u, savedContext x u = regs u

namespace Stored

theorem congr (h : Stored L n j regs x) (he : ∀ v, v.Kept → y v = x v) : Stored L n j regs y where
  scheduled := h.scheduled.congr (he _ trivial) (he _ trivial) (he _ trivial) (he _ trivial)
  saved u   := savedContext_congr (fun _ _ => he _ trivial) |>.trans <| h.saved u

theorem schedule (h : Stored L n j regs x) (hn : 0 < n) (hl : n ≤ maxTaskNum) :
    Stored L n (j + 1) regs (schedule L x) where
  scheduled := h.scheduled.step hn <| Nat.lt_of_le_of_lt hl <| by decide
  saved u   := savedContext_congr (fun _ _ => rfl) |>.trans <| h.saved u

theorem tick {w : Word} (h : Stored L n j regs x) :
    Stored L n j regs (Function.update x .tick w) where
  scheduled := h.scheduled.congr rfl rfl rfl rfl
  saved u   := savedContext_congr (fun _ _ => rfl) |>.trans <| h.saved u

theorem represents (h : Stored L n j regs (L.view t.mem)) (hn : 0 < n) (hl : n ≤ maxTaskNum)
    (hj : j ≠ 0) (hc : t.context = Context.load t.mem (t.mem.word L.navilnuxNext)) :
    Represents L n t ⟨j, regs⟩ where
  scheduled := h.scheduled
  running   := by
    have hx : t.mem.word L.navilnuxNext = L.tcb (selected n j) := h.scheduled.next_eq hn hl hj
    rw [hc, hx, load_tcb, h.saved]
    rfl
  saved _   := h.saved _

end Stored

theorem pushed_agree : L.Agree Var.Kept s.mem (pushed s) := by
  intro v hv
  refine pushed_word fun i hi => ?_
  have hne : .frame ⟨i, hi⟩ ≠ v := by
    rintro rfl
    exact hv
  have ha := at_apart (L := L) hne
  rwa [at_frame] at ha

theorem AtYield.swiNumber_eq (hy : AtYield L s) : swiNumber s = sysCallSched := by
  rw [swiNumber, pushed_word fun i hi => ?_, hy.number]
  exact at_frame (L := L) ⟨i, hi⟩ ▸ hy.apart ⟨i, hi⟩

namespace Represents

variable {a : Machine} {ι : Type} {irqHandler : ι → Memory → Memory} {timer : ι → Prop} {i : ι}
variable {k : Clobber}

theorem store (h : Represents L n s a) (hn : 0 < n) (hl : n ≤ maxTaskNum)
    (hm : L.Agree Var.Kept s.mem m) :
    Stored L n a.switches (Function.update a.regs (a.running n) c)
      (L.view (Context.store m (m.word L.navilnuxCurrent) c)) := by
  have hc : m.word L.navilnuxCurrent = L.tcb (a.running n) :=
    (hm .current trivial).trans <| h.scheduled.current_eq hn hl
  rw [hc]
  constructor
  case scheduled =>
    have hv {v : Var} (hv : ∀ u j, v ≠ .tcb u j) (hk : v.Kept) :
        L.view (Context.store m (L.tcb (a.running n)) c) v = L.view s.mem v :=
      view_store (fun j he => absurd he <| hv _ j) |>.trans <| hm v hk
    exact h.scheduled.congr (hv nofun trivial) (hv nofun trivial) (hv nofun trivial)
      (hv nofun trivial)
  case saved =>
    intro u
    by_cases hu : u = a.running n
    case pos => rw [hu, Function.update_self, savedContext_store]
    case neg =>
      rw [Function.update_of_ne hu, ← h.saved hu]
      refine savedContext_congr fun j _ => ?_
      exact view_store (fun _ he => absurd (Var.tcb.inj he).left hu) |>.trans <| hm _ trivial

theorem irq_tick (h : Represents L n s a) (hn : 0 < n) (hl : n ≤ maxTaskNum)
    (hi : Handles L irqHandler timer) (ht : timer i) (hk : Safe L k) :
    Represents L n (run k (navilnuxIrqHandler L (irqHandler i)) s.takeIrq)
      { a with switches := a.switches + 1 } := by
  have hs := irq_switched (L := L) (k := k) (f := irqHandler i) (s := s)
  have hst := h.store (c := s.context) hn hl fun _ _ => rfl
  have hst := hst.tick (w := _) |>.schedule hn hl |>.congr fun v hv => hi.tick ht hv
  have hst := hst.congr fun v hv => hk _ v hv
  rw [← hs.mem] at hst
  have hr := hst.represents hn hl (Nat.succ_ne_zero _) hs.context
  rwa [h.running, Function.update_eq_self] at hr

theorem irq_stored (h : Represents L n s a) (hn : 0 < n) (hl : n ≤ maxTaskNum)
    (hi : Handles L irqHandler timer) (ht : ¬timer i) (hk : Safe L k) :
    Stored L n a.switches a.regs
      (L.view (run k (navilnuxIrqHandler L (irqHandler i)) s.takeIrq).mem) := by
  have hs := irq_switched (L := L) (k := k) (f := irqHandler i) (s := s)
  have hst := h.store (c := s.context) hn hl fun _ _ => rfl
  have hst := hst.congr (fun v hv => hi.other ht hv) |>.congr fun v hv => hk _ v hv
  rwa [← hs.mem, h.running, Function.update_eq_self] at hst

theorem irq_other (h : Represents L n s a) (hn : 0 < n) (hl : n ≤ maxTaskNum)
    (hi : Handles L irqHandler timer) (ht : ¬timer i) (ha : a.switches ≠ 0) (hk : Safe L k) :
    Represents L n (run k (navilnuxIrqHandler L (irqHandler i)) s.takeIrq) a :=
  h.irq_stored hn hl hi ht hk |>.represents hn hl ha irq_switched.context

theorem yield (h : Represents L n s a) (hn : 0 < n) (hl : n ≤ maxTaskNum) (hy : AtYield L s)
    (hk : Safe L k) :
    Represents L n (navilnuxSwiHandler L k s.takeSwi) {
      switches := a.switches + 1
      regs     := Function.update a.regs (a.running n) (yielded (a.regs (a.running n)))
    } := by
  have hs := yield_switched (L := L) (k := k) hy.swiNumber_eq
  have hst := h.store (c := yielded s.context) hn hl pushed_agree
  have hst := hst.schedule hn hl
  rw [← view_scheduler] at hst
  have hst := hst.congr fun v hv => hk _ v hv
  rw [← hs.mem] at hst
  have hr := hst.represents hn hl (Nat.succ_ne_zero _) hs.context
  rwa [h.running] at hr

theorem compute (h : Represents L n s a)
    (hm : L.Agree Var.Private s.mem t.mem) :
    Represents L n t { a with regs := Function.update a.regs (a.running n) t.context } where
  scheduled := h.scheduled.congr (hm _ trivial) (hm _ trivial) (hm _ trivial) (hm _ trivial)
  running   := (Function.update_self (a.running n) t.context a.regs).symm
  saved {u} hu := by
    have hu : u ≠ a.running n := hu
    have hs := savedContext_congr (x := L.view t.mem) (u := u) fun _ hj => hm _ hj
    exact hs.trans <| (h.saved hu).trans (Function.update_of_ne hu _ _).symm

theorem runs_iff {u : Tcb} (h : Represents L n s a) (hn : 0 < n) (hl : n ≤ maxTaskNum) :
    Runs L s u ↔ a.running n = u := by
  rw [Runs, h.scheduled.current_eq hn hl]
  exact ⟨fun he => (Var.tcb.inj <| at_inj he).left, congrArg _⟩

theorem runs_dummy_iff (h : Represents L n s a) (hn : 0 < n) (hl : n ≤ maxTaskNum) :
    Runs L s .dummy ↔ a.switches = 0 := by
  rw [h.runs_iff hn hl, Machine.running]
  cases a.switches
  case zero => exact iff_of_true rfl rfl
  case succ => rw [selected_succ hn hl]; exact iff_of_false nofun nofun

theorem step {e : Event ι} (h : Represents L n s a) (hn : 0 < n) (hl : n ≤ maxTaskNum)
    (hi : Handles L irqHandler timer) (st : TameStep L irqHandler timer s e t) :
    ∃ b, Machine.Step n timer a e b ∧ Represents L n t b := by
  have ⟨st, hd⟩ := st
  cases st
  case compute hc hm =>
    exact ⟨_, .compute t.context <| h.running ▸ hc, h.compute hm⟩
  case yield k hy hk ht =>
    subst ht
    have hr := h.yield hn hl hy hk
    exact ⟨_, hr.scheduled.index ▸ .yield, hr⟩
  case irq i k he hk ht =>
    subst ht
    by_cases ht : timer i
    case pos =>
      have hr := h.irq_tick hn hl hi ht hk
      exact ⟨_, hr.scheduled.index ▸ .tick ht, hr⟩
    case neg =>
      have ha := h.runs_dummy_iff hn hl |>.not.mp <| (hd i _ rfl).resolve_left ht
      have hr := h.irq_other hn hl hi ht ha hk
      exact ⟨_, hr.scheduled.index ▸ .other ht, hr⟩

end Represents

end Entry
