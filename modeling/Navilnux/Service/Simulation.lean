import Navilnux.Entry.Theorems.Syscall
import Navilnux.Service.Machine

namespace Service

open Arm Entry Task Task.Image
open Message (Call NavilMsgMng Reply maxMsg)

section Clear

variable {L : Task.Image} {m : Memory} {s : Cpu} {a : Word} {c : Context} {u : Tcb}

def Clear (L : Task.Image) (a : Word) : Prop :=
  ∀ v, Memory.Apart (L.at v) a

namespace Clear

theorem store (h : Clear L a) : (Context.store m (L.tcb u) c).word a = m.word a := by
  refine Context.word_store_of_apart fun i hi => ?_
  have hf : L.tcb u + BitVec.ofNat 32 (4 * i) = L.at (.tcb u ⟨i, Nat.lt_succ_of_lt hi⟩) :=
    field_tcb (j := ⟨i, Nat.lt_succ_of_lt hi⟩)
  exact hf ▸ h _

theorem scheduler (h : Clear L a) : (scheduler L m).word a = m.word a := by
  simp only [Task.scheduler, navilnuxCurrentIndex_eq, navilnuxNext_eq, navilnuxCurrent_eq,
    Memory.word_setWord_of_apart (h _)]

theorem irqHandler (h : Clear L a) {icip : Word} : (irqHandler L icip m).word a = m.word a := by
  rw [Task.irqHandler]
  split
  case isTrue  => rw [h.scheduler, navilnuxTimeTick_eq, Memory.word_setWord_of_apart (h _)]
  case isFalse => rfl

theorem pushed (h : Clear L a) : (pushed s).word a = s.mem.word a :=
  pushed_word fun i hi => at_frame (L := L) ⟨i, hi⟩ ▸ h (.frame ⟨i, hi⟩)

theorem syscallvec {f : Syscall} : Clear L (syscallvec L f.number) :=
  fun _ => Boot.syscallvec_apart_at number_lt_syscallNum |>.symm

end Clear

end Clear

variable {L : Image} {F : Syscall → Word} {n : Nat} {m m' : Memory} {s t u : Cpu} {a : Machine}
variable {k : Clobber} {c : Call} {f : Syscall} {e : Event}

namespace TablesKept

theorem refl : TablesKept L m m where
  data _  := rfl
  flag _  := rfl
  calls _ := rfl

theorem trans {m'' : Memory} (h : TablesKept L m m') (h' : TablesKept L m' m'') :
    TablesKept L m m'' where
  toTableKept := h.toTableKept.trans h'.toTableKept
  calls f     := h'.calls f |>.trans <| h.calls f

theorem of_clear (h : ∀ a, Clear L.kernel a → m'.word a = m.word a) : TablesKept L m m' where
  data hi := h _ fun _ => (Off.of_kernel Var.offset_lt).data hi |>.symm
  flag hi := h _ fun _ => (Off.of_kernel Var.offset_lt).flag hi |>.symm
  calls _ := h _ Clear.syscallvec

end TablesKept

theorem installed_congr (h : Installed L.kernel F m) (hk : TablesKept L m m') :
    Installed L.kernel F m' :=
  fun f => hk.calls f |>.trans <| h f

theorem pushed_tablesKept : TablesKept L s.mem (pushed s) :=
  .of_clear fun _ h => h.pushed

theorem irq_tablesKept {icip : Word} (hk : ∀ m, TablesKept L m (k.mem m))
    (hu : s.mem.word L.kernel.navilnuxCurrent = L.kernel.tcb v) : TablesKept L s.mem
      (run k (navilnuxIrqHandler L.kernel (irqHandler L.kernel icip)) s.takeIrq).mem := by
  rw [irq_switched.mem, hu]
  exact .trans (.of_clear fun _ h => h.irqHandler.trans h.store) <| hk _

theorem yield_tablesKept (hy : AtYield L.kernel s) (hk : ∀ m, TablesKept L m (k.mem m))
    (hu : (pushed s).word L.kernel.navilnuxCurrent = L.kernel.tcb v) :
    TablesKept L s.mem (navilnuxSwiHandler L.kernel k s.takeSwi).mem := by
  rw [(yield_switched hy.swiNumber_eq).mem, hu]
  exact .trans (.of_clear fun _ h => h.scheduler.trans <| h.store.trans h.pushed) <| hk _

theorem answered_zero {c : Context} {r : Word} : (answered c r).r 0 = r := by
  simp [answered]

theorem answered_of_called {g : BitVec 24} (hc : Called L.kernel g s u)
    (hk : ∀ i, L.kernel.view (k.mem (pushed s)) (.frame i) = L.kernel.view (pushed s) (.frame i)) :
    (run k swiReturn (u.call id k)).context = answered s.context (k.r 0) ∧
    (run k swiReturn (u.call id k)).mem = k.mem (pushed s) := by
  classical
  let h : Handler L.kernel := {
    exec _ m := if m = pushed s then k else default
    keeps _ m i := by
      by_cases hm : m = pushed s
      case pos => rw [if_pos hm, hm, hk]
      case neg => rw [if_neg hm]; rfl
  }
  have he : h.exec (args s) (pushed s) = k := if_pos rfl
  have ⟨hr, hm, _⟩ := hc.returned (h := h) he.symm
  rw [he] at hr hm
  exact ⟨hr, hm⟩

structure Serves (L : Image) (f g : Syscall) (k : Clobber) (s u t : Cpu) : Prop where
  same    : f = g
  args    : args u = args s
  mem     : u.mem = pushed s
  context : (∀ i, L.kernel.view (k.mem (pushed s)) (.frame i) = L.kernel.view (pushed s) (.frame i)) →
    t.context = answered s.context (k.r 0) ∧ t.mem = k.mem (pushed s)

theorem serves {g : Syscall} (hF : Function.Injective F) (hi : Installed L.kernel F s.mem)
    (h : AtSwi L.kernel f.number s) (hu : u = atFunction L.kernel s) (hg : u.r 11 = F g)
    (ht : t = navilnuxSwiHandler L.kernel k s.takeSwi) : Serves L f g k s u t := by
  subst hu ht
  have hc := h.called
  have hn : f.number ≠ 255 := fun hn => absurd (hn ▸ Syscall.number_toNat_lt (f := f)) (by decide)
  have hb := h.branch.trans <| if_neg hn
  constructor
  case same =>
    have hw := hc.target
    rw [pushed_syscallvec number_lt_syscallNum, hi] at hw
    exact hF <| hw.symm.trans hg
  case args    => exact hc.args
  case mem     => exact hc.mem
  case context =>
    intro hk
    rw [(handler_of_function hb).left]
    exact answered_of_called hc hk

section Message

variable {d : Word} {p : NavilMsgMng} {g : Reply × NavilMsgMng}

theorem data_ne_none {w : Word} (h : (c.exec w p).1.data ≠ none) : ∃ n, c = .itcGet n := by
  cases c
  case itcGet n => exact ⟨n, rfl⟩
  all_goals exact absurd rfl h

theorem exec_view {w : Word} (h : Implements L d m p (exec L d m c) (c.exec w p))
    (hd : ∀ n, c = .itcGet n → Pointer L d) {v : Var} :
    L.kernel.view (exec L d m c).2 v = L.kernel.view m v := by
  refine h.frame (.of_kernel Var.offset_lt) fun hn => ?_
  have ⟨n, hc⟩ := data_ne_none hn
  exact (hd n hc).view v

theorem exec_calls {w : Word} (h : Implements L d m p (exec L d m c) (c.exec w p))
    (hd : ∀ n, c = .itcGet n → Pointer L d) (f : Syscall) :
    (exec L d m c).2.word (syscallvec L.kernel f.number) = m.word (syscallvec L.kernel f.number) := by
  refine h.frame (.of_kernel number_lt_syscallNum) fun hn => ?_
  have ⟨n, hc⟩ := data_ne_none hn
  exact (hd n hc).calls f

theorem itcGet_data {w i : Word} : ((Call.itcGet i).exec w p).1.data =
    if ((Call.itcGet i).exec w p).1.ret = 0 then some (p i).data else none := by
  simp only [Call.exec, Message.msgItcGet]
  split
  case isTrue => rfl
  case isFalse =>
    split <;> rfl

theorem reply_eq {w : Word} (hr : t.r 0 = (c.exec w p).1.ret)
    (hd : ∀ {v n}, c = .itcGet n → (c.exec w p).1.data = some v → t.mem.word d = v) :
    reply c d t = (c.exec w p).1 := by
  refine Reply.mk.injEq .. |>.mpr ⟨hr, ?_⟩
  cases c
  case itcGet n =>
    have he := itcGet_data (w := w) (p := p) (i := n)
    by_cases h : ((Call.itcGet n).exec w p).1.ret = 0
    case pos =>
      rw [if_pos h] at he
      rw [he]
      exact if_pos (hr.trans h) |>.trans <| congrArg some <| hd rfl he
    case neg =>
      rw [he, if_neg h]
      exact if_neg <| hr ▸ h
  all_goals rfl

end Message

namespace Represents

variable {w : Word}

theorem kernel {e : Entry.Event Word} (h : Represents L F n s a) (hn : 0 < n) (hl : n ≤ maxTaskNum)
    (st : KernelStep L.kernel s e t) (hk : TablesKept L s.mem t.mem) :
    ∃ b, Machine.Step L n a (.kernel e) b ∧ Represents L F n t b := by
  have ⟨b, hb, hr⟩ := h.tasks.step hn hl handles_irqHandler st.tame
  exact ⟨_, .kernel ⟨hb, st.right⟩, hr, h.table.congr hk.toTableKept, installed_congr h.calls hk⟩

theorem current (h : Represents L F n s a) (hn : 0 < n) (hl : n ≤ maxTaskNum) :
    L.kernel.view s.mem .current = L.kernel.tcb (a.running n) :=
  h.tasks.scheduled.current_eq hn hl

theorem current_pushed (h : Represents L F n s a) (hn : 0 < n) (hl : n ≤ maxTaskNum) :
    (pushed s).word L.kernel.navilnuxCurrent = L.kernel.tcb (a.running n) :=
  pushed_agree .current trivial |>.trans <| h.current hn hl

theorem answer (h : Represents L F n s a) (hm : L.kernel.Agree Var.Kept s.mem t.mem)
    (hc : t.context = answered s.context w) :
    Entry.Represents L.kernel n t (a.answer n w).toMachine := by
  have hp : L.kernel.Agree Var.Private s.mem t.mem := by
    intro v hv
    refine hm v ?_
    cases v
    case frame => exact hv
    all_goals trivial
  have hr := h.tasks.compute hp
  rwa [hc, h.tasks.running] at hr

theorem args_eq (h : Represents L F n s a) : Entry.args s = a.args n :=
  funext fun i => congrFun (congrArg Context.r h.tasks.running) (i.castAdd 9)

theorem message {f g : Syscall} (h : Represents L F n s a) (hn : 0 < n) (hl : n ≤ maxTaskNum)
    (hs : Serves L f g k s u t) (hc : messageCall (Entry.args u) g = some c)
    (hd : ∀ n, c = .itcGet n → Pointer L (Entry.args u 1))
    (hr : k.r 0 = (exec L (Entry.args u 1) u.mem c).1)
    (hk : Leaves L (some c) (Entry.args u 1) (exec L (Entry.args u 1) u.mem c).2 (k.mem u.mem)) :
    ∃ b, Machine.Step L n a
      (.message f ⟨L.kernel.view s.mem .current, c, reply c (Entry.args u 1) t⟩) b ∧
      Represents L F n t b := by
  obtain ⟨rfl, ha, hm, ht⟩ := hs
  rw [ha] at hc hd hr hk ⊢
  rw [hm] at hr hk
  have hx := implements_exec (c := c) (h.table.congr pushed_tablesKept.toTableKept)
    (h.current_pushed hn hl) fun he => (hd _ he).off
  have hv (v : Var) : L.kernel.view (k.mem (pushed s)) v = L.kernel.view (pushed s) v := by
    rw [hk.view v]
    exact exec_view hx hd
  have ⟨hcon, hmem⟩ := ht fun i => hv (.frame i)
  have htab : TablesKept L (exec L (Entry.args s 1) (pushed s) c).2 t.mem := by
    rw [hmem]
    exact hk.toTablesKept
  rw [hr, hx.ret] at hcon
  have hrep : reply c (Entry.args s 1) t = (c.exec (L.kernel.tcb (a.running n)) a.msgmng).1 := by
    refine reply_eq (congrFun (congrArg Context.r hcon) 0 |>.trans answered_zero) ?_
    intro v i hi hv
    rw [hmem, hk.message i (congrArg some hi)]
    exact hx.data hv
  rw [hrep, h.current hn hl]
  refine ⟨_, .message f c <| h.args_eq ▸ hc, ?_⟩
  constructor
  case tasks =>
    refine h.answer (fun v hk => ?_) hcon
    rw [hmem]
    exact hv v |>.trans <| pushed_agree v hk
  case table => exact hx.holds.congr htab.toTableKept
  case calls =>
    refine installed_congr (fun g => exec_calls hx hd g |>.trans ?_) htab
    exact installed_congr h.calls pushed_tablesKept g

theorem other {f g : Syscall} (h : Represents L F n s a) (hs : Serves L f g k s u t)
    (hc : messageCall (Entry.args u) g = none) (hk : Leaves L none 0 u.mem (k.mem u.mem)) :
    ∃ b, Machine.Step L n a (.other f) b ∧ Represents L F n t b := by
  obtain ⟨rfl, ha, hm, ht⟩ := hs
  rw [ha] at hc
  rw [hm] at hk
  have ⟨hcon, hmem⟩ := ht fun i => hk.view (.frame i)
  have htab : TablesKept L s.mem t.mem := by
    rw [hmem]
    exact pushed_tablesKept.trans hk.toTablesKept
  refine ⟨_, .other f (k.r 0) <| h.args_eq ▸ hc, ?_, h.table.congr htab.toTableKept,
    installed_congr h.calls htab⟩
  refine h.answer (fun v hv => ?_) hcon
  rw [hmem]
  exact hk.view v |>.trans <| pushed_agree v hv

theorem step (h : Represents L F n s a) (hF : Function.Injective F) (hn : 0 < n) (hl : n ≤ maxTaskNum)
    (st : Step L F s e t) : ∃ b, Machine.Step L n a e b ∧ Represents L F n t b := by
  cases st
  case compute hc hm hk => exact h.kernel hn hl ⟨.compute hc hm, trivial⟩ hk
  case irq icip k hc hi hs hk ht =>
    subst ht
    exact h.kernel hn hl ⟨.irq icip k hc hs rfl, hi⟩ <| irq_tablesKept hk <| h.current hn hl
  case yield k hy hs hk ht =>
    subst ht
    exact h.kernel hn hl ⟨.yield k hy hs rfl, trivial⟩ <| yield_tablesKept hy hk <| h.current_pushed hn hl
  case message hs hu hg hc hd hr hk ht =>
    exact h.message hn hl (serves hF h.calls hs hu hg ht) hc hd hr hk
  case other hs hu hg hc hk ht => exact h.other (serves hF h.calls hs hu hg ht) hc hk

end Represents

end Service
