import Navilnux.Service.Boot

namespace Service

open Arm Entry Task Task.Image
open Message (Call)

variable {L : Image} {F : Syscall → Word} {fs : List Word} {n : Nat} {s₀ s t : Cpu} {a b : Machine}
variable {e : Event} {es : List Event} {f : Syscall} {c : Call} {u : Tcb}

namespace Machine

theorem Step.regs_of_ne (st : Step L n a e b) (hu : u ≠ a.running n) : b.regs u = a.regs u := by
  cases st
  case kernel st => exact st.left.regs_of_ne hu
  all_goals exact Function.update_of_ne hu _ _

theorem Step.control_psr (st : Step L n a e b) :
    control (b.regs u).psr = control (a.regs u).psr := by
  cases st
  case kernel st => exact st.left.control_psr
  all_goals exact Entry.Machine.control_psr_update rfl

theorem control_psr (r : Run (Step L n) a es b) :
    control (b.regs u).psr = control (a.regs u).psr := by
  induction r
  case init       => rfl
  case step st ih => exact st.control_psr.trans ih

theorem selected (r : Run (Step L n) a es b) (ha : a.switches = 0) :
    Entry.Machine.Selected n (kernelEvents es) b.toMachine := by
  induction r
  case init => exact ⟨ha.symm, nofun⟩
  case step st ih =>
    cases st
    case kernel st => exact ih.step st
    all_goals exact ⟨ih.length, ih.nth⟩

end Machine

theorem Machine.Step.message_inv {e : Message.Event} (st : Machine.Step L n a (.message f e) b) :
    ∃ c, messageCall (a.args n) f = some c ∧
      e = ⟨L.kernel.tcb (a.running n), c, (c.exec (L.kernel.tcb (a.running n)) a.msgmng).1⟩ ∧
      b.switches = a.switches ∧ b.msgmng = (c.exec (L.kernel.tcb (a.running n)) a.msgmng).2 := by
  cases st
  case message c hc => exact ⟨c, hc, rfl, rfl, rfl⟩

theorem Machine.Step.irq_inv {icip x : Word} (st : Machine.Step L n a (.kernel <| .irq icip x) b) :
    x = indexAfter n (a.switches + 1) ∧ b.switches = a.switches + 1 ∧ b.msgmng = a.msgmng := by
  cases st
  case kernel st =>
    obtain ⟨st, ht⟩ := st
    cases st
    case tick  => exact ⟨rfl, rfl, rfl⟩
    case other => contradiction

def returning (x : Word × Memory) : Clobber :=
  ⟨fun _ => x.1, 0, 0, fun _ => x.2⟩

theorem Leaves.refl {o : Option Call} {d : Word} {m : Memory} : Leaves L o d m m where
  toTablesKept := .refl
  view _      := rfl
  message _ _ := rfl

namespace Represents

theorem run (h : Represents L F n s a) (hF : Function.Injective F) (hn : 0 < n) (hl : n ≤ maxTaskNum)
    (r : Run (Service.Step L F) s es t) : ∃ b, Run (Machine.Step L n) a es b ∧ Represents L F n t b := by
  induction r
  case init => exact ⟨a, .init, h⟩
  case step st ih =>
    have ⟨_, r, hr⟩ := ih
    have ⟨b, st, hb⟩ := hr.step hF hn hl st
    exact ⟨b, r.step st, hb⟩

theorem program (h : Represents L F n s a) (hm : L.kernel.Agree Var.Private s.mem t.mem)
    (hk : TablesKept L s.mem t.mem) : Represents L F n t
      { a with regs := Function.update a.regs (a.running n) t.context } where
  tasks := h.tasks.compute hm
  table := h.table.congr hk.toTableKept
  calls := installed_congr h.calls hk

theorem exists_irq {icip : Word} (h : Represents L F n s a) (hF : Function.Injective F) (hn : 0 < n)
    (hl : n ≤ maxTaskNum) (hc : Arm.control s.cpsr &&& 0x80 = 0) (ht : Timer icip) :
    ∃ t b, Step L F s (.kernel <| .irq icip <| indexAfter n <| a.switches + 1) t ∧
      Represents L F n t b ∧ b.switches = a.switches + 1 ∧ b.msgmng = a.msgmng := by
  have st := Step.irq (L := L) (F := F) icip default hc ht safe_default (fun _ => TablesKept.refl) rfl
  have ⟨b, sb, hb⟩ := h.step hF hn hl st
  have ⟨he, hs, hm⟩ := sb.irq_inv
  exact ⟨_, b, he ▸ st, hb, hs, hm⟩

theorem answered (h : Represents L F n s a) (hF : Function.Injective F) (hn : 0 < n)
    (hl : n ≤ maxTaskNum) (hs : AtSwi L.kernel f.number s)
    (hc : messageCall (Entry.args s) f = some c)
    (hd : ∀ n, c = .itcGet n → Pointer L (Entry.args s 1)) :
    ∃ t b, Step L F s (.message f ⟨L.kernel.tcb (a.running n), c,
        (c.exec (L.kernel.tcb (a.running n)) a.msgmng).1⟩) t ∧ Represents L F n t b ∧
      b.switches = a.switches ∧ b.msgmng = (c.exec (L.kernel.tcb (a.running n)) a.msgmng).2 := by
  obtain ⟨u, hu⟩ : ∃ u, u = atFunction L.kernel s := ⟨_, rfl⟩
  have hc' := hu ▸ hs.called
  have hg : u.r 11 = F f := by rw [hc'.target, pushed_syscallvec number_lt_syscallNum, h.calls]
  rw [← hc'.args] at hc hd
  have st := Step.message (F := F) f f c (returning <| exec L (Entry.args u 1) u.mem c) hs hu hg hc hd
    rfl .refl rfl
  have ⟨b, sb, hb⟩ := h.step hF hn hl st
  have ⟨c', _, he, hsw, hmsg⟩ := sb.message_inv
  have hc' : c = c' := congrArg Message.Event.call he
  subst hc'
  exact ⟨_, b, he ▸ st, hb, hsw, hmsg⟩

theorem exists_message (h : Represents L F n s a) (hF : Function.Injective F) (hn : 0 < n)
    (hl : n ≤ maxTaskNum) (st : Step L F s (.kernel .compute) t)
    (hs : AtSwi L.kernel f.number t) (hc : messageCall (Entry.args t) f = some c)
    (hd : ∀ n, c = .itcGet n → Pointer L (Entry.args t 1)) :
    ∃ u b, Run (Step L F) s [.message f ⟨L.kernel.tcb (a.running n), c,
        (c.exec (L.kernel.tcb (a.running n)) a.msgmng).1⟩, .kernel .compute] u ∧
      Represents L F n u b ∧ b.switches = a.switches ∧
      b.msgmng = (c.exec (L.kernel.tcb (a.running n)) a.msgmng).2 := by
  have hp : Represents L F n t { a with regs := Function.update a.regs (a.running n) t.context } := by
    cases st
    case compute hm hk => exact h.program hm hk
  have ⟨u, b, st', hb⟩ := hp.answered hF hn hl hs hc hd
  exact ⟨u, b, .step (.single st) st', hb⟩

end Represents

namespace Booted

theorem run (hb : Booted L F fs s₀) (hF : Function.Injective F) (hf : fs ≠ [])
    (hl : fs.length ≤ maxTaskNum) (r : Run (Service.Step L F) s₀ es s) :
    ∃ a, Run (Machine.Step L fs.length) (.boot L s₀) es a ∧ Represents L F fs.length s a :=
  hb.represents hf hl |>.run hF (List.length_pos_iff.mpr hf) hl r

theorem control_run (hb : Booted L F fs s₀) (hF : Function.Injective F) (hf : fs ≠ [])
    (hl : fs.length ≤ maxTaskNum) (r : Run (Service.Step L F) s₀ es s) :
    Arm.control s.cpsr =
      if selections (kernelEvents es) = [] then 0x40 ||| 0x13 else 0x40 ||| 0x10 := by
  have hn := List.length_pos_iff.mpr hf
  have ⟨a, r, ha⟩ := hb.run hF hf hl r
  have hs : selections (kernelEvents es) = [] ↔ a.switches = 0 := by
    rw [← (Machine.selected r rfl).length, List.length_eq_zero_iff]
  have hc := Machine.control_psr (u := a.running fs.length) r
  rw [← ha.tasks.running] at hc
  have hc : Arm.control s.cpsr = _ := hc
  simp only [hc, Entry.Machine.running, hs]
  cases a.switches
  case zero   => exact hb.control
  case succ k =>
    have hk := Nat.mod_lt k hn
    have hi := hb.entry hl |>.initialized (i := ⟨_, Nat.lt_of_lt_of_le hk hl⟩) hl <|
      List.getElem?_eq_getElem hk
    have hp : ((Machine.boot L s₀).regs (Task.selected fs.length (k + 1))).psr = startUsrCpsr := by
      rw [selected_succ hn hl]
      exact hi.spsr
    rw [hp, if_neg (Nat.succ_ne_zero k)]
    decide

theorem interruptible (hb : Booted L F fs s₀) (hF : Function.Injective F) (hf : fs ≠ [])
    (hl : fs.length ≤ maxTaskNum) (r : Run (Service.Step L F) s₀ es s) :
    Arm.control s.cpsr &&& 0x80 = 0 := by
  rw [hb.control_run hF hf hl r]
  split <;> rfl

end Booted

end Service
