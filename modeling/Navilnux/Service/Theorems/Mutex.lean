import Navilnux.Message.Theorems.Mutex
import Navilnux.Service.Theorems.Refines

namespace Message

theorem Holds.exists_mem {t m : Word} {es : List Event} (h : Holds t m es) : ∃ e ∈ es, e.task = t := by
  induction es
  case nil => exact absurd h id
  case cons e es ih =>
    rw [Holds] at h
    split at h
    case isTrue he => exact ⟨e, List.mem_cons_self .., he.left⟩
    case isFalse =>
      split at h
      case isTrue => exact absurd h id
      case isFalse =>
        obtain ⟨e', hm, he⟩ := ih h
        exact ⟨e', List.mem_cons_of_mem _ hm, he⟩

end Message

-- Mutual exclusion in the whole system: the tasks are interrupted at any time, and the owner of a mutex is
-- in the memory.
namespace Service

open Arm Entry Task Task.Image
open Message (Call NavilMsgMng Objects mutexStart mutexEnd)

variable {L : Image} {F : Syscall → Word} {fs : List Word} {n : Nat} {s₀ s t : Cpu} {a b : Machine}
variable {e : Event} {es : List Event} {u v : Tcb} {m : Word}

def Owns (L : Image) (u : Tcb) (m : Word) (es : List Event) : Prop :=
  Message.Holds (L.kernel.tcb u) m (messages es)

def running (n : Nat) (es : List Event) : Tcb :=
  selected n (selections <| kernelEvents es).length

structure Exclusive (L : Image) (F : Syscall → Word) (n : Nat) (es : List Event) (s : Cpu) : Prop where
  unique  : ∀ {m u v}, m ≤ mutexEnd - mutexStart → Owns L u m es → Owns L v m es → u = v
  -- The slot in the memory has the owner.
  slot    : ∀ {m}, m ≤ mutexEnd - mutexStart →
    (∀ u, ¬Owns L u m es) ∧ L.data s.mem (m + mutexStart) = 0 ∧ L.flag s.mem (m + mutexStart) = 0 ∨
    (∃ u, Owns L u m es ∧ L.data s.mem (m + mutexStart) = L.kernel.tcb u ∧
      L.flag s.mem (m + mutexStart) = 1)
  -- What the program that runs finds in `r0` after the next system call.
  wait    : ∀ {f e t m}, m ≤ mutexEnd - mutexStart → e.call = .mutexWait m →
    Step L F s (.message f e) t →
    t.r 0 = 0 ∧ (∀ u, ¬Owns L u m es) ∨ t.r 0 = -2 ∧ (∃ u, Owns L u m es)
  release : ∀ {f e t m}, m ≤ mutexEnd - mutexStart → e.call = .mutexRelease m →
    Step L F s (.message f e) t →
    t.r 0 = 0 ∧ Owns L (running n es) m es ∨ t.r 0 = -2 ∧ ¬Owns L (running n es) m es

theorem tcb_ne_zero : L.kernel.tcb u ≠ 0 := by
  intro h
  have hn := congrArg BitVec.toNat h
  have ht : (L.kernel.tcb u).toNat = _ := Layout.addr_toNat (Var.offset_lt (v := .tcb u 0))
  rw [ht] at hn
  have hp := L.positive (.kernel (Var.tcb u 0).global)
  exact absurd hn <| Nat.ne_of_gt <| Nat.add_pos_left hp _

theorem tcb_injective (h : L.kernel.tcb u = L.kernel.tcb v) : u = v :=
  Var.tcb.inj (at_inj h) |>.left

theorem Step.ret {f : Syscall} {e : Message.Event} (st : Step L F s (.message f e) t) :
    t.r 0 = e.reply.ret := by
  cases st
  rfl

namespace Machine

theorem messages_run (r : Run (Step L n) a es b) (hi : ∀ e ∈ messages es, e.call.ItcInRange) :
    Run Message.TaskStep a.msgmng (messages es) b.msgmng := by
  induction r
  case init => exact .init
  case step st ih =>
    cases st
    case message f c hc =>
      have ⟨hc, hi⟩ := List.forall_mem_cons.mp hi
      exact .step (ih hi) ⟨.intro _ c, tcb_ne_zero, hc⟩
    all_goals exact ih hi

theorem message_task (r : Run (Step L n) a es b) : ∀ e ∈ messages es, ∃ u, e.task = L.kernel.tcb u := by
  induction r
  case init => exact nofun
  case step st ih =>
    cases st
    case message => exact List.forall_mem_cons.mpr ⟨⟨_, rfl⟩, ih⟩
    all_goals exact ih

end Machine

structure Locks (L : Image) (n : Nat) (es : List Event) (s : Cpu) (a : Machine) (o : Objects) : Prop where
  owner    : ∀ {m u}, m ≤ mutexEnd - mutexStart → (Owns L u m es ↔ o.owner m = some (L.kernel.tcb u))
  task     : ∀ {m w}, m ≤ mutexEnd - mutexStart → o.owner m = some w → ∃ u, w = L.kernel.tcb u
  table    : Message.Represents a.msgmng o
  running  : a.running n = running n es

theorem Locks.of_run (r : Run (Machine.Step L n) (.boot L s₀) es a)
    (hi : ∀ e ∈ messages es, e.call.ItcInRange) : ∃ o, Locks L n es s a o := by
  have ⟨o, ro, ho⟩ := Message.refines.run .init <| Machine.messages_run r hi
  rw [List.map_id] at ro
  refine ⟨o, ?_⟩
  constructor
  case owner   => exact fun hm => Objects.holds_iff_owner ro hm
  case table   => exact ho
  case running => rw [Service.running, Machine.selected r rfl |>.length, Entry.Machine.running]
  case task    =>
    intro m w hm hw
    obtain ⟨e, he, ht⟩ := (Objects.holds_iff_owner ro hm).mpr hw |>.exists_mem
    obtain ⟨u, hu⟩ := Machine.message_task r e he
    exact ⟨u, ht.symm.trans hu⟩

theorem Locks.free {o : Objects} (h : Locks L n es s a o) (hm : m ≤ mutexEnd - mutexStart)
    (ho : o.owner m = none) : ∀ u, ¬Owns L u m es := by
  intro u hu
  have he := h.owner hm |>.mp hu
  rw [ho] at he
  cases he

-- In the whole system, a mutex has at most one owner, its slot in the memory names the owner, and the
-- running task gets or releases a mutex exactly if it may do so.
theorem exclusive (hb : Booted L F fs s₀) (hF : Function.Injective F) (hf : fs ≠ [])
    (hl : fs.length ≤ maxTaskNum) (hi : ∀ e ∈ messages es, e.call.ItcInRange)
    (r : Run (Step L F) s₀ es s) : Exclusive L F fs.length es s := by
  have hn := List.length_pos_iff.mpr hf
  have ⟨a, r, h⟩ := hb.run hF hf hl r
  have ⟨o, ho⟩ := Locks.of_run (s := s) r hi
  have hstep {f : Syscall} {e : Message.Event} {t : Cpu} (hc : e.call.ItcInRange)
      (st : Step L F s (.message f e) t) :
      t.r 0 = (o.exec (L.kernel.tcb <| a.running fs.length) e.call).1.ret := by
    have ⟨b, sb, _⟩ := h.step hF hn hl st
    have ⟨c, _, he, _⟩ := sb.message_inv
    subst he
    rw [st.ret, (ho.table.exec tcb_ne_zero hc).left]
  constructor
  case unique =>
    intro m u v hm hu hv
    have hu := ho.owner hm |>.mp hu
    have hv := ho.owner hm |>.mp hv
    exact tcb_injective <| Option.some.inj <| hu.symm.trans hv
  case slot =>
    intro m hm
    have hlt := Implements.mutex_lt hm
    rw [h.table.data hlt, h.table.flag hlt, ho.table.owner hm]
    cases hw : o.owner m
    case none   => exact .inl ⟨ho.free hm hw, rfl, rfl⟩
    case some w =>
      have ⟨u, hu⟩ := ho.task hm hw
      subst hu
      exact .inr ⟨u, ho.owner hm |>.mpr hw, rfl, rfl⟩
  case wait =>
    intro f e t m hm hc st
    rw [hstep (hc ▸ trivial) st, hc]
    simp only [Objects.exec, if_pos hm]
    cases hw : o.owner m
    case none   => exact .inl ⟨rfl, ho.free hm hw⟩
    case some w =>
      have ⟨u, hu⟩ := ho.task hm hw
      subst hu
      exact .inr ⟨rfl, u, ho.owner hm |>.mpr hw⟩
  case release =>
    intro f e t m hm hc st
    rw [hstep (hc ▸ trivial) st, hc, ho.owner hm, ← ho.running]
    simp only [Objects.exec, if_pos hm]
    split
    case isTrue hw  => exact .inl ⟨rfl, hw⟩
    case isFalse hw => exact .inr ⟨rfl, hw⟩

theorem exclusive_competition : ∃ s, Exclusive navilnuxElf sysAddress 2 competition s := by
  have ⟨s, r⟩ := competition_run
  refine ⟨s, exclusive booted_twoTasks sysAddress_injective (List.cons_ne_nil _ _) (by decide) ?_ r⟩
  exact List.forall_mem_cons.mpr ⟨trivial, List.forall_mem_cons.mpr ⟨trivial, nofun⟩⟩

end Service
