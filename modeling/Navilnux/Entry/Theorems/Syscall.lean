import Navilnux.Entry.Syscall

namespace Entry

open Arm Task

variable {L : Image} {F : Syscall → Word} {m : Memory} {s u : Cpu} {k : Clobber} {n : BitVec 24}
variable {f : Syscall} {v : Word} {i : Nat}

-- What a program gets from a system call that the function `h` handles: the result in `r0`, and otherwise
-- the registers that it had, at the next instruction. The stack of `svc` mode is empty again.
structure Returned (L : Image) (h : Handler L) (s t : Cpu) : Prop where
  context : t.context = { s.context with
    r  := Function.update s.r 0 ((h.exec (args s) (pushed s)).r 0)
    pc := s.pc + 4
  }
  mem     : t.mem = (h.exec (args s) (pushed s)).mem (pushed s)
  sp      : t.sp .svc = svcStack

structure Transparent (L : Image) (a : Word) (h : Handler L) (s t : Cpu) : Prop
    extends Returned L h s t where
  target : (atFunction L s).r 11 = a
  args   : args (atFunction L s) = args s

def frame (s : Cpu) : List Word :=
  s.cpsr :: r1_r14.map (s.get .usr) ++ [s.pc + 4]

theorem word_pushed (h : (frame s)[i]? = some v) :
    (pushed s).word (svcStack - 64 + BitVec.ofNat 32 (4 * i)) = v := by
  have hi : i < 16 := (List.getElem?_eq_some_iff.mp h).1
  have ha {j : Nat} (hj : j ≠ i) (hl : j < 16) : Memory.Apart
      (svcStack - 64 + BitVec.ofNat 32 (4 * j)) (svcStack - 64 + BitVec.ofNat 32 (4 * i)) :=
    .add hj (by omega) (by omega)
  have hr {j : Nat} : svcStack - 60 + BitVec.ofNat 32 (4 * j) =
      svcStack - 64 + BitVec.ofNat 32 (4 * (j + 1)) := by bv_omega
  rw [pushed]
  cases i
  case zero =>
    have hv : s.cpsr = v := Option.some.inj h
    rw [Nat.mul_zero, BitVec.add_zero, Memory.setWords, Memory.setWords, Memory.word_setWord, hv]
  case succ i =>
    have h : (r1_r14.map (s.get .usr) ++ [s.pc + 4])[i]? = some v := h
    rw [Memory.word_setWords_of_apart]
    · by_cases hl : i < 14
      case pos =>
        rw [List.getElem?_append_left hl] at h
        exact hr ▸ Memory.word_setWords (Nat.lt_of_le_of_lt (Nat.le_refl 14) (by decide)) h
      case neg =>
        obtain rfl : i = 14 := by omega
        have hv : s.pc + 4 = v := Option.some.inj h
        rw [Memory.word_setWords_of_apart]
        · exact hv ▸ Memory.word_setWord
        · intro j hj
          have hj : j < 14 := hj
          rw [hr]
          exact ha (by omega) (by omega)
    · intro j hj
      have hj : j = 0 := Nat.lt_one_iff.mp hj
      exact hj ▸ ha (Nat.succ_ne_zero i).symm (by decide)

@[simp]
theorem length_r1_r14 : r1_r14.length = 14 :=
  rfl

theorem load_r1_r14 {a : Word} : Cpu.load .usr (a + 4#32) r1_r14 s = { s with
    r i := if i = 0 then s.r 0 else s.mem.word (a + BitVec.ofNat 32 (4 * i))
    sp  := Function.update s.sp .usr (s.mem.word (a + BitVec.ofNat 32 (4 * 13)))
    lr  := Function.update s.lr .usr (s.mem.word (a + BitVec.ofNat 32 (4 * 14)))
  } := by
  simp only [r1_r14, r0_r12, List.tail_cons, List.cons_append, List.nil_append, Cpu.load, Cpu.set,
    Cpu.mk.injEq, and_true]
  refine ⟨funext fun i => ?_, ?_, ?_⟩
  · fin_cases i <;> simp [BitVec.add_assoc]
  · simp [BitVec.add_assoc]
  · simp [BitVec.add_assoc]

theorem run_swiReturn {a : Word} (hm : s.mode = .svc) (hs : s.sp .svc = a) :
    (run k swiReturn s).context = {
      psr := s.mem.word a
      r i := if i = 0 then s.r 0 else s.mem.word (a + BitVec.ofNat 32 (4 * i))
      sp  := s.mem.word (a + BitVec.ofNat 32 (4 * 13))
      lr  := s.mem.word (a + BitVec.ofNat 32 (4 * 14))
      pc  := s.mem.word (a + BitVec.ofNat 32 (4 * 15))
    } ∧ (run k swiReturn s).mem = s.mem ∧ (run k swiReturn s).sp .svc = a + 64 := by
  rw [Cpu.mode] at hm
  subst hs
  simp [run, swiReturn, exec, Cpu.set, Cpu.get, Cpu.ldmia, load_r1_r14, Cpu.load, Cpu.ldmiaPc,
    Cpu.mode, hm, Cpu.context, BitVec.add_assoc]

theorem word_frame {h : Handler L} {a : Fin 4 → Word} (hv : (frame s)[i]? = some v) :
    ((h.exec a (pushed s)).mem (pushed s)).word (svcStack - 64 + BitVec.ofNat 32 (4 * i)) = v := by
  have hi : i < 16 := (List.getElem?_eq_some_iff.mp hv).1
  have hk := h.keeps a (pushed s) ⟨i, hi⟩
  rw [Image.view, Image.view, Image.at_frame] at hk
  exact hk.trans <| word_pushed hv

theorem context_of_frame {a r₀ : Word}
    (hw : ∀ {i v}, (frame s)[i]? = some v → m.word (a + BitVec.ofNat 32 (4 * i)) = v) :
    ({
      psr := m.word a
      r i := if i = 0 then r₀ else m.word (a + BitVec.ofNat 32 (4 * i))
      sp  := m.word (a + BitVec.ofNat 32 (4 * 13))
      lr  := m.word (a + BitVec.ofNat 32 (4 * 14))
      pc  := m.word (a + BitVec.ofNat 32 (4 * 15))
    } : Context) = { s.context with r := Function.update s.r 0 r₀, pc := s.pc + 4 } := by
  have h₀ : m.word a = s.cpsr := by
    have h := hw (i := 0) rfl
    rwa [Nat.mul_zero, BitVec.add_zero] at h
  refine Context.ext h₀ (funext fun i => ?_) (hw rfl) (hw rfl) (hw rfl)
  have hr (hi : i ≠ 0) : (frame s)[i.val]? = some (s.r i) := by
    fin_cases i <;> first | rfl | exact absurd rfl hi
  by_cases hi : i = 0
  case pos => simp only [hi, if_true, Function.update_self]
  case neg => simp only [hi, if_false, Function.update_of_ne hi, hw (hr hi)]

theorem Called.returned {h : Handler L} (hu : Called L n s u)
    (hk : k = h.exec (Entry.args s) (pushed s)) :
    Returned L h s (run k swiReturn (u.call id k)) := by
  have ⟨hm, hmem, hsp, _, _⟩ := hu
  have hm : (u.call id k).mode = .svc := by
    simp only [Cpu.mode, Cpu.call, control_append] at *
    exact hm
  have he : (u.call id k).mem = (h.exec (Entry.args s) (pushed s)).mem (pushed s) := by
    rw [← hk, ← hmem]
    rfl
  have hr : (u.call id k).r 0 = (h.exec (Entry.args s) (pushed s)).r 0 := by
    rw [← hk]
    rfl
  have hw {i : Nat} {v : Word} (hv : (frame s)[i]? = some v) :=
    word_frame (h := h) (a := Entry.args s) hv
  obtain ⟨hc, hmem, hs⟩ := run_swiReturn (k := k) hm hsp
  rw [he, hr] at hc
  rw [he] at hmem
  constructor
  case context => exact hc.trans <| context_of_frame hw
  case mem     => exact hmem
  case sp      => exact hs.trans <| by decide

-- A system call besides of the one of the scheduler changes nothing but `r0`.
theorem syscall_transparent {code : Word → Handler L} (h : AtSwi L f.number s)
    (hi : Installed L F s.mem) :
    Transparent L (F f) (code <| F f) s (systemCall L code s) := by
  have hc := h.called
  have hn : f.number ≠ 255 := fun hn => absurd (hn ▸ Syscall.number_toNat_lt (f := f)) (by decide)
  have hb := h.branch.trans <| if_neg hn
  have ht := hc.target
  rw [pushed_syscallvec number_lt_syscallNum, hi] at ht
  rw [systemCall, ht, hc.args, hc.mem, (handler_of_function hb).left]
  exact { hc.returned rfl with target := ht, args := hc.args }

def itcSend : Word := 0xa000a22c

def atItcSend (F : Syscall → Word) (r : Fin 13 → Word) : Cpu where
  r      := r
  sp _   := 0xa04ffffc
  lr _   := 0xa000a594
  spsr _ := 0
  pc     := itcSend
  cpsr   := startUsrCpsr
  mem    := (syscallInit navilnuxElf F fun _ => 0).setWord itcSend 0xef000002

theorem atSwi_itcSend {r : Fin 13 → Word} :
    AtSwi navilnuxElf Syscall.sysItcsend.number (atItcSend F r) where
  swi     := by rw [atItcSend, Memory.word_setWord]; decide
  number  := by rw [atItcSend, Memory.word_setWord]; decide
  apart i := (Image.text_apart (a := itcSend) (by decide) Var.offset_lt).symm

theorem installed_itcSend {r : Fin 13 → Word} : Installed navilnuxElf F (atItcSend F r).mem :=
  fun f => Memory.word_setWord_of_apart (Image.text_apart (by decide) number_lt_syscallNum)
    |>.trans <| installed_syscallInit f

-- Here `sys_itcsend` is at 0xa000a0d8 and returns its first argument, and it changes all registers that it
-- can change.
theorem syscall_transparent_itcSend :
    let h : Handler navilnuxElf := ⟨fun a _ => ⟨fun _ => a 0, 7, 0, id⟩, fun _ _ _ => rfl⟩
    let s := atItcSend (fun f => if f = .sysItcsend then 0xa000a0d8 else 0) (fun i => 3 + i.val)
    Transparent navilnuxElf 0xa000a0d8 h s (systemCall navilnuxElf (fun _ => h) s) := by
  intro h s
  exact @syscall_transparent _ _ s .sysItcsend (fun _ => h) atSwi_itcSend installed_itcSend

end Entry
