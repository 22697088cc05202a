import Navilnux.Boot.Basic

-- What the numbers of system calls can do to the kernel.
namespace Boot

open Arm Entry Heap Task Task.Image

-- The scheduler is called for its own number, or the function is called that `syscall_init` stored in the
-- entry with the number, or the call is refused.
def Inside (L : Image) (F : Syscall → Word) (n : BitVec 24) : Branch → Prop
  | .scheduler            => n.toNat = syscallNum
  | .function slot target => n.toNat < syscallNum ∧ slot = syscallvec L n ∧
    ∃ f : Syscall, f.number = n ∧ F f = target
  | .refuse _             => True

def TableKept (L : Image) (F : Syscall → Word) (k : Kernel) (m : Memory) : Prop :=
  ∀ n : BitVec 24, n.toNat < syscallNum →
    m.word (syscallvec L n) = (navilnuxInit L F k).mem.word (syscallvec L n)

variable {L : Image} {F : Syscall → Word} {k : Kernel} {m : Memory} {s : Cpu} {n : BitVec 24}

theorem TableKept.installed (h : TableKept L F k m) : Installed L F m :=
  fun f => h _ number_lt_syscallNum |>.trans <| installed_navilnuxInit f

-- The number of the scheduler and the 14 numbers of functions are the only ones that are safe.
theorem inside_iff (h : AtSwi L n s) (hk : TableKept L F k s.mem) :
    Inside L F n (branch L s) ↔ n ≤ 13 ∨ n = 255 := by
  by_cases hn : n = 255
  case pos =>
    have hb := h.branch.trans <| if_pos hn
    rw [hb]
    exact iff_of_true (congrArg BitVec.toNat hn) (.inr hn)
  case neg =>
    have hb := h.branch.trans <| if_neg hn
    rw [hb, or_iff_left hn]
    constructor
    case mp =>
      intro ⟨_, _, f, hf, _⟩
      exact hf ▸ Nat.le_of_lt_succ Syscall.number_toNat_lt
    case mpr =>
      intro hl
      have ⟨f, hf⟩ := Syscall.exists_number hl
      have hlt : n.toNat < syscallNum := hf ▸ number_lt_syscallNum
      refine ⟨hlt, rfl, f, hf, ?_⟩
      rw [pushed_syscallvec hlt, ← hf]
      exact (hk.installed f).symm

def atSwi (F : Syscall → Word) (n : BitVec 24) : Cpu where
  r _    := 0
  sp _   := 0xa04ffffc
  lr _   := 0
  spsr _ := 0
  pc     := userTask1
  cpsr   := startUsrCpsr
  mem    := (navilnuxInit navilnuxElf F .zeroed).mem.setWord userTask1 (0xef#8 ++ n)

theorem atSwi_atSwi : AtSwi navilnuxElf n (atSwi F n) where
  swi     := by
    have h : (0xef#8 ++ n) &&& (0x0f#8 ++ 0#24) = 0x0f#8 ++ 0#24 := by
      rw [BitVec.and_append, BitVec.and_zero]
      rfl
    rw [atSwi, Memory.word_setWord]
    exact h
  number  := by
    rw [atSwi, Memory.word_setWord]
    exact BitVec.setWidth_append_eq_right
  apart i := (text_apart (a := userTask1) (by decide) Var.offset_lt).symm

theorem tableKept_atSwi : TableKept navilnuxElf F .zeroed (atSwi F n).mem :=
  fun _ hn => Memory.word_setWord_of_apart <| text_apart (a := userTask1) (by decide) hn

theorem inside_itcSend :
    Inside navilnuxElf (fun _ => 0xa000a0d8) 2 (branch navilnuxElf (atSwi (fun _ => 0xa000a0d8) 2)) :=
  inside_iff atSwi_atSwi tableKept_atSwi |>.mpr <| .inl <| by decide

-- The number 14 has no function, and the kernel branches to the address 0. The entry for the number 256
-- is behind the table.
theorem stray_numbers :
    let F : Syscall → Word := fun _ => 0xa000a0d8
    (branch navilnuxElf (atSwi F 14) = .function (syscallvec navilnuxElf 14) 0 ∧
      ¬Inside navilnuxElf F 14 (branch navilnuxElf (atSwi F 14))) ∧
    ∃ target, branch navilnuxElf (atSwi F 256) = .function 0xa000bc04 target ∧
      navilnuxElf.base .navilnuxSyscallvec + 4 * syscallNum ≤ 0xa000bc04 ∧
      ¬Inside navilnuxElf F 256 (branch navilnuxElf (atSwi F 256)) := by
  intro F
  have h₁ : branch navilnuxElf (atSwi F 14) = .function (syscallvec navilnuxElf 14) 0 := by
    have hw : (atSwi F 14).mem.word (syscallvec navilnuxElf 14) = 0 :=
      tableKept_atSwi 14 (by decide) |>.trans <| navilnuxInit_word (by decide) (by decide)
    rw [atSwi_atSwi.branch, if_neg (by decide), pushed_syscallvec (by decide), hw]
  have ⟨target, h₂⟩ : ∃ target, branch navilnuxElf (atSwi F 256) = .function 0xa000bc04 target :=
    ⟨_, atSwi_atSwi.branch⟩
  refine ⟨⟨h₁, ?_⟩, target, h₂, by decide, ?_⟩
  · rw [h₁]
    intro ⟨_, _, f, hf, _⟩
    exact absurd (hf ▸ Syscall.number_toNat_lt (f := f)) (by decide)
  · rw [h₂]
    intro ⟨hn, _⟩
    exact absurd hn (by decide)

end Boot
