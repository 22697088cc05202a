import Navilnux.Service.Simulation

namespace Task

open Image Heap

variable {L : Image} {s s₁ s₂ : State} {f a : Word} {fs gs : List Word} {blk : Nat} {m : Memory}

namespace Created

theorem taskCreate_word (h : Created L blk gs s) (hl : gs.length < maxTaskNum)
    (ha : Service.Clear L a) : (taskCreate L f s).2.mem.word a = s.mem.word a := by
  have hm : s.mem.word L.maxTaskId + 1 = BitVec.ofNat 32 gs.length := h.maxTaskId
  have hp := memAlloc_poolAfter h.freeMemPool <| Nat.lt_of_lt_of_le hl h.blocks
  have hw {m : Memory} {j : Nat} {x : Word} (hj : j < NavilFreeTask.words) :
      (m.setWord (field (L.freeTaskPool (BitVec.ofNat 32 gs.length)) j) x).word a = m.word a := by
    rw [field_freeTaskPool ⟨gs.length, hl⟩ hj]
    exact Memory.word_setWord_of_apart (ha _)
  rw [taskCreate, hm, if_neg h.slt_length, hp]
  simp only [if_neg (stackTop_ne_zero <| Nat.lt_trans hl (by decide))]
  simp (disch := decide) only [hw, maxTaskId_eq, Memory.word_setWord_of_apart (ha _)]

theorem navilnuxUser_word (h : Created L blk gs s) (hl : (gs ++ fs).length ≤ maxTaskNum)
    (ha : Service.Clear L a) : (navilnuxUser L fs s).mem.word a = s.mem.word a := by
  induction fs generalizing gs s
  case nil => rfl
  case cons f fs ih =>
    have hlt : gs.length < maxTaskNum := by
      rw [List.length_append, List.length_cons] at hl
      omega
    rw [List.append_cons] at hl
    exact ih (h.concat hlt f) hl |>.trans <| h.taskCreate_word hlt ha

theorem navilnuxUser_view (h₁ : Created L blk gs s₁) (h₂ : Created L blk gs s₂)
    (hl : (gs ++ fs).length ≤ maxTaskNum) (hv : L.view s₁.mem = L.view s₂.mem) :
    L.view (navilnuxUser L fs s₁).mem = L.view (navilnuxUser L fs s₂).mem := by
  induction fs generalizing gs s₁ s₂
  case nil => exact hv
  case cons f fs ih =>
    have hlt : gs.length < maxTaskNum := by
      rw [List.length_append, List.length_cons] at hl
      omega
    rw [List.append_cons] at hl
    refine ih (h₁.concat hlt f) (h₂.concat hlt f) hl ?_
    have ⟨_, he₁, _, hv₁⟩ := h₁.taskCreate_eq hlt f
    have ⟨_, he₂, _, hv₂⟩ := h₂.taskCreate_eq hlt f
    rw [he₁, he₂, hv₁, hv₂, hv]

end Created

theorem schedInit_word (ha : Service.Clear L a) : (schedInit L m).2.word a = m.word a := by
  rw [schedInit]
  split
  case isTrue  => rfl
  case isFalse =>
    simp only [navilnuxCurrentIndex_eq, navilnuxNext_eq, navilnuxCurrent_eq,
      Memory.word_setWord_of_apart (ha _)]

theorem schedInit_view {m' : Memory} (hv : L.view m = L.view m') :
    L.view (schedInit L m).2 = L.view (schedInit L m').2 := by
  have hi : m.word L.maxTaskId = m'.word L.maxTaskId := congrFun hv .maxTaskId
  rw [schedInit, schedInit, hi]
  split
  case isTrue  => exact hv
  case isFalse =>
    simp only [navilnuxCurrentIndex_eq, navilnuxNext_eq, navilnuxCurrent_eq, view_setWord, hv]

end Task

namespace Service

open Arm Entry Task Task.Image
open Message (maxMsg)

variable {L : Image} {F : Syscall → Word} {fs : List Word} {m : Memory} {s : Cpu} {a : Word}

theorem initSlots_word {k : Nat} (hk : k ≤ maxMsg.toNat) (ha : Off L a) :
    (initSlots L k m).word a = m.word a := by
  induction k
  case zero => rfl
  case succ k ih =>
    have hn : (BitVec.ofNat 32 k).toNat = k := Nat.mod_eq_of_lt <| Nat.lt_trans hk (by decide)
    have hi : BitVec.ofNat 32 k < maxMsg := BitVec.lt_def.mpr <| hn.symm ▸ hk
    rw [initSlots, Image.setFlag, Image.setData, Memory.word_setWord_of_apart (ha.flag hi),
      Memory.word_setWord_of_apart (ha.data hi)]
    exact ih (Nat.le_of_succ_le hk)

theorem view_navilnuxInit :
    L.kernel.view (navilnuxInit L F m).mem = L.kernel.view (Task.navilnuxInit L.kernel m).mem := by
  have hv : L.kernel.view (syscallInit L.kernel F <| msgInit L <| taskInit L.kernel m) =
      L.kernel.view (taskInit L.kernel m) := by
    funext v
    refine syscallInit_word_of_apart (fun _ => Boot.syscallvec_apart_at number_lt_syscallNum)
      |>.trans ?_
    exact initSlots_word (Nat.le_refl _) <| .of_kernel Var.offset_lt
  rw [navilnuxInit, Task.navilnuxInit, navilnuxTimeTick_eq, view_setWord, view_setWord, hv]

theorem created_navilnuxInit :
    Created L.kernel Heap.maxMemBlk [] (navilnuxInit L F m) :=
  Task.created_navilnuxInit (L := L.kernel) (m := m) |>.congr (congrFun view_navilnuxInit) rfl

theorem bootMemory_tablesKept (hl : fs.length ≤ maxTaskNum) :
    TablesKept L (navilnuxInit L F m).mem (bootMemory L F fs m) :=
  .of_clear fun _ ha => schedInit_word ha |>.trans <| created_navilnuxInit.navilnuxUser_word hl ha

theorem holds_navilnuxInit {p : Message.NavilMsgMng} :
    Holds L (navilnuxInit L F m).mem (Message.msgInit p) := by
  refine holds_msgInit (m := taskInit L.kernel m) |>.congr ?_
  have hs (a : Word) (ha : ∀ f : Syscall, Memory.Apart (syscallvec L.kernel f.number) a)
      (hc : Clear L.kernel a) : (navilnuxInit L F m).mem.word a =
        (msgInit L <| taskInit L.kernel m).word a :=
    Memory.word_setWord_of_apart (hc .tick) |>.trans <| syscallInit_word_of_apart ha
  exact {
    data hi := hs _ (fun _ => (Off.of_kernel number_lt_syscallNum).data hi |>.symm)
      fun _ => (Off.of_kernel Var.offset_lt).data hi |>.symm
    flag hi := hs _ (fun _ => (Off.of_kernel number_lt_syscallNum).flag hi |>.symm)
      fun _ => (Off.of_kernel Var.offset_lt).flag hi |>.symm
  }

theorem installed_navilnuxInit : Installed L.kernel F (navilnuxInit L F m).mem :=
  fun f => Memory.word_setWord_of_apart (Clear.syscallvec (f := f) .tick) |>.trans <|
    installed_syscallInit f

def Machine.boot (L : Image) (s : Cpu) : Machine :=
  { Entry.Machine.boot L.kernel s with msgmng := Message.msgInit fun _ => ⟨0, 0⟩ }

def bootCpu (L : Image) (F : Syscall → Word) (fs : List Word) : Cpu where
  r _    := 0
  sp _   := 0
  lr _   := 0
  spsr _ := 0
  pc     := 0
  cpsr   := 0x53
  mem    := bootMemory L F fs fun _ => 0

theorem booted_bootCpu : Booted L F fs (bootCpu L F fs) where
  memory  := ⟨fun _ => 0, fun _ _ => rfl, .refl⟩
  control := (by decide : control 0x53 = 0x40 ||| 0x13)

namespace Booted

theorem entry (hb : Booted L F fs s) (hl : fs.length ≤ maxTaskNum) : Entry.Booted L.kernel fs s where
  control := hb.control
  memory  := by
    have ⟨m, hm, _⟩ := hb.memory
    have hc := Task.created_navilnuxInit (L := L.kernel) (m := m)
    have hl : ([] ++ fs).length ≤ maxTaskNum := hl
    have hv := schedInit_view <| created_navilnuxInit.navilnuxUser_view hc hl <|
      view_navilnuxInit (F := F)
    exact ⟨m, fun v hk => hm v hk |>.trans <| congrFun hv v⟩

theorem represents (hb : Booted L F fs s) (hf : fs ≠ []) (hl : fs.length ≤ maxTaskNum) :
    Represents L F fs.length s (.boot L s) := by
  have ⟨_, _, hk⟩ := hb.memory
  have hk := bootMemory_tablesKept hl |>.trans hk
  exact {
    tasks := hb.entry hl |>.represents hf hl
    table := holds_navilnuxInit.congr hk.toTableKept
    calls := installed_congr installed_navilnuxInit hk
  }

end Booted

end Service
