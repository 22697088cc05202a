import Navilnux.Task.Basic

-- The variables of the kernel as they are seen by the proofs: one word each, and independent of each
-- other.
namespace Task

inductive Tcb
  | dummy
  | task (i : Fin maxTaskNum)
  deriving DecidableEq

inductive Var
  | current
  | next
  | index
  | tick
  | maxTaskId
  | tcb (t : Tcb) (j : Fin NavilFreeTask.words)
  | frame (k : Fin 16)
  deriving DecidableEq

namespace Var

def global : Var → Global
  | current         => .navilnuxCurrent
  | next            => .navilnuxNext
  | index           => .navilnuxCurrentIndex
  | tick            => .navilnuxTimeTick
  | maxTaskId       => .taskmng
  | tcb .dummy _    => .dummyTCB
  | tcb (.task _) _ => .taskmng
  | frame _         => .svcFrame

def offset : Var → Nat
  | maxTaskId       => NavilFreeTask.words * maxTaskNum
  | tcb .dummy j    => j
  | tcb (.task i) j => NavilFreeTask.words * i + j
  | frame k         => k
  | _               => 0

theorem offset_lt {v : Var} : v.offset < v.global.words := by
  cases v
  case tcb t j =>
    cases t
    case dummy  => exact j.isLt
    case task i =>
      have := i.isLt
      have := j.isLt
      simp only [offset, global, Global.words, NavilFreeTask.words, maxTaskNum] at *
      omega
  case frame k => exact k.isLt
  all_goals decide

def ofOffset : Global → Nat → Option Var
  | .navilnuxCurrent, _      => current
  | .navilnuxNext, _         => next
  | .navilnuxCurrentIndex, _ => index
  | .navilnuxTimeTick, _     => tick
  | .dummyTCB, j             => if h : j < NavilFreeTask.words then tcb .dummy ⟨j, h⟩ else none
  | .navilnuxSyscallvec, _   => none
  | .svcFrame, k             => if h : k < 16 then frame ⟨k, h⟩ else none
  | .taskmng, k              =>
    if h : k / NavilFreeTask.words < maxTaskNum then
      tcb (.task ⟨k / NavilFreeTask.words, h⟩)
        ⟨k % NavilFreeTask.words, Nat.mod_lt k (by decide)⟩
    else maxTaskId

theorem ofOffset_offset {v : Var} : ofOffset v.global v.offset = some v := by
  cases v
  case tcb t j =>
    cases t
    case dummy  => exact dif_pos j.isLt
    case task i =>
      have hd : (NavilFreeTask.words * i + j) / NavilFreeTask.words = i := by
        rw [Nat.mul_add_div (by decide), Nat.div_eq_of_lt j.isLt, Nat.add_zero]
      have hm : (NavilFreeTask.words * i + j) % NavilFreeTask.words = j := by
        rw [Nat.mul_add_mod, Nat.mod_eq_of_lt j.isLt]
      simp only [ofOffset, global, offset, hd, hm, i.isLt, dif_pos]
  case frame k => exact dif_pos k.isLt
  all_goals rfl

end Var

variable {L : Image} {m m' : Memory} {v w : Var} {x : Word}

def Image.at (L : Image) (v : Var) : Word :=
  L.addr v.global v.offset

def Image.view (L : Image) (m : Memory) (v : Var) : Word :=
  m.word (L.at v)

namespace Image

theorem at_inj (h : L.at v = L.at w) : v = w := by
  have ⟨hg, ho⟩ := Layout.addr_inj Var.offset_lt Var.offset_lt h
  have h := (hg ▸ ho ▸ Var.ofOffset_offset (v := v)).symm.trans Var.ofOffset_offset
  exact Option.some.inj h

theorem at_apart (h : v ≠ w) : Memory.Apart (L.at v) (L.at w) :=
  .of_aligned (Layout.addr_aligned Var.offset_lt) (Layout.addr_aligned Var.offset_lt)
    fun ha => h <| at_inj ha

theorem at_frame (i : Fin 16) : L.at (.frame i) = svcStack - 64 + BitVec.ofNat 32 (4 * i) := by
  have h : L.base .svcFrame = 0xa02fffc0 := Nat.add_right_cancel L.svcFrame
  simp only [Image.at, Layout.addr, Var.global, Var.offset, h, svcStack]
  bv_omega

def tcb (L : Image) (t : Tcb) : Word :=
  L.at (.tcb t 0)

theorem field_tcb {t : Tcb} {j : Fin NavilFreeTask.words} : field (L.tcb t) j = L.at (.tcb t j) := by
  cases t
  case dummy  => exact Layout.addr_add .. |>.trans <| congrArg _ <| Nat.zero_add _
  case task i => exact Layout.addr_add ..

theorem freeTaskPool_ofNat (i : Fin maxTaskNum) :
    L.freeTaskPool (BitVec.ofNat 32 i) = L.tcb (.task i) := by
  rw [freeTaskPool, ← BitVec.ofNat_mul, Nat.mul_assoc]
  exact Layout.addr_add .. |>.trans <| congrArg _ <| Nat.zero_add _

@[simp]
theorem view_setWord : L.view (m.setWord (L.at v) x) = Function.update (L.view m) v x := by
  ext w : 1
  by_cases h : w = v
  case pos =>
    subst h
    rw [view, Memory.word_setWord, Function.update_self]
  case neg =>
    rw [view, Memory.word_setWord_of_apart (at_apart (Ne.symm h)), Function.update_of_ne h, view]

theorem field_freeTaskPool (i : Fin maxTaskNum) {j : Nat} (hj : j < NavilFreeTask.words) :
    field (L.freeTaskPool (BitVec.ofNat 32 i)) j = L.at (.tcb (.task i) ⟨j, hj⟩) := by
  rw [freeTaskPool_ofNat]
  exact field_tcb (j := ⟨j, hj⟩)

theorem view_setField (i : Fin maxTaskNum) {j : Nat} (hj : j < NavilFreeTask.words) :
    L.view (m.setWord (field (L.freeTaskPool (BitVec.ofNat 32 i)) j) x) =
    Function.update (L.view m) (.tcb (.task i) ⟨j, hj⟩) x := by
  rw [field_freeTaskPool i hj, view_setWord]

-- The code in the file `navilnux_elf` is in front of the variables.
theorem text_apart {a : Word} {o : Global} {i : Nat} (ha : a.toNat < 0xa000aa64)
    (hi : i < o.words) : Memory.Apart a (navilnuxElf.addr o i) := by
  have hb : 0xa000aa68 ≤ navilnuxElf.base o := by cases o <;> decide
  have hv : (navilnuxElf.addr o i).toNat = navilnuxElf.base o + 4 * i := Layout.addr_toNat hi
  have hl := navilnuxElf.bounded o
  exact .of_le (by omega) (by omega)

theorem word_at : m.word (L.at v) = L.view m v :=
  rfl

theorem navilnuxCurrent_eq : L.navilnuxCurrent = L.at .current :=
  rfl

theorem navilnuxNext_eq : L.navilnuxNext = L.at .next :=
  rfl

theorem navilnuxCurrentIndex_eq : L.navilnuxCurrentIndex = L.at .index :=
  rfl

theorem navilnuxTimeTick_eq : L.navilnuxTimeTick = L.at .tick :=
  rfl

theorem maxTaskId_eq : L.maxTaskId = L.at .maxTaskId :=
  rfl

theorem dummyTCB_eq : L.dummyTCB = L.tcb .dummy :=
  rfl

end Image

end Task
