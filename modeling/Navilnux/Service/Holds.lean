import Navilnux.Service.Table

namespace Service

open Message (Call NavilFreeMsg NavilMsgMng maxMsg semStart semEnd mutexStart mutexEnd)

structure Holds (L : Image) (m : Memory) (p : NavilMsgMng) : Prop where
  data : ∀ {i}, i < maxMsg → L.data m i = (p i).data
  flag : ∀ {i}, i < maxMsg → L.flag m i = (p i).flag

structure Off (L : Image) (a : Word) : Prop where
  data : ∀ {i}, i < maxMsg → Memory.Apart (L.freeMsgPool i) a
  flag : ∀ {i}, i < maxMsg → Memory.Apart (L.freeMsgPool i + 4) a

variable {L : Image} {m m' : Memory} {p : NavilMsgMng} {c : Call} {a b i j n t v d : Word}

theorem freeMsgPool_eq : L.freeMsgPool i = L.addr .msgmng (2 * i.toNat) := by
  have hi : 8 * i = BitVec.ofNat 32 (4 * (2 * i.toNat)) := by bv_omega
  rw [Image.freeMsgPool, hi, Layout.addr_add, Nat.zero_add]

theorem freeMsgPool_add_four : L.freeMsgPool i + 4 = L.addr .msgmng (2 * i.toNat + 1) := by
  rw [freeMsgPool_eq]
  exact Layout.addr_add _ _ 1

theorem index_lt (h : i < maxMsg) : 2 * i.toNat + 1 < Global.msgmng.words := by
  have h : i.toNat < 255 := h
  simp only [Global.words]
  omega

theorem Off.of_kernel {g : Task.Global} {k : Nat} (hk : k < g.words) :
    Off L (L.kernel.addr g k) where
  data h := freeMsgPool_eq ▸ Layout.apart (Nat.lt_of_succ_lt (index_lt h)) hk nofun
  flag h := freeMsgPool_add_four ▸ Layout.apart (index_lt h) hk nofun

theorem data_apart_flag (hi : i < maxMsg) (hj : j < maxMsg) :
    Memory.Apart (L.freeMsgPool i) (L.freeMsgPool j + 4) := by
  rw [freeMsgPool_eq, freeMsgPool_add_four]
  refine Layout.apart (Nat.lt_of_succ_lt (index_lt hi)) (index_lt hj) fun h => ?_
  have h := congrArg Prod.snd h
  simp only at h
  omega

theorem data_apart_data (hi : i < maxMsg) (hj : j < maxMsg) (h : i ≠ j) :
    Memory.Apart (L.freeMsgPool i) (L.freeMsgPool j) := by
  have h : i.toNat ≠ j.toNat := fun he => h <| BitVec.eq_of_toNat_eq he
  rw [freeMsgPool_eq, freeMsgPool_eq]
  refine Layout.apart (Nat.lt_of_succ_lt (index_lt hi)) (Nat.lt_of_succ_lt (index_lt hj)) fun h' => ?_
  have h' := congrArg Prod.snd h'
  simp only at h'
  omega

theorem flag_apart_flag (hi : i < maxMsg) (hj : j < maxMsg) (h : i ≠ j) :
    Memory.Apart (L.freeMsgPool i + 4) (L.freeMsgPool j + 4) := by
  have h : i.toNat ≠ j.toNat := fun he => h <| BitVec.eq_of_toNat_eq he
  rw [freeMsgPool_add_four, freeMsgPool_add_four]
  refine Layout.apart (index_lt hi) (index_lt hj) fun h' => ?_
  have h' := congrArg Prod.snd h'
  simp only at h'
  omega

structure TableKept (L : Image) (m m' : Memory) : Prop where
  data : ∀ {i}, i < maxMsg → L.data m' i = L.data m i
  flag : ∀ {i}, i < maxMsg → L.flag m' i = L.flag m i

namespace TableKept

theorem trans {m'' : Memory} (h : TableKept L m m') (h' : TableKept L m' m'') : TableKept L m m'' where
  data hi := h'.data hi |>.trans <| h.data hi
  flag hi := h'.flag hi |>.trans <| h.flag hi

end TableKept

namespace Holds

theorem congr (h : Holds L m p) (hk : TableKept L m m') : Holds L m' p where
  data hi := hk.data hi |>.trans <| h.data hi
  flag hi := hk.flag hi |>.trans <| h.flag hi

theorem setData (h : Holds L m p) (hi : i < maxMsg) : Holds L (L.setData i v m) (p.setData i v) where
  data {j} hj := by
    by_cases hij : j = i
    case pos =>
      rw [hij, NavilMsgMng.setData, Function.update_self]
      exact Memory.word_setWord
    case neg =>
      rw [NavilMsgMng.setData, Function.update_of_ne hij, ← h.data hj]
      exact Memory.word_setWord_of_apart <| data_apart_data hi hj (Ne.symm hij)
  flag {j} hj := by
    have hf : (p.setData i v j).flag = (p j).flag := by
      by_cases hij : j = i
      case pos => rw [hij, NavilMsgMng.setData, Function.update_self]
      case neg => rw [NavilMsgMng.setData, Function.update_of_ne hij]
    rw [hf, ← h.flag hj]
    exact Memory.word_setWord_of_apart <| data_apart_flag hi hj

theorem setFlag (h : Holds L m p) (hi : i < maxMsg) : Holds L (L.setFlag i v m) (p.setFlag i v) where
  data {j} hj := by
    have hd : (p.setFlag i v j).data = (p j).data := by
      by_cases hij : j = i
      case pos => rw [hij, NavilMsgMng.setFlag, Function.update_self]
      case neg => rw [NavilMsgMng.setFlag, Function.update_of_ne hij]
    rw [hd, ← h.data hj]
    exact Memory.word_setWord_of_apart (data_apart_flag hj hi).symm
  flag {j} hj := by
    by_cases hij : j = i
    case pos =>
      rw [hij, NavilMsgMng.setFlag, Function.update_self]
      exact Memory.word_setWord
    case neg =>
      rw [NavilMsgMng.setFlag, Function.update_of_ne hij, ← h.flag hj]
      exact Memory.word_setWord_of_apart <| flag_apart_flag hi hj (Ne.symm hij)

theorem setWord (h : Holds L m p) (ha : Off L a) : Holds L (m.setWord a v) p :=
  h.congr {
    data hi := Memory.word_setWord_of_apart (ha.data hi).symm
    flag hi := Memory.word_setWord_of_apart (ha.flag hi).symm
  }

end Holds

-- What a function of the manager does to the memory, compared with what a call does to the table. The
-- function has the pointer `d` as an argument.
structure Implements (L : Image) (d : Word) (m : Memory) (p : NavilMsgMng) (f : Word × Memory)
    (g : Message.Reply × NavilMsgMng) : Prop where
  ret   : f.1 = g.1.ret
  holds : Holds L f.2 g.2
  data  : ∀ {v}, g.1.data = some v → f.2.word d = v
  frame : ∀ {a}, Off L a → (g.1.data ≠ none → Memory.Apart d a) → f.2.word a = m.word a

namespace Implements

variable {r : Word}

theorem same (h : Holds L m p) : Implements L d m p (r, m) ({ ret := r }, p) where
  ret       := rfl
  holds     := h
  data h    := nomatch h
  frame _ _ := rfl

theorem flag (h : Holds L m p) (hi : i < maxMsg) :
    Implements L d m p (r, L.setFlag i v m) ({ ret := r }, p.setFlag i v) where
  ret        := rfl
  holds      := h.setFlag hi
  data h     := nomatch h
  frame ha _ := Memory.word_setWord_of_apart (ha.flag hi)

theorem sem_lt (h : n ≤ semEnd - semStart) : n + semStart < maxMsg := by
  simp only [semEnd, semStart, maxMsg] at *
  bv_omega

theorem mutex_lt (h : n ≤ mutexEnd - mutexStart) : n + mutexStart < maxMsg := by
  simp only [mutexEnd, mutexStart, maxMsg] at *
  bv_omega

theorem itcSend (h : Holds L m p) :
    Implements L d m p (msgItcSend L n v m) ((Call.itcSend n v).exec t p) := by
  simp only [msgItcSend, Call.exec, Message.msgItcSend, Message.itc_rejects_iff]
  split
  case isTrue     => exact .same h
  case isFalse hn =>
    have hn := not_not.mp hn
    constructor
    case ret   => rfl
    case holds => exact h.setData hn |>.setFlag hn
    case data  =>
      intro _ hv
      cases hv
    case frame =>
      intro a ha _
      have hf := Memory.word_setWord_of_apart (m := L.setData n v m) (v := 1) (ha.flag hn)
      exact hf.trans <| Memory.word_setWord_of_apart (ha.data hn)

theorem itcGet (h : Holds L m p) (hd : Off L d) :
    Implements L d m p (msgItcGet L n d m) ((Call.itcGet n).exec t p) := by
  simp only [msgItcGet, Call.exec, Message.msgItcGet, Message.itc_rejects_iff]
  split
  case isTrue     => exact .same h
  case isFalse hn =>
    have hn := not_not.mp hn
    rw [h.flag hn]
    split
    case isTrue => exact .same h
    case isFalse =>
      have hw {a : Word} (ha : Off L a) : (L.setData n 0 <| L.setFlag n 0 <|
          m.setWord d (L.data m n)).word a = (m.setWord d (L.data m n)).word a :=
        Memory.word_setWord_of_apart (ha.data hn) |>.trans <| Memory.word_setWord_of_apart (ha.flag hn)
      constructor
      case ret   => rfl
      case holds => exact h.setWord hd |>.setFlag hn |>.setData hn
      case data  =>
        intro v hv
        have hv : (p n).data = v := Option.some.inj hv
        rw [hw hd, Memory.word_setWord, h.data hn, hv]
      case frame =>
        intro a ha hda
        rw [hw ha, Memory.word_setWord_of_apart (hda <| Option.some_ne_none _)]

theorem semInit (h : Holds L m p) :
    Implements L d m p (msgSemInit L n v m) ((Call.semInit n v).exec t p) := by
  simp only [msgSemInit, Call.exec, Message.msgSemInit, Message.sem_rejects_iff]
  split
  case isTrue     => exact .same h
  case isFalse hn => exact .flag h <| sem_lt <| not_not.mp hn

theorem semP (h : Holds L m p) :
    Implements L d m p (msgSemP L n m) ((Call.semP n).exec t p) := by
  simp only [msgSemP, Call.exec, Message.msgSemP, Message.sem_rejects_iff]
  split
  case isTrue     => exact .same h
  case isFalse hn =>
    have hn := sem_lt <| not_not.mp hn
    rw [h.flag hn]
    split
    case isTrue  => exact .same h
    case isFalse => exact .flag h hn

theorem semV (h : Holds L m p) :
    Implements L d m p (msgSemV L n m) ((Call.semV n).exec t p) := by
  simp only [msgSemV, Call.exec, Message.msgSemV, Message.sem_rejects_iff]
  split
  case isTrue     => exact .same h
  case isFalse hn =>
    have hn := sem_lt <| not_not.mp hn
    rw [h.flag hn]
    exact .flag h hn

theorem mutexWait (h : Holds L m p) (ht : m.word L.kernel.navilnuxCurrent = t) :
    Implements L d m p (msgMutexWait L n m) ((Call.mutexWait n).exec t p) := by
  have hc : Off L L.kernel.navilnuxCurrent := .of_kernel Nat.zero_lt_one
  simp only [msgMutexWait, Call.exec, Message.msgMutexWait, or_comm, Message.mutex_rejects_iff]
  split
  case isTrue     => exact .same h
  case isFalse hn =>
    have hn := mutex_lt <| not_not.mp hn
    rw [h.flag hn]
    split
    case isFalse => exact .same h
    case isTrue =>
      have ht : (L.setFlag (n + mutexStart) 1 m).word L.kernel.navilnuxCurrent = t :=
        Memory.word_setWord_of_apart (hc.flag hn) |>.trans ht
      rw [ht]
      constructor
      case ret   => rfl
      case holds => exact h.setFlag hn |>.setData hn
      case data  =>
        intro _ hv
        cases hv
      case frame =>
        intro a ha _
        have hf := Memory.word_setWord_of_apart (m := L.setFlag (n + mutexStart) 1 m) (v := t) (ha.data hn)
        exact hf.trans <| Memory.word_setWord_of_apart (ha.flag hn)

theorem mutexRelease (h : Holds L m p) (ht : m.word L.kernel.navilnuxCurrent = t) :
    Implements L d m p (msgMutexRelease L n m) ((Call.mutexRelease n).exec t p) := by
  simp only [msgMutexRelease, Call.exec, Message.msgMutexRelease, Message.mutex_rejects_iff, ht]
  split
  case isTrue     => exact .same h
  case isFalse hn =>
    have hn := mutex_lt <| not_not.mp hn
    rw [h.data hn]
    split
    case isTrue  => exact .same h
    case isFalse =>
      constructor
      case ret   => rfl
      case holds => exact h.setData hn |>.setFlag hn
      case data  =>
        intro _ hv
        cases hv
      case frame =>
        intro a ha _
        have hf := Memory.word_setWord_of_apart (m := L.setData (n + mutexStart) 0 m) (v := 0) (ha.flag hn)
        exact hf.trans <| Memory.word_setWord_of_apart (ha.data hn)

end Implements

-- The functions of the manager do to the memory what the calls do to the table. A pointer for a message
-- does not point to the table.
theorem implements_exec (h : Holds L m p) (ht : m.word L.kernel.navilnuxCurrent = t)
    (hd : ∀ {n}, c = .itcGet n → Off L d) : Implements L d m p (exec L d m c) (c.exec t p) := by
  cases c
  case itcSend      => exact .itcSend h
  case itcGet       => exact .itcGet h (hd rfl)
  case semInit      => exact .semInit h
  case semP         => exact .semP h
  case semV         => exact .semV h
  case mutexWait    => exact .mutexWait h ht
  case mutexRelease => exact .mutexRelease h ht

def table (L : Image) (m : Memory) : NavilMsgMng :=
  fun i => { data := L.data m i, flag := L.flag m i }

theorem holds_initSlots {k : Nat} (hk : k ≤ maxMsg.toNat) : Holds L (initSlots L k m)
    (fun i => if i.toNat < k then { data := 0, flag := 0 } else table L m i) := by
  induction k
  case zero => exact ⟨fun _ => rfl, fun _ => rfl⟩
  case succ k ih =>
    have hn : (BitVec.ofNat 32 k).toNat = k := Nat.mod_eq_of_lt <| Nat.lt_trans hk (by decide)
    have hi : BitVec.ofNat 32 k < maxMsg := BitVec.lt_def.mpr <| hn.symm ▸ hk
    have h := ih (Nat.le_of_succ_le hk) |>.setData (v := 0) hi |>.setFlag (v := 0) hi
    have he {i : Word} : i.toNat < k + 1 ↔ i.toNat < k ∨ i = BitVec.ofNat 32 k := by
      rw [← BitVec.toNat_inj, hn, Nat.lt_succ_iff_lt_or_eq]
    refine ⟨fun {i} hlt => h.data hlt |>.trans ?_, fun {i} hlt => h.flag hlt |>.trans ?_⟩
    all_goals
      by_cases hk : i = BitVec.ofNat 32 k
      case pos => simp only [hk, hn, Nat.lt_succ_self, if_true, NavilMsgMng.setData,
        NavilMsgMng.setFlag, Function.update_self]
      case neg => simp [he, hk, NavilMsgMng.setData, NavilMsgMng.setFlag, Function.update_of_ne]

theorem holds_msgInit : Holds L (msgInit L m) (Message.msgInit p) := by
  have h := holds_initSlots (L := L) (m := m) (Nat.le_refl maxMsg.toNat)
  have hi {i : Word} (hlt : i < maxMsg) : i.toNat < maxMsg.toNat := hlt
  constructor
  case data => exact fun hlt => h.data hlt |>.trans <| by simp [Message.msgInit, hlt, hi hlt]
  case flag => exact fun hlt => h.flag hlt |>.trans <| by simp [Message.msgInit, hlt, hi hlt]

end Service
