import Navilnux.Chap16.Memory
import Navilnux.Chap16.Theorems.Running

namespace Chap16

open Arena Heap Task Task.Image

def AllocEvent.isCreate : AllocEvent → Bool
  | create .. => true
  | malloc .. => false

def creates (es : List AllocEvent) : Nat :=
  es.countP AllocEvent.isCreate

def AllocEvent.stack : AllocEvent → Option Word
  | create _ ret top => if 0 ≤ ret.toInt then some top else none
  | malloc ..        => none

def AllocEvent.block : AllocEvent → Option (Word × Word)
  | create ..     => none
  | malloc size p => some (p, size)

def StacksApart (top top' : Word) : Prop :=
  top.toNat + usrStackSize.toNat ≤ top'.toNat ∨ top'.toNat + usrStackSize.toNat ≤ top.toNat

def BlockApart (top : Word) (b : Word × Word) : Prop :=
  top.toNat + 8 ≤ b.1.toNat ∨ b.1.toNat + b.2.toNat + usrStackSize.toNat ≤ top.toNat

instance {top : Word} {b : Word × Word} : Decidable (BlockApart top b) :=
  inferInstanceAs <| Decidable (_ ∨ _)

-- What a step should do. Every stack is compared with the stacks and blocks before it, and every block
-- with the stacks before it.
structure Separate (L : Image) (es : List AllocEvent) (s : State) (e : AllocEvent) (t : State) :
    Prop where
  index  : ∀ {f ret top}, e = .create f ret top → 0 ≤ ret.toInt → ret.toInt < maxTaskNum
  frame  : ∀ {f ret top}, e = .create f ret top → 0 ≤ ret.toInt →
    (∀ x, ¬(x - L.kernel.freeTaskPool ret < 72) → ¬(x - L.kernel.maxTaskId < 4) →
      t.mem x = s.mem x) ∧
    t.memmng = { s.memmng with freeMemPool := t.memmng.freeMemPool }
  tops   : ∀ {top top'}, e.stack = some top → top' ∈ es.filterMap AllocEvent.stack →
    StacksApart top top'
  blocks : ∀ {top b}, e.stack = some top → b ∈ es.filterMap AllocEvent.block → BlockApart top b
  block  : ∀ {top b}, e.block = some b → top ∈ es.filterMap AllocEvent.stack → BlockApart top b

structure Separated (L : Image) (es : List AllocEvent) (s : State) : Prop where
  created   : ∃ fs, Created L.kernel maxMemBlk fs s ∧ fs.length = creates es
  tiles     : ∃ bs : Arena Unit, Tiles s bs
  heapStart : s.memmng.heapStart = startDyMemAddr
  tops      : ∀ top ∈ es.filterMap AllocEvent.stack, ∃ i < creates es, top = stackTop i
  blocks    : ∀ b ∈ es.filterMap AllocEvent.block, 0xA2C00008 ≤ b.1.toNat

variable {L : Image} {es : List AllocEvent} {s t : State} {e : AllocEvent} {m : Memory}
variable {f p size : Word} {fuel i k : Nat}

theorem creates_cons_create {ret top : Word} : creates (.create f ret top :: es) = creates es + 1 :=
  List.countP_cons_of_pos rfl

theorem stacksApart_of_ne (hi : i < maxTaskNum) (hk : k < maxTaskNum) (h : i ≠ k) :
    StacksApart (stackTop i) (stackTop k) := by
  have hs : usrStackSize.toNat = 0x00100000 := rfl
  have hi := stackTop_toNat <| Nat.lt_trans hi (by decide)
  have hk := stackTop_toNat <| Nat.lt_trans hk (by decide)
  rw [StacksApart, hi, hk, hs]
  omega

theorem blockApart_of_lt {b : Word × Word} (hi : i < maxTaskNum) (hb : 0xA2C00008 ≤ b.1.toNat) :
    BlockApart (stackTop i) b := by
  have hi' : i < 40 := hi
  have hi := stackTop_toNat <| Nat.lt_trans hi (by decide)
  rw [BlockApart, hi]
  omega

namespace Separated

theorem creates_le (h : Separated L es s) : creates es ≤ maxTaskNum := by
  have ⟨fs, hc, hl⟩ := h.created
  exact hl ▸ hc.length_le

theorem init : Separated L [] (navilnuxInit L m) where
  created   := ⟨[], created_navilnuxInit, rfl⟩
  tiles     := ⟨[], .init rfl rfl⟩
  heapStart := rfl
  tops _ h  := nomatch h
  blocks _ h := nomatch h

theorem taskCreate_fst (h : Separated L es s) (f : Word) :
    (taskCreate L.kernel f s).1 = BitVec.ofNat 32 (creates es) ∧
    (memAlloc s.memmng).1 = stackTop (creates es) := by
  have ⟨fs, hc, hl⟩ := h.created
  have hle : fs.length ≤ 40 := hc.length_le
  have hm : s.mem.word L.kernel.maxTaskId + 1 = BitVec.ofNat 32 fs.length := hc.maxTaskId
  have hp := memAlloc_poolAfter hc.freeMemPool (show fs.length < 60 by omega)
  have h0 : stackTop fs.length ≠ 0 := stackTop_ne_zero (by omega)
  rw [← hl, taskCreate, hm, if_neg hc.slt_length, hp]
  simp only [if_neg h0, and_self]

theorem malloc (h : Separated L es s) (hL : L.Low) (hn : size ≤ maxSize) (hp : p ≠ 0)
    (he : memMalloc fuel size s = some (p, t)) : Separated L (.malloc size p :: es) t := by
  have ⟨bs, hb⟩ := h.tiles
  have ⟨fs, hc, hl⟩ := h.created
  have ⟨bs', ht, hs⟩ := hb.memMalloc_granted hn hp he ()
  have ⟨hx, hlo, _⟩ := hb.memMalloc_frame hn hp he
  have hh : s.memmng.heapStart.toNat = 0xA2C00000 := congrArg _ h.heapStart
  have hv v : L.kernel.view t.mem v = L.kernel.view s.mem v := by
    refine Memory.word_congr fun x hxa => hx x ?_
    have ha : (L.kernel.at v).toNat + 4 ≤ 0xA0400000 := hL.at_toNat
    bv_omega
  constructor
  case created   => exact ⟨fs, hc.congr hv (memMalloc_pool he), hl⟩
  case tiles     => exact ⟨bs', ht⟩
  case heapStart => exact hs.trans h.heapStart
  case tops      => exact h.tops
  case blocks    => exact List.forall_mem_cons.mpr ⟨(by omega : 0xA2C00008 ≤ p.toNat), h.blocks⟩

theorem stack_create (h : Separated L es s) (hlt : creates es < maxTaskNum) :
    (AllocEvent.create f (taskCreate L.kernel f s).1 (memAlloc s.memmng).1).stack =
      some (stackTop (creates es)) := by
  have ⟨hret, htop⟩ := h.taskCreate_fst f
  have h0 : 0 ≤ (BitVec.ofNat 32 (creates es)).toInt := by
    rw [toInt_ofNat (Nat.lt_trans hlt (by decide))]
    exact Int.natCast_nonneg _
  rw [hret, htop]
  exact if_pos h0

theorem create (h : Separated L es s) (hL : L.Low) (hlt : creates es < maxTaskNum) :
    Separated L (.create f (taskCreate L.kernel f s).1 (memAlloc s.memmng).1 :: es)
      (taskCreate L.kernel f s).2 := by
  have ⟨bs, hb⟩ := h.tiles
  have ⟨fs, hc, hl⟩ := h.created
  have ⟨hret, htop⟩ := h.taskCreate_fst f
  have hh : s.memmng.heapStart.toNat = 0xA2C00000 := congrArg _ h.heapStart
  constructor
  case created =>
    refine ⟨fs ++ [f], hc.concat (hl ▸ hlt) f, ?_⟩
    rw [List.length_append, hl, creates_cons_create]
    rfl
  case tiles =>
    refine ⟨bs, ?_⟩
    have ht := hb.congr (m := (taskCreate L.kernel f s).2.mem)
      (taskCreate L.kernel f s).2.memmng.freeMemPool fun x hx => taskCreate_frame ?_ ?_
    · rwa [← taskCreate_memmng] at ht
    · have hm : s.mem.word L.kernel.maxTaskId + 1 = BitVec.ofNat 32 (creates es) :=
        hl ▸ hc.maxTaskId
      have ha : _ ≤ 0xA0400000 := hL.tcb_toNat ⟨creates es, hlt⟩
      rw [hm, freeTaskPool_ofNat ⟨creates es, hlt⟩]
      bv_omega
    · have ha : (L.kernel.at .maxTaskId).toNat + 4 ≤ 0xA0400000 := hL.at_toNat
      rw [maxTaskId_eq]
      bv_omega
  case heapStart => rw [taskCreate_memmng]; exact h.heapStart
  case tops      =>
    rw [List.filterMap_cons_some (h.stack_create hlt), creates_cons_create]
    refine List.forall_mem_cons.mpr ⟨⟨_, Nat.lt_succ_self _, rfl⟩, fun top ht => ?_⟩
    have ⟨i, hi, he⟩ := h.tops top ht
    exact ⟨i, Nat.lt_succ_of_lt hi, he⟩
  case blocks    => exact h.blocks

theorem step (h : Separated L es s) (hL : L.Low) (st : AllocStep L s e t)
    (hc : e.isCreate → creates es < maxTaskNum) : Separated L (e :: es) t := by
  cases st
  case create          => exact h.create hL (hc rfl)
  case malloc hn hp he => exact h.malloc hL hn hp he

theorem separate_create (h : Separated L es s) (hlt : creates es < maxTaskNum) :
    Separate L es s (.create f (taskCreate L.kernel f s).1 (memAlloc s.memmng).1)
      (taskCreate L.kernel f s).2 := by
  have ⟨fs, hc, hl⟩ := h.created
  have ⟨hret, htop⟩ := h.taskCreate_fst f
  constructor
  case index =>
    intro _ _ _ he _
    obtain ⟨-, rfl, -⟩ := AllocEvent.create.inj he
    rw [hret, toInt_ofNat (Nat.lt_trans hlt (by decide))]
    exact Int.ofNat_lt.mpr hlt
  case frame =>
    intro _ _ _ he _
    obtain ⟨-, rfl, -⟩ := AllocEvent.create.inj he
    have hm : s.mem.word L.kernel.maxTaskId + 1 = BitVec.ofNat 32 (creates es) := hl ▸ hc.maxTaskId
    refine ⟨fun x ht hx => taskCreate_frame (fun hlt => ht ?_) hx, taskCreate_memmng⟩
    rw [hm] at hlt
    rw [hret]
    exact hlt
  case tops =>
    intro top top' he ht
    obtain rfl := Option.some.inj <| (h.stack_create hlt).symm.trans he
    have ⟨i, hi, he⟩ := h.tops top' ht
    rw [he]
    exact stacksApart_of_ne hlt (Nat.lt_trans hi hlt) (Nat.ne_of_gt hi)
  case blocks =>
    intro top b he hb
    obtain rfl := Option.some.inj <| (h.stack_create hlt).symm.trans he
    exact blockApart_of_lt hlt <| h.blocks b hb
  case block => nofun

theorem separate_malloc (h : Separated L es s) (hn : size ≤ maxSize) (hp : p ≠ 0)
    (he : memMalloc fuel size s = some (p, t)) : Separate L es s (.malloc size p) t := by
  have ⟨bs, hb⟩ := h.tiles
  have ⟨_, hlo, _⟩ := hb.memMalloc_frame hn hp he
  have hh : s.memmng.heapStart.toNat = 0xA2C00000 := congrArg _ h.heapStart
  constructor
  case index  => nofun
  case frame  => nofun
  case tops   => nofun
  case blocks => nofun
  case block  =>
    intro top b hb ht
    obtain rfl := Option.some.inj hb
    have ⟨i, hi, he⟩ := h.tops top ht
    have hb : 0xA2C00008 ≤ p.toNat := by omega
    rw [he]
    exact blockApart_of_lt (Nat.lt_of_lt_of_le hi h.creates_le) hb

theorem step_iff (h : Separated L es s) (st : AllocStep L s e t) :
    Separate L es s e t ↔ (e.isCreate → creates es < maxTaskNum) := by
  cases st
  case malloc hn hp he => exact ⟨fun _ => nofun, fun _ => h.separate_malloc hn hp he⟩
  case create f        =>
    refine ⟨fun hs _ => ?_, fun hc => h.separate_create (hc rfl)⟩
    have ⟨hret, _⟩ := h.taskCreate_fst f
    have hr : (BitVec.ofNat 32 (creates es)).toInt = creates es :=
      toInt_ofNat <| Nat.lt_of_le_of_lt h.creates_le (by decide)
    have := hs.index rfl (by rw [hret, hr]; exact Int.natCast_nonneg _)
    rw [hret, hr] at this
    exact Int.ofNat_lt.mp this

end Separated

theorem heeds_iff : Run.Heeds (fun es e => e.isCreate → creates es < maxTaskNum) es ↔
    creates es ≤ maxTaskNum := by
  induction es
  case nil => exact ⟨fun _ => Nat.zero_le _, fun _ => trivial⟩
  case cons e es ih =>
    rw [Run.Heeds, ih]
    cases e
    case malloc => exact ⟨And.right, fun h => ⟨by rintro ⟨⟩, h⟩⟩
    case create =>
      rw [creates_cons_create]
      exact ⟨fun h => h.left rfl, fun h => ⟨fun _ => h, Nat.le_of_succ_le h⟩⟩

-- Stacks, TCBs and the heap are separate exactly for `maxTaskNum` calls of `task_create`.
theorem separate_iff (hL : L.Low) (r : Run (AllocStep L) (navilnuxInit L m) es s) :
    Run.Always (AllocStep L) (navilnuxInit L m) (Separate L) es s ↔ creates es ≤ maxTaskNum :=
  r.always_iff_heeds (I := Separated L) .init (fun h st => h.step hL st)
    (fun h st => h.step_iff st) |>.trans heeds_iff

theorem separate_first : ∃ es s, creates es = 1 ∧
    (0xA2C00008, 8) ∈ es.filterMap AllocEvent.block ∧
    Run.Always (AllocStep navilnuxElf) (navilnuxInit navilnuxElf fun _ => 0) (Separate navilnuxElf)
      es s := by
  have hm : memMalloc 1 8 (navilnuxInit navilnuxElf fun _ => 0) = some (0xA2C00008, _) := rfl
  have st : AllocStep navilnuxElf _ (.malloc 8 0xA2C00008) _ := .malloc 1 8 (by decide) (by decide) hm
  have r := Run.single st |>.step (.create userTask1)
  exact ⟨_, _, rfl, .head _, separate_iff navilnuxElf_low r |>.mpr (by decide)⟩

def tasks (f : Word) (es : List AllocEvent) : Nat → List AllocEvent
  | 0     => es
  | n + 1 => .create f (BitVec.ofNat 32 n) (stackTop n) :: tasks f es n

theorem creates_tasks (he : creates es = 0) : ∀ n, creates (tasks f es n) = n
  | 0     => he
  | n + 1 => creates_cons_create.trans <| congrArg (· + 1) <| creates_tasks he n

theorem exists_tasks {s₀ : State} (hL : L.Low) (r : Run (AllocStep L) s₀ es s)
    (h : Separated L es s) (he : creates es = 0) : ∀ {n}, n ≤ maxTaskNum →
    ∃ t, Run (AllocStep L) s₀ (tasks f es n) t ∧ Separated L (tasks f es n) t
  | 0,     _  => ⟨s, r, h⟩
  | n + 1, hn => by
    have ⟨t, r, h⟩ := exists_tasks hL r h he <| Nat.le_of_succ_le hn
    have ⟨hret, htop⟩ := h.taskCreate_fst f
    have hlt : creates (tasks f es n) < maxTaskNum := (creates_tasks he n).symm ▸ hn
    have st := AllocStep.create (L := L) (s := t) f
    have h := h.create (f := f) hL hlt
    rw [hret, htop, creates_tasks he] at st h
    exact ⟨_, r.step st, h⟩

-- One task more than there are TCBs is created. Its stack contains the block of the heap.
theorem separate_one_too_many : ∃ s t,
    Run (AllocStep navilnuxElf) (navilnuxInit navilnuxElf fun _ => 0)
      (tasks userTask1 [.malloc 8 0xA2C00008] 40) s ∧
    AllocStep navilnuxElf s (.create userTask1 40 0xA2CFFFFC) t ∧
    ¬BlockApart 0xA2CFFFFC (0xA2C00008, 8) ∧
    ¬Separate navilnuxElf (tasks userTask1 [.malloc 8 0xA2C00008] 40) s
      (.create userTask1 40 0xA2CFFFFC) t := by
  have hm : memMalloc 1 8 (navilnuxInit navilnuxElf fun _ => 0) = some (0xA2C00008, _) := rfl
  have h := Separated.init.malloc navilnuxElf_low (by decide) (by decide) hm
  have st : AllocStep navilnuxElf _ (.malloc 8 0xA2C00008) _ := .malloc 1 8 (by decide) (by decide) hm
  have ⟨s, r, h⟩ :=
    exists_tasks (f := userTask1) navilnuxElf_low (.single st) h rfl (Nat.le_refl _)
  have ⟨hret, htop⟩ := h.taskCreate_fst userTask1
  have st := AllocStep.create (L := navilnuxElf) (s := s) userTask1
  rw [hret, htop, creates_tasks rfl] at st
  refine ⟨s, _, r, st, by decide, fun hs => ?_⟩
  exact absurd (hs.index rfl (by decide)) (by decide)

end Chap16
