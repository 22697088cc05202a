import Navilnux.Base.Memory

-- The memory manager of navilnux/chap16_driver (navilnux_memory.c). Task stacks are taken from a
-- pool of blocks, and `mem_malloc` and `mem_free` manage the heap.
namespace Heap

def startUsrStackAddr : Word := 0xA0400000

def usrStackSize : Word := 0x00100000

def startDyMemAddr : Word := 0xA2C00000

def endUsrStackAddr : Word := 0xA4000000

def maxMemBlk : Nat := 40

structure NavilFreeMem where
  blockStartAddr : Word
  blockEndAddr   : Word
  isUsed         : Word
  deriving DecidableEq

structure NavilMemMng where
  freeMemPool : List NavilFreeMem
  heapStart   : Word
  usedEnd     : Word
  deriving DecidableEq

def initPool (pt : Word) : Nat → List NavilFreeMem
  | 0     => []
  | n + 1 => ⟨pt, pt + usrStackSize - 4, 0⟩ :: initPool (pt + usrStackSize) n

def memInit : NavilMemMng where
  freeMemPool := initPool startUsrStackAddr maxMemBlk
  heapStart   := startDyMemAddr
  usedEnd     := startDyMemAddr

def allocFrom : List NavilFreeMem → Word × List NavilFreeMem
  | []      => (0, [])
  | b :: bs =>
    if b.isUsed = 0 then (b.blockEndAddr, { b with isUsed := 1 } :: bs)
    else ((allocFrom bs).1, b :: (allocFrom bs).2)

def memAlloc (memmng : NavilMemMng) : Word × NavilMemMng :=
  let (addr, pool) := allocFrom memmng.freeMemPool
  (addr, { memmng with freeMemPool := pool })

-- The struct `Dy_mem_header` at an address.
namespace DyMemHeader

def sizeof : Word := 8

def used (m : Memory) (a : Word) : Word :=
  m.word a

def size (m : Memory) (a : Word) : Word :=
  m.word (a + 4)

def setUsed (m : Memory) (a v : Word) : Memory :=
  m.setWord a v

def setSize (m : Memory) (a v : Word) : Memory :=
  m.setWord (a + 4) v

end DyMemHeader

structure State where
  mem    : Memory
  memmng : NavilMemMng

def memFree (addr : Word) (m : Memory) : Word × Memory :=
  let addHeader := addr - DyMemHeader.sizeof
  if DyMemHeader.used m addHeader ≠ 1 then (-1, m)
  else (0, DyMemHeader.setUsed m addHeader 0)

-- The loop of `mem_malloc`, which gives `ret_addr`. The result is `none` if the loop is not left
-- within `fuel` iterations.
def search (m : Memory) (usedEnd reqSize : Word) : Nat → Word → Option (Word × Memory)
  | 0,        _      => none
  | fuel + 1, curPos =>
    if curPos = usedEnd then some (0, m)
    else if DyMemHeader.used m curPos = 0 ∧ reqSize.sle (DyMemHeader.size m curPos) then
      some (curPos, DyMemHeader.setUsed m curPos 1)
    else search m usedEnd reqSize fuel (curPos + DyMemHeader.size m curPos)

def finish (reqSize : Word) (memmng : NavilMemMng) (retAddr : Word) (m : Memory) : Word × State :=
  if retAddr = 0 then
    let retAddr := memmng.usedEnd
    let usedEnd := memmng.usedEnd + reqSize
    if endUsrStackAddr < usedEnd then (0, ⟨m, { memmng with usedEnd }⟩)
    else (retAddr + DyMemHeader.sizeof, {
      mem    := DyMemHeader.setSize (DyMemHeader.setUsed m retAddr 1) retAddr reqSize
      memmng := { memmng with usedEnd }
    })
  else (retAddr + DyMemHeader.sizeof, ⟨m, memmng⟩)

def memMalloc (fuel : Nat) (size : Word) (s : State) : Option (Word × State) :=
  let reqSize := size + DyMemHeader.sizeof
  (search s.mem s.memmng.usedEnd reqSize fuel s.memmng.heapStart).map
    fun r => finish reqSize s.memmng r.1 r.2

end Heap
