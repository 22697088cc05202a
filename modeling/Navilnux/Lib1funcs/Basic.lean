import Navilnux.Base.Memory

-- The division routines of navilnux/chap16_driver (lib1funcs.S), which are the same in source/chap16. The
-- compiler calls them for the operators `/` and `%`. Since no routine returns for a divisor of 0, and the
-- loops are not known to end, the argument `fuel` bounds the number of iterations.
namespace Lib1funcs

-- The registers of the routines. `result` is also called `overdone`.
structure Regs where
  dividend : Word
  divisor  : Word
  result   : Word
  curbit   : Word
  ip       : Word

-- The loops 1 and 2, which shift the divisor by `k` bits.
def shiftUp (limit : Word) (k : Nat) : Nat → Regs → Option Regs
  | 0,        _ => none
  | fuel + 1, s =>
    if s.divisor < limit ∧ s.divisor < s.dividend then
      shiftUp limit k fuel { s with divisor := s.divisor <<< k, curbit := s.curbit <<< k }
    else some s

def loop1 : Nat → Regs → Option Regs :=
  shiftUp 0x10000000 4

def loop2 : Nat → Regs → Option Regs :=
  shiftUp 0x80000000 1

-- `cmp dividend, divisor, lsr #j`, and `subcs` and `orrcs`, if the carry flag is set.
def subtract (j : Nat) (bit : Word) (s : Regs) : Regs :=
  if s.divisor >>> j ≤ s.dividend then
    { s with dividend := s.dividend - s.divisor >>> j, result := s.result ||| bit }
  else s

-- The body of loop 3 in `__udivsi3` and `__divsi3`.
def divide (s : Regs) : Regs :=
  let s := subtract 0 s.curbit s
  let s := subtract 1 (s.curbit >>> 1) s
  let s := subtract 2 (s.curbit >>> 2) s
  subtract 3 (s.curbit >>> 3) s

-- The body of loop 3 in `__umodsi3` and `__modsi3`. The first subtraction is not noted.
def reduce (s : Regs) : Regs :=
  let s := { s with result := 0 }
  let s := subtract 0 0 s
  let s := subtract 1 (s.curbit.rotateRight 1) s
  let s := subtract 2 (s.curbit.rotateRight 2) s
  let s := subtract 3 (s.curbit.rotateRight 3) s
  { s with ip := s.curbit }

def loop3 (body : Regs → Regs) : Nat → Regs → Option Regs
  | 0,        _ => none
  | fuel + 1, s =>
    let s := body s
    if s.dividend = 0 then some s
    else
      let s := { s with curbit := s.curbit >>> 4 }
      if s.curbit = 0 then some s
      else loop3 body fuel { s with divisor := s.divisor >>> 4 }

def loops (body : Regs → Regs) (fuel : Nat) (s : Regs) : Option Regs := do
  let s ← loop1 fuel s
  let s ← loop2 fuel s
  loop3 body fuel s

-- `bl Ldiv0` is a call of the routine itself.
def ldiv0 : Nat → Option Word
  | 0        => none
  | fuel + 1 => do
    let _ ← ldiv0 fuel
    some 0

-- From the first comparison of the operands to `Lgot_result_udivsi3`, for operands without a sign.
def quotient (fuel : Nat) (s : Regs) : Option Word :=
  if s.dividend < s.divisor then some s.result
  else do
    let s ← loops divide fuel s
    some s.result

-- `tst overdone, ip, ror #j` and `addne dividend, dividend, divisor, lsr #j`
def addBack (overdone : Word) (j : Nat) (s : Regs) : Regs :=
  if overdone &&& s.ip.rotateRight j ≠ 0 then { s with dividend := s.dividend + s.divisor >>> j }
  else s

def fixUp (s : Regs) : Word :=
  let overdone := s.result &&& 0xe0000000
  if overdone = 0 then s.dividend
  else
    let s := addBack overdone 3 s
    let s := addBack overdone 2 s
    let s := addBack overdone 1 s
    s.dividend

def remainder (fuel : Nat) (s : Regs) : Option Word :=
  if s.dividend < s.divisor then some s.dividend
  else do
    let s ← loops reduce fuel s
    some (fixUp s)

def udivsi3 (fuel : Nat) (dividend divisor : Word) : Option Word :=
  if divisor = 0 then ldiv0 fuel
  else quotient fuel { dividend, divisor, result := 0, curbit := 1, ip := 0 }

def umodsi3 (fuel : Nat) (dividend divisor : Word) : Option Word :=
  if divisor = 0 then ldiv0 fuel
  else remainder fuel { dividend, divisor, result := 0, curbit := 1, ip := 0 }

-- `cmp x, #0` and `rsbmi x, x, #0`
def rsbmi (sign x : Word) : Word :=
  if sign.slt 0 then -x else x

def divsi3 (fuel : Nat) (dividend divisor : Word) : Option Word :=
  let ip := dividend ^^^ divisor
  if divisor = 0 then ldiv0 fuel
  else do
    let r ← quotient fuel {
      dividend := rsbmi dividend dividend
      divisor  := rsbmi divisor divisor
      result   := 0
      curbit   := 1
      ip
    }
    some (rsbmi ip r)

-- The dividend is kept on the stack for the sign of the result.
def modsi3 (fuel : Nat) (dividend divisor : Word) : Option Word :=
  if divisor = 0 then ldiv0 fuel
  else do
    let r ← remainder fuel {
      dividend := rsbmi dividend dividend
      divisor  := rsbmi divisor divisor
      result   := 0
      curbit   := 1
      ip       := 0
    }
    some (rsbmi dividend r)

end Lib1funcs
