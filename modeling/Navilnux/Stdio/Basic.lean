import Navilnux.Base.Bytes

-- The formatted output of `vsprintf.c` and `printf.c`.

namespace Stdio

def ch (c : Char) : Byte :=
  BitVec.ofNat 8 c.toNat

-- The value of an `int`, which wraps.
def int (i : Int) : Int :=
  i.bmod (2 ^ 32)

theorem int_eq {i : Int} (h : -2 ^ 31 ≤ i) (h' : i < 2 ^ 31) : int i = i :=
  Int.bmod_eq_of_le (by omega) (by omega)

-- The classes of characters of `stdio.h`.
def Ctype.U  : Byte := 0x01
def Ctype.L  : Byte := 0x02
def Ctype.D  : Byte := 0x04
def Ctype.C  : Byte := 0x08
def Ctype.P  : Byte := 0x10
def Ctype.S  : Byte := 0x20
def Ctype.X  : Byte := 0x40
def Ctype.SP : Byte := 0x80

def ctype : List Byte :=
  -- 0 to 127
  .replicate 9 Ctype.C ++ .replicate 5 (Ctype.C ||| Ctype.S) ++ .replicate 18 Ctype.C ++
  [Ctype.S ||| Ctype.SP] ++ .replicate 15 Ctype.P ++ .replicate 10 Ctype.D ++ .replicate 7 Ctype.P ++
  .replicate 6 (Ctype.U ||| Ctype.X) ++ .replicate 20 Ctype.U ++ .replicate 6 Ctype.P ++
  .replicate 6 (Ctype.L ||| Ctype.X) ++ .replicate 20 Ctype.L ++ .replicate 4 Ctype.P ++ [Ctype.C] ++
  -- 128 to 255
  .replicate 32 0 ++ [Ctype.S ||| Ctype.SP] ++ .replicate 31 Ctype.P ++ .replicate 23 Ctype.U ++
  [Ctype.P] ++ .replicate 7 Ctype.U ++ .replicate 24 Ctype.L ++ [Ctype.P] ++ .replicate 8 Ctype.L

def ismask (c mask : Byte) : Prop :=
  ctype.getD c.toNat 0 &&& mask ≠ 0

instance {c mask : Byte} : Decidable (ismask c mask) :=
  inferInstanceAs <| Decidable (_ ≠ _)

def isdigit (c : Byte) : Prop :=
  ismask c Ctype.D

def isspace (c : Byte) : Prop :=
  ismask c Ctype.S

instance {c : Byte} : Decidable (isdigit c) :=
  inferInstanceAs <| Decidable (ismask _ _)

instance {c : Byte} : Decidable (isspace c) :=
  inferInstanceAs <| Decidable (ismask _ _)

structure Flags where
  zeropad : Bool := false
  sign    : Bool := false
  plus    : Bool := false
  space   : Bool := false
  left    : Bool := false
  special : Bool := false
  large   : Bool := false

structure Writer where
  mem : Memory
  str : Word

namespace Writer

def put (w : Writer) (c : Byte) : Writer where
  mem := w.mem.setByte w.str c
  str := w.str + 1

-- `for (; low < n; --n) *str++ = c;`
def fill (c : Byte) (low n : Int) (w : Writer) : Int × Writer :=
  if low < n then (w.put c).fill c low (n - 1) else (n, w)
termination_by (n - low).toNat

-- `while (low < n--) *str++ = c;`
def pad (c : Byte) (low n : Int) (w : Writer) : Int × Writer :=
  let (n, w) := w.fill c low n
  (int (n - 1), w)

-- `for (i = 0; i < n; ++i) *str++ = *s++;`
def copy : Nat → Word → Writer → Writer
  | 0, _, w     => w
  | n + 1, s, w => (w.put (w.mem s)).copy n (s + 1)

end Writer

def lower : List Byte :=
  ['0', '1', '2', '3', '4', '5', '6', '7', '8', '9', 'a', 'b', 'c', 'd', 'e', 'f', 'g', 'h', 'i',
    'j', 'k', 'l', 'm', 'n', 'o', 'p', 'q', 'r', 's', 't', 'u', 'v', 'w', 'x', 'y', 'z'].map ch

def upper : List Byte :=
  ['0', '1', '2', '3', '4', '5', '6', '7', '8', '9', 'A', 'B', 'C', 'D', 'E', 'F', 'G', 'H', 'I',
    'J', 'K', 'L', 'M', 'N', 'O', 'P', 'Q', 'R', 'S', 'T', 'U', 'V', 'W', 'X', 'Y', 'Z'].map ch

def doDiv (n : BitVec 64) (base : Word) : Word × BitVec 64 :=
  (n.setWidth 32 % base, (n.setWidth 32 / base).setWidth 64)

-- `while (num != 0) tmp[i++] = digits[doDiv(num,base)];`, if `left` elements of `tmp` are left.
def convert (digits : List Byte) (base : Word) : Nat → BitVec 64 → List Byte → Option (List Byte)
  | left, num, tmp =>
    if num = 0 then some tmp else
    match left with
    | 0        => none
    | left + 1 =>
      let d := doDiv num base
      convert digits base left d.2 (tmp ++ [digits.getD d.1.toNat 0])

def takeSign (num : BitVec 64) (size : Int) (type : Flags) : Byte × BitVec 64 × Int :=
  if type.sign then
    if num.slt 0       then (ch '-', -num, int (size - 1))
    else if type.plus  then (ch '+', num, int (size - 1))
    else if type.space then (ch ' ', num, int (size - 1))
    else (0, num, size)
  else (0, num, size)

def takeBase (base : Nat) (size : Int) (type : Flags) : Int :=
  if type.special then
    if base = 16     then int (size - 2)
    else if base = 8 then int (size - 1)
    else size
  else size

def Writer.lead (w : Writer) (digits : List Byte) (base : Nat) (type : Flags) (sign : Byte) : Writer :=
  let w := if sign ≠ 0 then w.put sign else w
  if type.special then
    if base = 8       then w.put (ch '0')
    else if base = 16 then w.put (ch '0') |>.put (digits.getD 33 0)
    else w
  else w

-- The part of `number` that writes the characters.
def Writer.field (w : Writer) (digits : List Byte) (base : Nat) (size precision : Int) (type : Flags)
    (sign : Byte) (tmp : List Byte) : Writer :=
  let c := if type.zeropad then ch '0' else ch ' '
  let i : Int := tmp.length
  let precision := if precision < i then i else precision
  let size := int (size - precision)
  let (size, w) := if ¬(type.zeropad ∨ type.left) then w.pad (ch ' ') 0 size else (size, w)
  let w := w.lead digits base type sign
  let (size, w) := if ¬type.left then w.pad c 0 size else (size, w)
  let (_, w) := w.pad (ch '0') i precision
  let w := tmp.reverse.foldl Writer.put w
  (w.pad (ch ' ') 0 size).2

def number (w : Writer) (num : BitVec 64) (base : Nat) (size precision : Int) (type : Flags) :
    Option Writer :=
  let digits := if type.large then upper else lower
  let type := if type.left then { type with zeropad := false } else type
  if base < 2 ∨ 36 < base then some { w with str := 0 } else
  let (sign, num, size) := takeSign num size type
  let size := takeBase base size type
  let tmp := if num = 0 then some [ch '0'] else convert digits (BitVec.ofNat 32 base) 66 num []
  tmp.map <| w.field digits base size precision type sign

-- `while (isdigit(**s)) i = i*10 + *((*s)++) - '0';`
def skipAtoi : Nat → Memory → Word → Int → Option (Int × Word)
  | 0, _, _, _        => none
  | fuel + 1, m, s, i =>
    if isdigit (m s) then skipAtoi fuel m (s + 1) (int (i * 10 + (m s).toNat - (ch '0').toNat))
    else some (i, s)

def strnlen (m : Memory) : Word → Nat → Nat
  | _, 0         => 0
  | s, count + 1 => if m s ≠ 0 then strnlen m (s + 1) count + 1 else 0

-- The local variables of `vsprintf` that belong to a directive ...
structure Options where
  flags      : Flags := {}
  fieldWidth : Int := -1
  precision  : Int := -1
  qualifier  : Option Byte := none

-- ... with the pointers to the rest of the format and to the next argument.
structure Directive extends Options where
  fmt  : Word
  args : Word

def Flags.add (f : Flags) (c : Byte) : Option Flags :=
  if c = ch '-'      then some { f with left := true }
  else if c = ch '+' then some { f with plus := true }
  else if c = ch ' ' then some { f with space := true }
  else if c = ch '#' then some { f with special := true }
  else if c = ch '0' then some { f with zeropad := true }
  else none

namespace Directive

-- The label `repeat`.
def processFlags : Nat → Memory → Directive → Option Directive
  | 0, _, _        => none
  | fuel + 1, m, d =>
    let fmt := d.fmt + 1
    match d.flags.add (m fmt) with
    | some flags => processFlags fuel m { d with flags, fmt }
    | none       => some { d with fmt }

def getFieldWidth (fuel : Nat) (m : Memory) (d : Directive) : Option Directive :=
  if isdigit (m d.fmt) then do
    let (fieldWidth, fmt) ← skipAtoi fuel m d.fmt 0
    some { d with fieldWidth, fmt }
  else if m d.fmt = ch '*' then
    let w := (m.word d.args).toInt
    let d := { d with fmt := d.fmt + 1, args := d.args + 4 }
    if w < 0 then some { d with fieldWidth := int (-w), flags.left := true }
    else some { d with fieldWidth := w }
  else some d

def getPrecision (fuel : Nat) (m : Memory) (d : Directive) : Option Directive :=
  if m d.fmt = ch '.' then do
    let d := { d with fmt := d.fmt + 1 }
    let d ←
      if isdigit (m d.fmt) then do
        let (precision, fmt) ← skipAtoi fuel m d.fmt 0
        some { d with precision, fmt }
      else if m d.fmt = ch '*' then
        some { d with precision := (m.word d.args).toInt, fmt := d.fmt + 1, args := d.args + 4 }
      else some d
    some { d with precision := if d.precision < 0 then 0 else d.precision }
  else some d

def getQualifier (m : Memory) (d : Directive) : Directive :=
  if m d.fmt = ch 'h' ∨ m d.fmt = ch 'l' ∨ m d.fmt = ch 'L' then
    { d with qualifier := some (m d.fmt), fmt := d.fmt + 1 }
  else d

-- The types of the integer arguments. The macro `va_arg` adds 2 to `args` for a short one.
def getNum (m : Memory) (d : Directive) : Word × Directive :=
  if d.qualifier = some (ch 'l') then (m.word d.args, { d with args := d.args + 4 })
  else if d.qualifier = some (ch 'h') then
    let short : BitVec 16 := m (d.args + 1) ++ m d.args
    let d' := { d with args := d.args + 2 }
    if d.flags.sign then (short.signExtend 32, d') else (short.setWidth 32, d')
  else (m.word d.args, { d with args := d.args + 4 })

end Directive

structure State extends Writer where
  fmt  : Word
  args : Word

def Directive.next (d : Directive) (w : Writer) : State :=
  { w with fmt := d.fmt + 1, args := d.args }

inductive Conversion
  | char
  | string
  | pointer
  | count
  | integer (base : Nat) (sign large : Bool)
  | default
  deriving DecidableEq

def Conversion.of (c : Byte) : Conversion :=
  if c = ch 'c'                   then char
  else if c = ch 's'              then string
  else if c = ch 'p'              then pointer
  else if c = ch 'n'              then count
  else if c = ch 'o'              then integer 8 false false
  else if c = ch 'X'              then integer 16 false true
  else if c = ch 'x'              then integer 16 false false
  else if c = ch 'd' ∨ c = ch 'i' then integer 10 true false
  else if c = ch 'u'              then integer 10 false false
  else default

namespace Directive

def convertChar (w : Writer) (d : Directive) : State :=
  let (n, w) := if ¬d.flags.left then w.fill (ch ' ') 0 (int (d.fieldWidth - 1)) else (d.fieldWidth, w)
  let w := w.put ((w.mem.word d.args).setWidth 8)
  let (_, w) := w.fill (ch ' ') 0 (int (n - 1))
  { d with args := d.args + 4 }.next w

-- `case 's':`, where the address of `"<NULL>"` is `null`
def convertString (null : Word) (w : Writer) (d : Directive) : State :=
  let s := w.mem.word d.args
  let s := if s = 0 then null else s
  let len := int (strnlen w.mem s (BitVec.ofInt 32 d.precision).toNat)
  let (n, w) := if ¬d.flags.left then w.pad (ch ' ') len d.fieldWidth else (d.fieldWidth, w)
  let w := w.copy len.toNat s
  let (_, w) := w.pad (ch ' ') len n
  { d with args := d.args + 4 }.next w

def convertPointer (w : Writer) (d : Directive) : Option State := do
  let d := if d.fieldWidth = -1 then { d with fieldWidth := 8, flags.zeropad := true } else d
  let w ← number w ((w.mem.word d.args).setWidth 64) 16 d.fieldWidth d.precision d.flags
  some ({ d with args := d.args + 4 }.next w)

def convertCount (buf : Word) (w : Writer) (d : Directive) : State :=
  let w := { w with mem := w.mem.setWord (w.mem.word d.args) (w.str - buf) }
  { d with args := d.args + 4 }.next w

-- The integer conversions. The flags `SIGN` and `LARGE` are set before.
def convertInteger (base : Nat) (sign large : Bool) (w : Writer) (d : Directive) : Option State := do
  let flags := { d.flags with sign := d.flags.sign || sign, large := d.flags.large || large }
  let (num, d) := { d with flags }.getNum w.mem
  let w ← number w (num.setWidth 64) base d.fieldWidth d.precision d.flags
  some (d.next w)

def convert (null buf : Word) (w : Writer) (d : Directive) : Option State :=
  let c := w.mem d.fmt
  match Conversion.of c with
  | .char                    => some (d.convertChar w)
  | .string                  => some (d.convertString null w)
  | .pointer                 => d.convertPointer w
  | .count                   => some (d.convertCount buf w)
  | .integer base sign large => d.convertInteger base sign large w
  | .default                 =>
    let w := if c ≠ ch '%' then w.put (ch '%') else w
    if c ≠ 0 then some (d.next (w.put c)) else some ({ d with fmt := d.fmt - 1 }.next w)

end Directive

-- A directive. The pointer `fmt` points to its `%`.
def directive (null buf : Word) (fuel : Nat) (s : State) : Option State := do
  let d ← Directive.processFlags fuel s.mem { fmt := s.fmt, args := s.args }
  let d ← d.getFieldWidth fuel s.mem
  let d ← d.getPrecision fuel s.mem
  (d.getQualifier s.mem).convert null buf s.toWriter

-- `for (str=buf ; *fmt ; ++fmt)`
def loop (null buf : Word) : Nat → State → Option State
  | 0, _        => none
  | fuel + 1, s =>
    let c := s.mem s.fmt
    if c = 0 then some s
    else if c ≠ ch '%' then loop null buf fuel { s.put c with fmt := s.fmt + 1, args := s.args }
    else do loop null buf fuel (← directive null buf fuel s)

def vsprintf (null : Word) (fuel : Nat) (m : Memory) (buf fmt args : Word) : Option (Memory × Word) := do
  let s ← loop null buf fuel { mem := m, str := buf, fmt, args }
  some (s.mem.setByte s.str 0, s.str - buf)

end Stdio
