import Mathlib.Data.Nat.Digits.Defs
import Navilnux.Stdio.Basic

-- What a format means: a text is split into pieces, and every piece stands for some characters.

namespace Stdio

inductive Amount
  | digits (ds : List Byte)
  | star
  deriving DecidableEq

-- A directive without its `%`. There is no conversion if the format ends before it.
structure Spec where
  flags      : List Byte
  width      : Option Amount
  precision  : Option (Option Amount)
  qualifier  : Option Byte
  conversion : Option Byte
  deriving DecidableEq

inductive Piece
  | char (c : Byte)
  | spec (s : Spec)
  deriving DecidableEq

namespace Amount

def text : Amount → List Byte
  | digits ds => ds
  | star      => [ch '*']

def split (l : List Byte) : Option Amount × List Byte :=
  match l with
  | []     => (none, [])
  | c :: l =>
    if isdigit c then (some <| digits ((c :: l).takeWhile isdigit), (c :: l).dropWhile isdigit)
    else if c = ch '*' then (some star, l)
    else (none, c :: l)

end Amount

namespace Spec

def text (s : Spec) : List Byte :=
  s.flags ++ (s.width.elim [] Amount.text ++
    ((s.precision.elim [] fun p => ch '.' :: p.elim [] Amount.text) ++
      (s.qualifier.toList ++ s.conversion.toList)))

def isFlag (c : Byte) : Bool :=
  (({} : Flags).add c).isSome

def isQualifier (c : Byte) : Prop :=
  c = ch 'h' ∨ c = ch 'l' ∨ c = ch 'L'

instance {c : Byte} : Decidable (isQualifier c) :=
  inferInstanceAs <| Decidable (_ ∨ _)

def splitPrecision : List Byte → Option (Option Amount) × List Byte
  | []     => (none, [])
  | c :: l => if c = ch '.' then (some (Amount.split l).1, (Amount.split l).2) else (none, c :: l)

def splitQualifier : List Byte → Option Byte × List Byte
  | []     => (none, [])
  | c :: l => if isQualifier c then (some c, l) else (none, c :: l)

def split (l : List Byte) : Spec × List Byte :=
  let (width, l₁)     := Amount.split (l.dropWhile isFlag)
  let (precision, l₂) := splitPrecision l₁
  let (qualifier, l₃) := splitQualifier l₂
  ({ flags := l.takeWhile isFlag, width, precision, qualifier, conversion := l₃.head? }, l₃.tail)

end Spec

def Piece.text : Piece → List Byte
  | char c => [c]
  | spec s => ch '%' :: s.text

section Split

variable {l : List Byte}

-- No character is lost if a text is split.
theorem Amount.text_split : (split l).1.elim [] text ++ (split l).2 = l := by
  cases l
  case nil => rfl
  case cons c l =>
    rw [split]
    split
    case isTrue => exact List.takeWhile_append_dropWhile
    case isFalse =>
      split
      case isTrue hc => rw [hc]; rfl
      case isFalse   => rfl

theorem Amount.split_length : (split l).2.length ≤ l.length := by
  have h := congrArg List.length (text_split (l := l))
  rw [List.length_append] at h
  omega

namespace Spec

theorem text_splitPrecision : ((splitPrecision l).1.elim [] fun p => ch '.' :: p.elim [] Amount.text) ++
    (splitPrecision l).2 = l := by
  cases l
  case nil => rfl
  case cons c l =>
    rw [splitPrecision]
    split
    case isTrue hc => rw [hc]; exact congrArg (ch '.' :: ·) Amount.text_split
    case isFalse   => rfl

theorem text_splitQualifier : (splitQualifier l).1.toList ++ (splitQualifier l).2 = l := by
  cases l
  case nil => rfl
  case cons c l =>
    rw [splitQualifier]
    split <;> rfl

theorem text_split : (split l).1.text ++ (split l).2 = l := by
  have ht {l : List Byte} : l.head?.toList ++ l.tail = l := by cases l <;> rfl
  simp only [split, text, List.append_assoc]
  rw [ht, text_splitQualifier, text_splitPrecision, Amount.text_split, List.takeWhile_append_dropWhile]

theorem split_length : (split l).2.length ≤ l.length := by
  have h := congrArg List.length (text_split (l := l))
  rw [List.length_append] at h
  omega

end Spec

end Split

def pieces : List Byte → List Piece
  | []     => []
  | c :: l => if c = ch '%' then .spec (Spec.split l).1 :: pieces (Spec.split l).2 else .char c :: pieces l
termination_by l => l.length
decreasing_by
  · exact Nat.lt_succ_of_le Spec.split_length
  · exact Nat.lt_succ_self _

theorem text_pieces {l : List Byte} : (pieces l).flatMap Piece.text = l := by
  induction l using pieces.induct
  case case1 => rw [pieces, List.flatMap_nil]
  case case2 l ih =>
    rw [pieces, if_pos rfl, List.flatMap_cons, ih]
    exact congrArg (ch '%' :: ·) Spec.text_split
  case case3 c l hc ih =>
    rw [pieces, if_neg hc, List.flatMap_cons, ih]
    rfl

-- The characters of an output, where the arguments after it begin, the words that are stored, the parts of
-- the memory that are read, and all field widths and precisions.
structure Output where
  text    : List Byte
  args    : Word
  stores  : List (Word × Word) := []
  reads   : List (Word × Nat)  := []
  amounts : List Int           := []

namespace Output

def append (o₁ o₂ : Output) : Output where
  text    := o₁.text ++ o₂.text
  args    := o₂.args
  stores  := o₁.stores ++ o₂.stores
  reads   := o₁.reads ++ o₂.reads
  amounts := o₁.amounts ++ o₂.amounts

def state (o : Output) (w : Writer) (fmt : Word) : State where
  mem  := (w.mem.stores o.stores).setBytes w.str o.text
  str  := w.str + BitVec.ofNat 32 o.text.length
  fmt  := fmt
  args := o.args

-- No `int` overflows for these amounts, even if `number` counts down what is left of a field.
def Bounded (o : Output) : Prop :=
  ∀ i ∈ o.amounts, i < 2 ^ 31 - 8

end Output

def justify (left : Bool) (width : Int) (l : List Byte) : List Byte :=
  let fill := List.replicate (width - l.length).toNat (ch ' ')
  if left then l ++ fill else fill ++ l

def numeral (digits : List Byte) (base n : Nat) : List Byte :=
  if n = 0 then [ch '0'] else (Nat.digits base n).reverse.map fun d => digits.getD d 0

def Flags.signText (f : Flags) : List Byte :=
  if ¬f.sign then []
  else if f.plus then [ch '+']
  else if f.space then [ch ' '] else []

def Flags.baseText (f : Flags) (digits : List Byte) (base : Nat) : List Byte :=
  if ¬f.special then []
  else if base = 8 then [ch '0']
  else if base = 16 then [ch '0', digits.getD 33 0] else []

def integer (o : Options) (base n : Nat) : List Byte :=
  let digits := if o.flags.large then upper else lower
  let lead   := o.flags.signText ++ o.flags.baseText digits base
  let ds     := numeral digits base n
  let body   := List.replicate (o.precision - ds.length).toNat (ch '0') ++ ds
  if o.flags.zeropad ∧ ¬o.flags.left then
    lead ++ (List.replicate (o.fieldWidth - (lead ++ body).length).toNat (ch '0') ++ body)
  else justify o.flags.left o.fieldWidth (lead ++ body)

def decimal (i : Int) (ds : List Byte) : Int :=
  ds.foldl (fun (i : Int) (d : Byte) => i * 10 + d.toNat - (ch '0').toNat) i

namespace Amount

def value (m : Memory) (args : Word) : Amount → Int
  | digits ds => decimal 0 ds
  | star      => (m.word args).toInt

def size : Amount → Nat
  | digits _ => 0
  | star     => 4

end Amount

def Flags.addAll (f : Flags) (l : List Byte) : Flags :=
  l.foldl (fun f c => (f.add c).getD f) f

namespace Spec

variable (m : Memory) (args : Word) (s : Spec)

def precisionArgs : Word :=
  args + BitVec.ofNat 32 (s.width.elim 0 Amount.size)

def valueArgs : Word :=
  s.precisionArgs args + BitVec.ofNat 32 (s.precision.elim 0 fun p => p.elim 0 Amount.size)

def options : Options where
  flags :=
    let f := ({} : Flags).addAll s.flags
    match s.width with
    | some .star => if (m.word args).toInt < 0 then { f with left := true } else f
    | _          => f
  fieldWidth :=
    match s.width with
    | some .star => (m.word args).toInt.natAbs
    | some w     => w.value m args
    | none       => -1
  precision :=
    match s.precision with
    | some (some p) => max 0 (p.value m (s.precisionArgs args))
    | some none     => 0
    | none          => -1
  qualifier := s.qualifier

def amountReads : List (Word × Nat) :=
  [(args, s.width.elim 0 Amount.size),
    (s.precisionArgs args, s.precision.elim 0 fun p => p.elim 0 Amount.size)]

end Spec

structure Options.Bounded (o : Options) : Prop where
  fieldWidth : -1 ≤ o.fieldWidth ∧ o.fieldWidth < 2 ^ 31 - 8
  precision  : -1 ≤ o.precision ∧ o.precision < 2 ^ 31 - 8

theorem Options.Bounded.fieldWidth_lt {o : Options} (h : o.Bounded) : o.fieldWidth < 2 ^ 31 :=
  Int.lt_trans h.fieldWidth.right (by decide)

def Options.size (o : Options) : Nat :=
  if o.qualifier = some (ch 'h') then 2 else 4

def Options.value (o : Options) (m : Memory) (args : Word) : Word :=
  if o.qualifier = some (ch 'h') then
    let short : BitVec 16 := m (args + 1) ++ m args
    if o.flags.sign then short.signExtend 32 else short.setWidth 32
  else m.word args

namespace Options

variable (o : Options) (m : Memory) (args : Word)

def charOutput : Output where
  text  := justify o.flags.left o.fieldWidth [(m.word args).setWidth 8]
  args  := args + 4
  reads := [(args, 4)]

def stringOutput (null : Word) : Output :=
  let s := if m.word args = 0 then null else m.word args
  let max := (BitVec.ofInt 32 o.precision).toNat
  {
    text  := justify o.flags.left o.fieldWidth (m.text s max)
    args  := args + 4
    reads := [(args, 4), (s, min max ((m.text s max).length + 1))]
  }

def pointerOutput : Output where
  text  :=
    let o := if o.fieldWidth = -1 then { o with fieldWidth := 8, flags.zeropad := true } else o
    integer o 16 (m.word args).toNat
  args  := args + 4
  reads := [(args, 4)]

def countOutput (n : Nat) : Output where
  text   := []
  args   := args + 4
  stores := [(m.word args, BitVec.ofNat 32 n)]
  reads  := [(args, 4)]

def integerOutput (base : Nat) (sign large : Bool) : Output :=
  let o := { o with flags.sign := o.flags.sign || sign, flags.large := o.flags.large || large }
  {
    text  := integer o base (o.value m args).toNat
    args  := args + BitVec.ofNat 32 o.size
    reads := [(args, o.size)]
  }

def output (null : Word) (n : Nat) (c : Byte) : Output :=
  match Conversion.of c with
  | .char                    => o.charOutput m args
  | .string                  => o.stringOutput m args null
  | .pointer                 => o.pointerOutput m args
  | .count                   => countOutput m args n
  | .integer base sign large => o.integerOutput m args base sign large
  | .default                 => { text := if c = ch '%' then [c] else [ch '%', c], args }

end Options

namespace Spec

variable (s : Spec) (m : Memory) (null : Word) (n : Nat) (args : Word)

def convert : Output :=
  match s.conversion with
  | some c => (s.options m args).output m (s.valueArgs args) null n c
  | none   => { text := [ch '%'], args := s.valueArgs args }

def output : Output :=
  let o := s.convert m null n args
  let amounts := [(s.options m args).fieldWidth, (s.options m args).precision]
  { o with reads := s.amountReads args ++ o.reads, amounts }

end Spec

def Piece.output (m : Memory) (null : Word) (n : Nat) (args : Word) : Piece → Output
  | char c => { text := [c], args }
  | spec s => s.output m null n args

def output (m : Memory) (null : Word) : Nat → Word → List Piece → Output
  | _, args, []      => { text := [], args }
  | n, args, p :: ps =>
    let o := p.output m null n args
    o.append <| output m null (n + o.text.length) o.args ps

variable {m : Memory} {null args : Word} {n : Nat} {ps qs : List Piece}

theorem output_append : output m null n args (ps ++ qs) = (output m null n args ps).append
    (output m null (n + (output m null n args ps).text.length) (output m null n args ps).args qs) := by
  induction ps generalizing n args
  case nil => rfl
  case cons p ps ih =>
    have ha {o₁ o₂ o₃ : Output} : o₁.append (o₂.append o₃) = (o₁.append o₂).append o₃ := by
      simp [Output.append]
    have hl {o₁ o₂ : Output} : n + (o₁.append o₂).text.length = n + o₁.text.length + o₂.text.length := by
      simp [Output.append, Nat.add_assoc]
    rw [List.cons_append, output, ih, output, ha, hl]
    rfl

end Stdio
