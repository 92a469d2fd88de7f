import Ricerca.Foundation.Stores

/-! Formatted output (`lib/fmt.c`). Places in the buffer count from its start. -/
namespace Ricerca.Fmt

open Ricerca.Foundation

abbrev Buffer := Stored UInt8

/-- Conversion to `int`. -/
def toInt (x : Int) : Int := x.bmod (2 ^ 32)

/-- A base of numbers. -/
structure Base where
  val : Nat
  two_le : 2 ≤ val
  le_sixteen : val ≤ 16

def decimal : Base := ⟨10, by decide, by decide⟩

def hexadecimal : Base := ⟨16, by decide, by decide⟩

def char (c : Char) : UInt8 := c.toUInt8

/-- `digits[mod]`. -/
def digit (mod : Nat) : UInt8 := ("0123456789abcdef".toList.map char).getD mod 0

section Numbers

/-- The digits of a number from the last one on, while there is space left. -/
def putDigits (buf size : Int) (base : Base) (val : Nat) (written : Int) (b : Buffer) :
    Int × Buffer :=
  if written < size then
    if val / base.val = 0 then (written + 1, b.store (buf + written) (digit (val % base.val)))
    else putDigits buf size base (val / base.val) (written + 1)
      (b.store (buf + written) (digit (val % base.val)))
  else (written, b)
termination_by val
decreasing_by
  rename_i hNonzero
  exact Nat.div_lt_self (Nat.pos_of_ne_zero fun hZero => hNonzero (by rw [hZero, Nat.zero_div]))
    base.two_le

/-- Zeroes up to a width, while there is space left. -/
def padZeroes (buf size width written : Int) (b : Buffer) : Int × Buffer :=
  if written < width ∧ written < size then
    padZeroes buf size width (written + 1) (b.store (buf + written) (char '0'))
  else (written, b)
termination_by (width - written).toNat

/-- One round of the loop that reverses the bytes. -/
def swapBytes (buf written : Int) (b : Buffer) (i : Nat) : Buffer :=
  let c := b.contents (buf + i)
  let b := b.store (buf + i) (b.contents (buf + (written - 1 - i)))
  b.store (buf + (written - 1 - i)) c

def reverseBytes (buf written : Int) (b : Buffer) : Buffer :=
  (List.range (written / 2).toNat).foldl (swapBytes buf written) b

def fmtPutui (val : UInt64) (buf size : Int) (base : Base) (width : Int) (b : Buffer) :
    Int × Buffer :=
  let (written, b) := putDigits buf size base val.toNat 0 b
  let (written, b) := padZeroes buf size width written b
  (written, reverseBytes buf written b)

/-- Absolute value, and whether there is a sign to print. -/
def absolute (val : Int64) : UInt64 × Bool :=
  if val = Int64.minValue then (Int64.maxValue.toUInt64 + 1, true)
  else if val < 0 then ((-val).toUInt64, true)
  else (val.toUInt64, false)

def fmtPuti (val : Int64) (buf size : Int) (base : Base) (b : Buffer) : Int × Buffer :=
  let (abs, negative) := absolute val
  if negative then
    if size = 0 then (0, b)
    else
      let (written, b) := fmtPutui abs (buf + 1) (toInt (size - 1)) base 0 (b.store buf (char '-'))
      (toInt (1 + written), b)
  else fmtPutui abs buf size base 0 b

end Numbers

section Formats

/-- A C string with what follows it in memory. -/
structure CString where
  contents : Nat → UInt8
  length : Nat
  nonzero : ∀ i < length, contents i ≠ 0
  terminated : contents length = 0

/-- The string of some bytes. -/
def CString.ofBytes (bytes : List UInt8) (h : 0 ∉ bytes) : CString where
  contents := fun i => bytes.getD i 0
  length := bytes.length
  nonzero := by
    intro i hi hZero
    have hGet : bytes.getD i 0 = bytes[i] := by simp [hi]
    exact h (hZero ▸ hGet ▸ List.getElem_mem hi)
  terminated := by simp

/-- An argument of the variable part. -/
inductive Arg where
  | int32 (val : Int32)
  | int64 (val : Int64)
  | uint32 (val : UInt32)
  | uint64 (val : UInt64)
  | string (str : CString)

/-- The format specifiers. -/
inductive Specifier where
  | percent
  | c
  | s
  | d
  | D
  | u
  | U
  | x
  | X
  | p
  deriving DecidableEq, Repr

/-- The cases of the `switch`. -/
def specifier (type : UInt8) : Option Specifier :=
  if type = char '%' then some .percent
  else if type = char 'c' then some .c
  else if type = char 's' then some .s
  else if type = char 'd' then some .d
  else if type = char 'D' then some .D
  else if type = char 'u' then some .u
  else if type = char 'U' then some .U
  else if type = char 'x' then some .x
  else if type = char 'X' then some .X
  else if type = char 'p' then some .p
  else none

/-- `bytes_written` and the buffer. -/
abbrev State := Int × Buffer

def putChar (c : UInt8) (s : State) : State := (toInt (s.1 + 1), s.2.store s.1 c)

/-- The case of `%s`. -/
def putString (bytesMax : Int) (str : CString) (s : State) : State :=
  let length := toInt str.length
  let trimmedLength : Nat := ((if bytesMax < length then bytesMax else length) % 2 ^ 64).toNat
  (toInt (s.1 + trimmedLength), s.2.copy s.1 str.contents trimmedLength)

/-- `UINT_FORMAT_CASE`. -/
def uintFormatCase (bytesMax : Int) (val : UInt64) (base : Base) (padding : Int) (s : State) :
    State :=
  let (written, b) := fmtPutui val s.1 (toInt (bytesMax - s.1)) base padding s.2
  (toInt (s.1 + written), b)

/-- The cases of `%d` and `%D`. -/
def intFormatCase (bytesMax : Int) (val : Int64) (s : State) : State :=
  let (written, b) := fmtPuti val s.1 (toInt (bytesMax - s.1)) decimal s.2
  (toInt (s.1 + written), b)

/-- What a specifier does. The arguments have to be of the types that it takes. -/
def putSpecifier (bytesMax : Int) (s : State) : Specifier → List Arg → Option (State × List Arg)
  | .percent, args => some (putChar (char '%') s, args)
  | .c, .int32 val :: args => some (putChar val.toInt8.toUInt8 s, args)
  | .s, .string str :: args => some (putString bytesMax str s, args)
  | .d, .int32 val :: args => some (intFormatCase bytesMax val.toInt64 s, args)
  | .D, .int64 val :: args => some (intFormatCase bytesMax val s, args)
  | .u, .uint32 val :: args => some (uintFormatCase bytesMax val.toUInt64 decimal 0 s, args)
  | .U, .uint64 val :: args => some (uintFormatCase bytesMax val decimal 0 s, args)
  | .x, .uint32 val :: args => some (uintFormatCase bytesMax val.toUInt64 hexadecimal 0 s, args)
  | .X, .uint64 val :: args => some (uintFormatCase bytesMax val hexadecimal 0 s, args)
  | .p, .uint64 val :: args => some (uintFormatCase bytesMax val hexadecimal 16 s, args)
  | _, _ => none

/-- The loop over the format. -/
def vsnprintfLoop (bytesMax : Int) : List UInt8 → List Arg → State → Option State
  | [], _, s => some s
  | c :: format, args, s =>
      if bytesMax = s.1 then some s
      else if c ≠ char '%' then vsnprintfLoop bytesMax format args (putChar c s)
      else
        match format with
        | [] => some s
        | type :: format =>
            match specifier type with
            | none => vsnprintfLoop bytesMax format args s
            | some spec => do
                let (s, args) ← putSpecifier bytesMax s spec args
                vsnprintfLoop bytesMax format args s

/-- What is returned, and the buffer afterwards. A format is given by its bytes before the
terminating NUL. -/
def vsnprintf (buf : Buffer) (size : Nat) (format : List UInt8) (args : List Arg) :
    Option State := do
  if size = 0 then return (0, buf)
  let bytesMax := toInt (toInt size - 1)
  let (written, b) ← vsnprintfLoop bytesMax format args (0, buf)
  return (written, b.store written 0)

end Formats

end Ricerca.Fmt
