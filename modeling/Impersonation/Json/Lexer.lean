import Impersonation.Bytes

namespace Impersonation.Json

/-- What is wrong with a text, by the first fault in it. -/
inductive ReadError where
  | malformed
  | mistyped
  | truncated
deriving DecidableEq

/-- Reads a value off the front of a text. -/
abbrev Reader (α : Type) := StateT Bytes (Except ReadError) α

def isSpace (b : UInt8) : Bool :=
  b = 0x20 || b = 0x09 || b = 0x0A || b = 0x0D

def isDigit (b : UInt8) : Bool :=
  0x30 ≤ b && b ≤ 0x39

def skipSpace : Reader Unit :=
  modify (List.dropWhile isSpace)

def peek : Reader (Option UInt8) := do
  return (← get).head?

def advance : Reader Unit :=
  modify List.tail

def upcoming : Reader UInt8 := do
  skipSpace
  match ← peek with
  | none => throw .truncated
  | some b => return b

def exactly : Bytes → Reader Unit
  | [] => pure ()
  | expected :: more => do
    match ← peek with
    | none => throw .truncated
    | some b =>
      if b = expected then
        advance
        exactly more
      else throw .malformed

structure Number where
  negative : Bool
  whole : Bytes
  fraction : Option Bytes
  exponent : Option (Bool × Bytes)

def digits : Reader Bytes := do
  let bs ← get
  set (bs.dropWhile isDigit)
  return bs.takeWhile isDigit

/-- At least one digit. `atEnd` is the fault of a text that ends before it. -/
def someDigits (atEnd : ReadError) : Reader Bytes := do
  match ← peek with
  | none => throw atEnd
  | some b => if isDigit b then digits else throw .malformed

def wholeDigits (atEnd : ReadError) : Reader Bytes := do
  let ds ← someDigits atEnd
  if ds.head? = some 0x30 ∧ ds.length ≠ 1 then throw .malformed
  return ds

def fractionDigits (atEnd : ReadError) : Reader (Option Bytes) := do
  if (← peek) = some 0x2E then
    advance
    return some (← someDigits atEnd)
  else return none

def signedDigits (atEnd : ReadError) : Reader (Bool × Bytes) := do
  match ← peek with
  | some 0x2D =>
    advance
    return (true, ← someDigits atEnd)
  | some 0x2B =>
    advance
    return (false, ← someDigits atEnd)
  | _ => return (false, ← someDigits atEnd)

def exponentDigits (atEnd : ReadError) : Reader (Option (Bool × Bytes)) := do
  match ← peek with
  | some 0x65 | some 0x45 =>
    advance
    return some (← signedDigits atEnd)
  | _ => return none

def number (atEnd : ReadError) : Reader Number := do
  let negative := (← peek) = some 0x2D
  if negative then advance
  let whole ← wholeDigits atEnd
  let fraction ← fractionDigits atEnd
  let exponent ← exponentDigits atEnd
  return ⟨negative, whole, fraction, exponent⟩

def digitsValue (ds : Bytes) : Nat :=
  ds.foldl (fun n d => n * 10 + (d.toNat - 0x30)) 0

/-- Extends a number by leading digits while it fits 64 bits; also the count of digits left. -/
def leadingWord (n : Nat) : Bytes → Nat × Nat
  | [] => (n, 0)
  | d :: ds =>
    let next := n * 10 + (d.toNat - 0x30)
    if next < UInt64.size then leadingWord next ds else (n, ds.length + 1)

namespace Number

def scaled (x : Number) : Nat × Int :=
  let power : Int :=
    match x.exponent with
    | none => 0
    | some (negative, ds) => if negative then - digitsValue ds else digitsValue ds
  match leadingWord 0 x.whole with
  | (word, 0) =>
    let fraction := x.fraction.getD []
    let (word, dropped) := leadingWord word fraction
    (word, power - (fraction.length - dropped : Nat))
  | (word, dropped) => (word, power + dropped)

/-- Whether the word times its power of ten is infinite as a double. -/
def isInfinite (x : Number) : Bool :=
  let (word, power) := x.scaled
  if power ≤ 0 ∨ word = 0 then false
  else if 308 < power then true
  else (Float.ofNat word * Float.ofScientific 1 false power.toNat).isInf

def natural? (x : Number) : Option Nat :=
  if !x.negative ∧ x.fraction = none ∧ x.exponent = none then some (digitsValue x.whole) else none

end Number

def hexValue (b : UInt8) : Option Nat :=
  if 0x30 ≤ b ∧ b ≤ 0x39 then some (b.toNat - 0x30)
  else if 0x41 ≤ b ∧ b ≤ 0x46 then some (b.toNat - 0x41 + 10)
  else if 0x61 ≤ b ∧ b ≤ 0x66 then some (b.toNat - 0x61 + 10)
  else none

def hexFour : Reader Nat := do
  match ← get with
  | a :: b :: c :: d :: rest =>
    match hexValue a, hexValue b, hexValue c, hexValue d with
    | some a, some b, some c, some d =>
      set rest
      return ((a * 16 + b) * 16 + c) * 16 + d
    | _, _, _, _ => throw .malformed
  | _ => throw .truncated

def simpleEscape (b : UInt8) : Option UInt8 :=
  if b = 0x22 ∨ b = 0x5C ∨ b = 0x2F then some b
  else if b = 0x62 then some 0x08
  else if b = 0x66 then some 0x0C
  else if b = 0x6E then some 0x0A
  else if b = 0x72 then some 0x0D
  else if b = 0x74 then some 0x09
  else none

def isHighSurrogate (n : Nat) : Bool := 0xD800 ≤ n && n ≤ 0xDBFF

def isLowSurrogate (n : Nat) : Bool := 0xDC00 ≤ n && n ≤ 0xDFFF

/-- The character of a high surrogate, after which the escape of a low one has to follow. -/
def surrogatePair (high : Nat) : Reader Bytes := do
  exactly [0x5C]
  exactly [0x75]
  let low ← hexFour
  if isLowSurrogate low then
    return Bytes.ofString (String.singleton
      (Char.ofNat (0x10000 + (high - 0xD800) * 0x400 + (low - 0xDC00))))
  else throw .malformed

/-- The character after a backslash and a `u`; surrogates count in pairs only. -/
def unicodeEscape : Reader Bytes := do
  let n ← hexFour
  if isLowSurrogate n then throw .malformed
  else if isHighSurrogate n then surrogatePair n
  else return Bytes.ofString (String.singleton (Char.ofNat n))

def escape : Reader Bytes := do
  match ← peek with
  | none => throw .truncated
  | some b =>
    advance
    if b = 0x75 then unicodeEscape
    else
      match simpleEscape b with
      | some c => return [c]
      | none => throw .malformed

/-- Passes over what follows a backslash, whatever character it names. -/
def skipEscape : Reader Unit := do
  match ← peek with
  | none => throw .truncated
  | some b =>
    advance
    if b = 0x75 then discard hexFour
    else if (simpleEscape b).isNone then throw .malformed

/-- The rest of a string after its opening quote, as pieces made by `onEscape`. The first argument
bounds the number of pieces. -/
def stringPieces (onEscape : Reader Bytes) : Nat → Reader Bytes
  | 0 => throw .truncated
  | fuel + 1 => do
    match ← peek with
    | none => throw .truncated
    | some b =>
      advance
      if b = 0x22 then return []
      else if b = 0x5C then
        let piece ← onEscape
        return piece ++ (← stringPieces onEscape fuel)
      else if b < 0x20 then throw .malformed
      else return b :: (← stringPieces onEscape fuel)

def string : Reader Bytes := do
  let content ← stringPieces escape ((← get).length + 1)
  if content.text?.isNone then throw .malformed
  return content

def skipString : Reader Unit := do
  discard (stringPieces (do skipEscape; return []) ((← get).length + 1))

def nullText : Bytes := [0x6E, 0x75, 0x6C, 0x6C]
def trueText : Bytes := [0x74, 0x72, 0x75, 0x65]
def falseText : Bytes := [0x66, 0x61, 0x6C, 0x73, 0x65]

def colon : Reader Unit := do
  if (← upcoming) ≠ 0x3A then throw .malformed
  advance

def skipKey : Reader Unit := do
  if (← upcoming) ≠ 0x22 then throw .malformed
  advance
  skipString
  colon

inductive Enclosure where
  | list
  | object
deriving DecidableEq

def Enclosure.closing : Enclosure → UInt8
  | list => 0x5D
  | object => 0x7D

def skipScalar (b : UInt8) : Reader Unit := do
  if b = 0x6E then exactly nullText
  else if b = 0x74 then exactly trueText
  else if b = 0x66 then exactly falseText
  else if b = 0x22 then
    advance
    skipString
  else if b = 0x2D || isDigit b then discard (number .malformed)
  else throw .malformed

/-- Where the text stands inside lists and objects. -/
inductive Place where
  | value
  /-- The innermost list or object has just begun. -/
  | opened
  | closed

/-- Passes over values until nothing stands open. The first argument bounds the steps. -/
def skipWithin : Nat → Place → List Enclosure → Reader Unit
  | 0, _, _ => throw .truncated
  | _ + 1, .closed, [] => pure ()
  | _ + 1, .opened, [] => pure ()
  | fuel + 1, .value, around => do
    match ← upcoming with
    | 0x5B =>
      advance
      skipWithin fuel .opened (.list :: around)
    | 0x7B =>
      advance
      skipWithin fuel .opened (.object :: around)
    | b =>
      skipScalar b
      skipWithin fuel .closed around
  | fuel + 1, .opened, inner :: around => do
    if (← upcoming) = inner.closing then
      advance
      skipWithin fuel .closed around
    else
      if inner = .object then skipKey
      skipWithin fuel .value (inner :: around)
  | fuel + 1, .closed, inner :: around => do
    let b ← upcoming
    if b = inner.closing then
      advance
      skipWithin fuel .closed around
    else if b = 0x2C then
      advance
      if inner = .object then skipKey
      skipWithin fuel .value (inner :: around)
    else throw .malformed

def skipValue : Reader Unit := do
  skipWithin (2 * (← get).length + 2) .value []

end Impersonation.Json
