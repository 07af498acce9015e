import Impersonation.Json.Lexer

namespace Impersonation.Json

def IsSpace (space : Bytes) : Prop :=
  ∀ b ∈ space, isSpace b = true

instance (space : Bytes) : Decidable (IsSpace space) :=
  decidable_of_iff (space.all isSpace) List.all_eq_true

inductive Piece where
  | plain (b : UInt8)
  | escape (b : UInt8)
  | unicode (a b c d : UInt8)

def fourHex (a b c d : UInt8) : Option Nat := do
  let a ← hexValue a
  let b ← hexValue b
  let c ← hexValue c
  let d ← hexValue d
  return ((a * 16 + b) * 16 + c) * 16 + d

namespace Piece

def bytes : Piece → Bytes
  | plain b => [b]
  | escape b => [0x5C, b]
  | unicode a b c d => [0x5C, 0x75, a, b, c, d]

def Valid : Piece → Prop
  | plain b => ¬ b < 0x20 ∧ b ≠ 0x22 ∧ b ≠ 0x5C
  | escape b => (simpleEscape b).isSome
  | unicode a b c d => (fourHex a b c d).isSome

end Piece

def quoted (pieces : List Piece) : Bytes :=
  0x22 :: (pieces.flatMap Piece.bytes ++ [0x22])

def utf8 (n : Nat) : Bytes :=
  Bytes.ofString (String.singleton (Char.ofNat n))

/-- The bytes a string stands for, unless it escapes half of a surrogate pair. -/
def content? : List Piece → Option Bytes
  | [] => some []
  | .plain b :: pieces => (content? pieces).map (b :: ·)
  | .escape b :: pieces => do
    let c ← simpleEscape b
    return c :: (← content? pieces)
  | .unicode a b c d :: pieces => do
    let n ← fourHex a b c d
    if isLowSurrogate n then none
    else if isHighSurrogate n then
      match pieces with
      | .unicode a b c d :: pieces => do
        let m ← fourHex a b c d
        if isLowSurrogate m then
          return utf8 (0x10000 + (n - 0xD800) * 0x400 + (m - 0xDC00)) ++ (← content? pieces)
        else none
      | _ => none
    else return utf8 n ++ (← content? pieces)

def IsDigits (ds : Bytes) : Prop :=
  ds ≠ [] ∧ ∀ d ∈ ds, isDigit d = true

/-- The parts of the text of a number; an exponent has its mark, its sign and its digits. -/
structure Numeral where
  negative : Bool
  whole : Bytes
  fraction : Option Bytes
  exponent : Option (UInt8 × Option UInt8 × Bytes)

namespace Numeral

structure Valid (x : Numeral) : Prop where
  whole : IsDigits x.whole
  zero : x.whole.head? = some 0x30 → x.whole.length = 1
  fraction : ∀ ds, x.fraction = some ds → IsDigits ds
  mark : ∀ mark sign ds, x.exponent = some (mark, sign, ds) → mark = 0x65 ∨ mark = 0x45
  sign : ∀ mark sign ds, x.exponent = some (mark, some sign, ds) → sign = 0x2B ∨ sign = 0x2D
  power : ∀ mark sign ds, x.exponent = some (mark, sign, ds) → IsDigits ds

def fractionBytes (x : Numeral) : Bytes :=
  match x.fraction with
  | none => []
  | some ds => 0x2E :: ds

def exponentBytes (x : Numeral) : Bytes :=
  match x.exponent with
  | none => []
  | some (mark, sign, ds) => mark :: (sign.toList ++ ds)

def bytes (x : Numeral) : Bytes :=
  (if x.negative then [0x2D] else []) ++ (x.whole ++ (x.fractionBytes ++ x.exponentBytes))

def number (x : Numeral) : Number where
  negative := x.negative
  whole := x.whole
  fraction := x.fraction
  exponent := x.exponent.map fun (_, sign, ds) => (sign = some 0x2D, ds)

end Numeral

def boolText (b : Bool) : Bytes :=
  if b then trueText else falseText

inductive Scalar : Bytes → Prop
  | null : Scalar nullText
  | bool (b : Bool) : Scalar (boolText b)
  | string {pieces : List Piece} (valid : ∀ p ∈ pieces, p.Valid) : Scalar (quoted pieces)
  | number {x : Numeral} (valid : x.Valid) : Scalar x.bytes

def Enclosure.opening : Enclosure → UInt8
  | list => 0x5B
  | object => 0x7B

/-- An element of a list, which has no key, or a member of an object. -/
structure Item where
  key : List Piece
  value : Bytes

inductive Heads : Enclosure → List Piece → Bytes → Prop
  | element : Heads .list [] []
  | key {before after : Bytes} {key : List Piece} (space : IsSpace before) (space' : IsSpace after)
      (valid : ∀ p ∈ key, p.Valid) :
      Heads .object key (before ++ (quoted key ++ (after ++ [0x3A])))

/-- A kind of text: a value, or the rest of a list or an object with these items still to come,
after its bracket or after an item. -/
inductive Form where
  | value
  | opened (inner : Enclosure) (items : List Item)
  | closed (inner : Enclosure) (items : List Item)

inductive WellFormed : Form → Bytes → Prop
  | scalar {space v : Bytes} (spaces : IsSpace space) (scalar : Scalar v) :
      WellFormed .value (space ++ v)
  | enclosed {space v : Bytes} {inner : Enclosure} {items : List Item} (spaces : IsSpace space)
      (body : WellFormed (.opened inner items) v) :
      WellFormed .value (space ++ inner.opening :: v)
  | empty {space : Bytes} {inner : Enclosure} (spaces : IsSpace space) :
      WellFormed (.opened inner []) (space ++ [inner.closing])
  | first {head v : Bytes} {inner : Enclosure} {i : Item} {items : List Item}
      (heads : Heads inner i.key head) (value : WellFormed .value i.value)
      (rest : WellFormed (.closed inner items) v) :
      WellFormed (.opened inner (i :: items)) (head ++ (i.value ++ v))
  | last {space : Bytes} {inner : Enclosure} (spaces : IsSpace space) :
      WellFormed (.closed inner []) (space ++ [inner.closing])
  | next {space head v : Bytes} {inner : Enclosure} {i : Item} {items : List Item}
      (spaces : IsSpace space) (heads : Heads inner i.key head)
      (value : WellFormed .value i.value) (rest : WellFormed (.closed inner items) v) :
      WellFormed (.closed inner (i :: items)) (space ++ 0x2C :: (head ++ (i.value ++ v)))

end Impersonation.Json
