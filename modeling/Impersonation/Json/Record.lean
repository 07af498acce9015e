import Impersonation.Json.Lexer
import Impersonation.Told

namespace Impersonation.Json

def wrongKind {α : Type} (b : UInt8) : Reader α := do
  if b = 0x6E then exactly nullText
  else if b = 0x74 then exactly trueText
  else if b = 0x66 then exactly falseText
  else if b = 0x22 then
    advance
    discard string
  else if b = 0x2D || isDigit b then
    if (← number .truncated).isInfinite then throw .malformed
  else if b ≠ 0x5B && b ≠ 0x7B then throw .malformed
  throw .mistyped

def word : Reader UInt32 := do
  let b ← upcoming
  if isDigit b then
    let x ← number .truncated
    if x.isInfinite then throw .malformed
    match x.natural? with
    | some n => if n < UInt32.size then return UInt32.ofNat n else throw .mistyped
    | none => throw .mistyped
  else wrongKind b

def bool : Reader Bool := do
  let b ← upcoming
  if b = 0x74 then
    exactly trueText
    return true
  else if b = 0x66 then
    exactly falseText
    return false
  else wrongKind b

def nullable {α : Type} (value : Reader α) : Reader (Option α) := do
  let b ← upcoming
  if b = 0x6E then
    exactly nullText
    return none
  else return some (← value)

inductive ValueType where
  | word
  | bool
  | wordOrNull

namespace ValueType

def Carrier : ValueType → Type
  | word => UInt32
  | bool => Bool
  | wordOrNull => Option UInt32

def read : (t : ValueType) → Reader t.Carrier
  | word => Json.word
  | bool => Json.bool
  | wordOrNull => nullable Json.word

end ValueType

/-- The declaration of a record: its members in order, and for each the key, the type and the value
that it has where a text does not give one. -/
structure Schema (ι : Type) where
  members : List ι
  key : ι → String
  type : ι → ValueType
  default : (i : ι) → (type i).Carrier
  complete : ∀ i, i ∈ members
  distinct : members.Nodup
  key_injective : ∀ i j, key i = key j → i = j

namespace Schema

variable {ι : Type} (s : Schema ι)

abbrev Record := (i : ι) → (s.type i).Carrier

abbrev Entry := (i : ι) × (s.type i).Carrier

def ofKey? (key : Bytes) : Option ι :=
  s.members.find? fun i => Bytes.ofString (s.key i) = key

variable [DecidableEq ι]

/-- One member of an object after the opening quote of its key. `seen` holds the members that came
before. Unknown keys are passed over. -/
def readMember (seen : List ι) (r : s.Record) : Reader (List ι × s.Record) := do
  let key ← string
  match s.ofKey? key with
  | none =>
    colon
    skipValue
    return (seen, r)
  | some i =>
    if i ∈ seen then throw .mistyped
    colon
    return (i :: seen, assign r ⟨i, ← (s.type i).read⟩)

/-- The members of an object, from the place after the opening bracket or after a member. The first
argument bounds their number. -/
def readMembers : Nat → Bool → List ι → s.Record → Reader s.Record
  | 0, _, _, _ => throw .truncated
  | fuel + 1, isFirst, seen, r => do
    let b ← upcoming
    if b = 0x7D then
      advance
      return r
    if !isFirst then
      if b ≠ 0x2C then throw .malformed
      advance
    if (← upcoming) ≠ 0x22 then throw .malformed
    advance
    let (seen, r) ← s.readMember seen r
    readMembers fuel false seen r

def readElements : List ι → Bool → s.Record → Reader s.Record
  | [], _, r => do
    if (← upcoming) ≠ 0x5D then throw .malformed
    advance
    return r
  | i :: members, isFirst, r => do
    let b ← upcoming
    if b = 0x5D then
      advance
      return r
    if !isFirst then
      if b ≠ 0x2C then throw .malformed
      advance
      if (← upcoming) = 0x5D then throw .malformed
    readElements members false (assign r ⟨i, ← (s.type i).read⟩)

/-- A record as an object, or as a list of values in the order of the members. -/
def readValue : Reader s.Record := do
  match ← upcoming with
  | 0x7B =>
    advance
    s.readMembers ((← get).length + 1) true [] s.default
  | 0x5B =>
    advance
    s.readElements s.members true s.default
  | b => wrongKind b

def read (text : Bytes) : Except ReadError s.Record := do
  let (r, rest) ← s.readValue.run text
  if rest.all isSpace then return r else throw .malformed

end Schema

end Impersonation.Json
