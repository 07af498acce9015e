namespace Impersonation

abbrev Bytes := List UInt8

namespace Bytes

def ofString (s : String) : Bytes :=
  s.toUTF8.data.toList

/-- The ranges of the bytes that have to follow a leading byte, or `none` for a byte that leads
nothing. -/
def following (lead : UInt8) : Option (List (UInt8 × UInt8)) :=
  if lead < 0x80 then some []
  else if lead < 0xC2 then none
  else if lead < 0xE0 then some [(0x80, 0xBF)]
  else if lead = 0xE0 then some [(0xA0, 0xBF), (0x80, 0xBF)]
  else if lead = 0xED then some [(0x80, 0x9F), (0x80, 0xBF)]
  else if lead < 0xF0 then some [(0x80, 0xBF), (0x80, 0xBF)]
  else if lead = 0xF0 then some [(0x90, 0xBF), (0x80, 0xBF), (0x80, 0xBF)]
  else if lead < 0xF4 then some [(0x80, 0xBF), (0x80, 0xBF), (0x80, 0xBF)]
  else if lead = 0xF4 then some [(0x80, 0x8F), (0x80, 0xBF), (0x80, 0xBF)]
  else none

def fitting : List (UInt8 × UInt8) → Bytes → Nat
  | (lo, hi) :: ranges, b :: rest => if lo ≤ b ∧ b ≤ hi then fitting ranges rest + 1 else 0
  | _, _ => 0

def leadBits (lead : UInt8) (n : Nat) : Nat :=
  if n = 0 then lead.toNat else lead.toNat % 1 <<< (6 - n)

def char (lead : UInt8) (tail : Bytes) : Char :=
  Char.ofNat (tail.foldl (fun code b => code * 64 + b.toNat % 64) (leadBits lead tail.length))

/-- The characters of a byte string, with `none` for each longest run of bytes that starts a
character and does not finish it. -/
def chars : Bytes → List (Option Char)
  | [] => []
  | lead :: rest =>
    match following lead with
    | none => none :: chars rest
    | some ranges =>
      let n := fitting ranges rest
      (if n = ranges.length then some (char lead (rest.take n)) else none) :: chars (rest.drop n)
termination_by bs => bs.length

def text? (bs : Bytes) : Option String :=
  (bs.chars.mapM id).map String.ofList

/-- The text of any byte string, with the replacement character for what is not well formed. -/
def lossy (bs : Bytes) : String :=
  String.ofList (bs.chars.map (·.getD '\uFFFD'))

end Bytes

end Impersonation
