namespace Impersonation.Json

inductive Value where
  | null
  | bool (b : Bool)
  | number (n : Nat)
  | text (s : String)
  | numbers (ns : List Nat)
deriving DecidableEq

def hexDigit (n : Nat) : Char :=
  (Nat.toDigits 16 n).headD '0'

def escapeChar (c : Char) : List Char :=
  if c = '"' then ['\\', '"']
  else if c = '\\' then ['\\', '\\']
  else if c = '\x08' then ['\\', 'b']
  else if c = '\x0c' then ['\\', 'f']
  else if c = '\n' then ['\\', 'n']
  else if c = '\r' then ['\\', 'r']
  else if c = '\t' then ['\\', 't']
  else if c < ' ' then
    ['\\', 'u', '0', '0', hexDigit (c.toNat / 16), hexDigit (c.toNat % 16)]
  else [c]

def quote (s : String) : String :=
  "\"" ++ String.ofList (s.toList.flatMap escapeChar) ++ "\""

namespace Value

def print : Value → String
  | null => "null"
  | bool b => if b then "true" else "false"
  | number n => toString n
  | text s => quote s
  | numbers [] => "[]"
  | numbers ns => "[\n" ++ ",\n".intercalate (ns.map fun n => "    " ++ toString n) ++ "\n  ]"

def ofText? : Option String → Value
  | some s => text s
  | none => null

def ofNumber? : Option UInt32 → Value
  | some n => number n.toNat
  | none => null

end Value

def printObject (members : List (String × Value)) : String :=
  "\x7b\n" ++ ",\n".intercalate (members.map fun (k, v) => "  " ++ quote k ++ ": " ++ v.print) ++
    "\n\x7d"

end Impersonation.Json
