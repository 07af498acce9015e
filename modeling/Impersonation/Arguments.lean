import Impersonation.Path
import Impersonation.Told

namespace Impersonation

inductive UsageError where
  | unknownArgument
  | unknownCommand
  | missingCommand
  | missingArgument
  /-- An option without its value, or a path of no bytes. -/
  | emptyValue
  /-- A value that is no id, or a name that is no text. -/
  | badValue
  /-- A value for an option that takes none. -/
  | surplusValue
  | repeatedOption
  | helpRequested
  | versionRequested
  /-- Nothing was given where a command has to be. -/
  | nothingGiven
deriving DecidableEq

namespace Arguments

def dash : UInt8 := 0x2D

def equalsSign : UInt8 := 0x3D

inductive Kind where
  | switch
  | id
  | text
  | path
deriving DecidableEq

namespace Kind

def Value : Kind → Type
  | switch => Bool
  | id => UInt32
  | text => String
  | path => Path

def takesValue (k : Kind) : Bool :=
  k ≠ switch

def on? : (k : Kind) → Option k.Value
  | switch => some true
  | id | text | path => none

end Kind

/-- The commands of a program and the arguments of each, which are options or operands. -/
structure Declaration (κ α : Type) where
  commands : List κ
  commandName : κ → String
  name : α → String
  kind : α → Kind
  default : (a : α) → Option (kind a).Value
  /-- The options of all commands, which may also stand before the command. -/
  globals : List α
  options : κ → List α
  operands : κ → List α
  required : κ → List α
  complete : ∀ c, c ∈ commands
  commandName_injective : ∀ c c', commandName c = commandName c' → c = c'
  commandName_plain : ∀ c, (Bytes.ofString (commandName c)).head? ≠ some dash
  commandName_ne_help : ∀ c, commandName c ≠ "help"
  name_injective : ∀ a a', name a = name a' → a = a'
  name_ne_nil : ∀ a, Bytes.ofString (name a) ≠ []
  name_free : ∀ a, equalsSign ∉ Bytes.ofString (name a)
  name_ne_help : ∀ a, name a ≠ "help"
  name_ne_version : ∀ a, name a ≠ "version"
  required_own : ∀ c, ∀ a ∈ required c, a ∉ globals

inductive Word where
  | endOfOptions
  | long (name : Bytes) (value : Option Bytes)
  /-- A letter is missing where the bytes are no text. -/
  | short (letters : List (Option Char))
  | plain (word : Bytes)
deriving DecidableEq

namespace Word

/-- A long option, with a value from the first equals sign on. -/
def ofLong (bs : Bytes) : Word :=
  match bs.span (· ≠ equalsSign) with
  | (name, []) => .long name none
  | (name, _ :: value) => .long name (some value)

def ofBytes (word : Bytes) : Word :=
  match word with
  | a :: b :: bs =>
    if a ≠ dash then .plain word
    else if b ≠ dash then .short (Bytes.chars (b :: bs))
    else if bs = [] then .endOfOptions
    else ofLong bs
  | _ => .plain word

end Word

def natOf? (cs : List Char) : Option Nat :=
  if cs ≠ [] ∧ cs.all Char.isDigit then some (cs.foldl (fun n c => n * 10 + (c.toNat - 48)) 0)
  else none

/-- An id in decimal digits, with a sign or without; a minus is right before zero alone. -/
def idOf? (s : String) : Option UInt32 :=
  match s.toList with
  | '-' :: cs => (natOf? cs).bind fun n => if n = 0 then some 0 else none
  | '+' :: cs => (natOf? cs).bind ofNat?
  | cs => (natOf? cs).bind ofNat?
where
  ofNat? (n : Nat) : Option UInt32 :=
    if n < UInt32.size then some (UInt32.ofNat n) else none

def readText (word : Bytes) : Except UsageError String :=
  match word.text? with
  | some s => .ok s
  | none => .error .badValue

def readId (word : Bytes) : Except UsageError UInt32 := do
  match idOf? (← readText word) with
  | some n => return n
  | none => throw .badValue

def readPath (word : Bytes) : Except UsageError Path :=
  if word = [] then .error .emptyValue else .ok ⟨word⟩

def Kind.read : (k : Kind) → Bytes → Except UsageError k.Value
  | switch, _ => .error .surplusValue
  | id, word => readId word
  | text, word => readText word
  | path, word => readPath word

inductive Flag (α : Type) where
  | argument (a : α)
  | help
  | version

namespace Declaration

variable {κ α : Type} (D : Declaration κ α)

abbrev Values := (a : α) → Option (D.kind a).Value

/-- A command with the values of its arguments. -/
structure Matches where
  command : κ
  values : D.Values

def flagName : Flag α → String
  | .argument a => D.name a
  | .help => "help"
  | .version => "version"

def valued? : Flag α → Option α
  | .argument a => if (D.kind a).takesValue then some a else none
  | .help | .version => none

def leadingFlags : List (Flag α) :=
  D.globals.map .argument ++ [.help, .version]

def flags (c : κ) : List (Flag α) :=
  (D.options c ++ D.globals).map .argument ++ [.help]

def commandOf? (word : Bytes) : Option κ :=
  D.commands.find? fun c => Bytes.ofString (D.commandName c) = word

variable [DecidableEq α]

def give (g : D.Values) (a : α) (word : Bytes) : Except UsageError D.Values := do
  if (g a).isSome then throw .repeatedOption
  return assign g ⟨a, some (← (D.kind a).read word)⟩

def giveSwitch (g : D.Values) : Flag α → Except UsageError D.Values
  | .argument a =>
    match (D.kind a).on? with
    | none => .error .emptyValue
    | some on => if (g a).isSome then .error .repeatedOption else .ok (assign g ⟨a, some on⟩)
  | .help => .error .helpRequested
  | .version => .error .versionRequested

end Declaration

def letter? {α : Type} : Flag α → Option Char
  | .help => some 'h'
  | .version => some 'V'
  | .argument _ => none

/-- A word whose meaning is settled by the words after it. -/
inductive Pending (α : Type) where
  | nothing
  | option (a : α)
  | value (a : α) (word : Bytes)

structure Progress {κ α : Type} (D : Declaration κ α) where
  given : D.Values := fun _ => none
  pending : Pending α := .nothing
  operands : Nat := 0
  /-- All further words are operands. -/
  optionsEnded : Bool := false

namespace Progress

variable {κ α : Type} {D : Declaration κ α}

def awaitsCommand (p : Progress D) : Bool :=
  !p.optionsEnded &&
    match p.pending with
    | .option _ => false
    | _ => true

variable [DecidableEq α]

def settle (p : Progress D) : Except UsageError (Progress D) := do
  let given ←
    match p.pending with
    | .nothing => pure p.given
    | .option _ => throw .emptyValue
    | .value a word => D.give p.given a word
  return { p with given, pending := .nothing }

def long (p : Progress D) (flags : List (Flag α)) (name : Bytes) (value : Option Bytes) :
    Except UsageError (Progress D) := do
  match flags.find? fun f => Bytes.ofString (D.flagName f) = name with
  | none => throw .unknownArgument
  | some f =>
    match value, D.valued? f with
    | none, none =>
      let p ← p.settle
      return { p with given := ← D.giveSwitch p.given f }
    | none, some a =>
      let p ← p.settle
      return { p with pending := .option a }
    | some _, none => throw .surplusValue
    | some word, some a =>
      let p ← p.settle
      return { p with given := ← D.give p.given a word }

/-- A cluster of one-letter options. -/
def short (p : Progress D) (flags : List (Flag α)) :
    List (Option Char) → Except UsageError (Progress D)
  | [] => return p
  | c :: cs => do
    match flags.find? fun f => c.isSome && letter? f = c with
    | none => throw .unknownArgument
    | some f =>
      let p ← p.settle
      short { p with given := ← D.giveSwitch p.given f } flags cs

/-- An operand; `surplus` is the error where none is left to be given. -/
def operand (p : Progress D) (operands : List α) (surplus : UsageError) (word : Bytes) :
    Except UsageError (Progress D) := do
  match operands[p.operands]? with
  | none => throw surplus
  | some a =>
    let p ← p.settle
    return { p with pending := .value a word, operands := p.operands + 1 }

def word (p : Progress D) (flags : List (Flag α)) (operands : List α) (surplus : UsageError)
    (word : Bytes) : Except UsageError (Progress D) :=
  if p.optionsEnded then p.operand operands surplus word
  else
    match Word.ofBytes word with
    | .endOfOptions => .ok { p with optionsEnded := true }
    | .long name value => p.long flags name value
    | .short letters => p.short flags letters
    | .plain word =>
      match p.pending with
      | .option a => .ok { p with pending := .value a word }
      | _ => p.operand operands surplus word

end Progress

def helpWord : Bytes := Bytes.ofString "help"

namespace Declaration

variable {κ α : Type} (D : Declaration κ α)

def isName (word : Bytes) : Bool :=
  word = helpWord || (D.commandOf? word).isSome

/-- Whether the words after the help word name something that there is help on. -/
def parseHelp : List Bytes → UsageError
  | [] => .helpRequested
  | [word] => if D.isName word then .helpRequested else .unknownCommand
  | _ :: _ :: _ => .unknownCommand

def strayWord (p : Progress D) (word : Bytes) : UsageError :=
  if p.optionsEnded && D.isName word then .unknownArgument else .unknownCommand

variable [DecidableEq α]

def parseArguments (c : κ) (words : List Bytes) : Except UsageError D.Values := do
  let p ← words.foldlM (fun p word => p.word (D.flags c) (D.operands c) .unknownArgument word)
    ({} : Progress D)
  let given := (← p.settle).given
  if (D.required c).all fun a => (given a).isSome then return given else throw .missingArgument

def parseNoCommand (p : Progress D) : Except UsageError D.Matches := do
  let given := (← p.settle).given
  if D.globals.all fun a => (given a).isNone then throw .nothingGiven else throw .missingCommand

/-- Parses words from a place before the command. What is given after the command counts. -/
def parseFrom (p : Progress D) : List Bytes → Except UsageError D.Matches
  | [] => D.parseNoCommand p
  | word :: rest =>
    if p.awaitsCommand ∧ word = helpWord then .error (D.parseHelp rest)
    else
      match if p.awaitsCommand then D.commandOf? word else none with
      | some command => do
        let after ← D.parseArguments command rest
        let before := (← p.settle).given
        return { command, values := fun a => (after a).or ((before a).or (D.default a)) }
      | none => do
        let p ← p.word D.leadingFlags [] (D.strayWord p word) word
        parseFrom p rest

/-- Options stand anywhere after the command, and those of all commands before it too; `--` ends the
options. -/
def parse (words : List Bytes) : Except UsageError D.Matches :=
  D.parseFrom {} words

end Declaration

end Arguments

end Impersonation
