import Impersonation.Arguments
import Impersonation.Proofs.Text
import Mathlib.Data.List.Induction
import Mathlib.Data.List.Nodup
import Mathlib.Data.List.TakeDrop
import Mathlib.Data.List.TakeWhile

namespace Impersonation.Arguments

def idText (plus : Bool) (zeros : Nat) (id : UInt32) : String :=
  String.ofList ((if plus then ['+'] else []) ++
    (List.replicate zeros '0' ++ Nat.toDigits 10 id.toNat))

theorem natOf?_digits (zeros n : Nat) :
    natOf? (List.replicate zeros '0' ++ Nat.toDigits 10 n) = some n := by
  have some_digit : List.replicate zeros '0' ++ Nat.toDigits 10 n ≠ [] := by
    simp [Nat.toDigits_ne_nil]
  have all_digits : (List.replicate zeros '0' ++ Nat.toDigits 10 n).all Char.isDigit := by
    rw [List.all_eq_true]
    intro c hc
    rcases List.mem_append.mp hc with zero | digit
    · rw [(List.mem_replicate.mp zero).2]
      rfl
    · exact Nat.isDigit_of_mem_toDigits (by decide) (by decide) digit
  have value : Nat.ofDigitChars 10 (List.replicate zeros '0' ++ Nat.toDigits 10 n) 0 = n := by
    rw [Nat.ofDigitChars_append, Nat.ofDigitChars_replicate_zero, Nat.mul_zero,
      Nat.ofDigitChars_ten_toDigits]
  simp only [Nat.ofDigitChars_eq_foldl, Nat.mul_comm 10] at value
  rw [natOf?, if_pos ⟨some_digit, all_digits⟩]
  exact congrArg some value

theorem head_digits {zeros n : Nat} {c : Char} {cs : List Char}
    (h : List.replicate zeros '0' ++ Nat.toDigits 10 n = c :: cs) : c.isDigit := by
  have mem : c ∈ List.replicate zeros '0' ++ Nat.toDigits 10 n := by simp [h]
  rcases List.mem_append.mp mem with zero | digit
  · rw [(List.mem_replicate.mp zero).2]
    rfl
  · exact Nat.isDigit_of_mem_toDigits (by decide) (by decide) digit

theorem idOf?_idText (plus : Bool) (zeros : Nat) (id : UInt32) :
    idOf? (idText plus zeros id) = some id := by
  have digits := natOf?_digits zeros id.toNat
  have fits : idOf?.ofNat? id.toNat = some id := by
    rw [idOf?.ofNat?, if_pos id.toNat_lt, UInt32.ofNat_toNat]
  rw [idOf?, idText, String.toList_ofList]
  cases plus with
  | true => simp [digits, fits]
  | false =>
    rw [if_neg (by decide), List.nil_append]
    split
    next h => exact absurd (head_digits h) (by decide)
    next h => exact absurd (head_digits h) (by decide)
    next => rw [digits, Option.bind_some, fits]

theorem readText_ofString (s : String) : readText (Bytes.ofString s) = .ok s := by
  rw [readText, Bytes.text?_ofString]

theorem readId_idText (plus : Bool) (zeros : Nat) (id : UInt32) :
    readId (Bytes.ofString (idText plus zeros id)) = .ok id := by
  simp [readId, readText_ofString, idOf?_idText, pure, Except.pure, bind, Except.bind]

def Kind.Writes : (k : Kind) → Bytes → k.Value → Prop
  | switch, _, _ => False
  | id, word, n => ∃ plus zeros, word = Bytes.ofString (idText plus zeros n)
  | text, word, s => word = Bytes.ofString s
  | path, word, p => word ≠ [] ∧ p = ⟨word⟩

theorem Kind.Writes.read_eq {k : Kind} {word : Bytes} {v : k.Value} (h : k.Writes word v) :
    k.read word = .ok v := by
  cases k with
  | switch => exact h.elim
  | id =>
    obtain ⟨plus, zeros, rfl⟩ := h
    exact readId_idText plus zeros v
  | text =>
    obtain rfl : word = Bytes.ofString v := h
    exact readText_ofString v
  | path =>
    obtain ⟨some_byte, rfl⟩ := h
    exact if_neg some_byte

theorem Kind.Writes.takesValue {k : Kind} {word : Bytes} {v : k.Value} (h : k.Writes word v) :
    k.takesValue = true := by
  cases k with
  | switch => exact h.elim
  | _ => rfl

theorem Kind.not_takesValue {k : Kind} {v : k.Value} (h : k.on? = some v) :
    k.takesValue = false := by
  cases k with
  | switch => rfl
  | _ => cases h

def IsPlain (word : Bytes) : Prop :=
  word.head? ≠ some dash
deriving Decidable

theorem IsPlain.ofBytes {word : Bytes} (h : IsPlain word) : Word.ofBytes word = .plain word := by
  match word, h with
  | [], _ => rfl
  | [_], _ => rfl
  | a :: _ :: _, h =>
    have other : a ≠ dash := fun same => h (congrArg some same)
    rw [Word.ofBytes, if_pos other]

/-- A piece of an argument vector: an option with its value in the same word or in the next, an
option without a value, or an operand. -/
inductive Item (α : Type) where
  | option (a : α) (word : Bytes) (joined : Bool)
  | switch (a : α)
  | operand (a : α) (word : Bytes)

namespace Item

variable {α : Type}

def argument : Item α → α
  | option a _ _ | switch a | operand a _ => a

def option? : Item α → Option α
  | option a _ _ | switch a => some a
  | operand _ _ => none

def operand? : Item α → Option α
  | option _ _ _ | switch _ => none
  | operand a _ => some a

def isOperand (i : Item α) : Bool :=
  i.operand?.isSome

def apart : Item α → Item α
  | option a word _ => option a word false
  | i => i

@[simp] theorem argument_apart (i : Item α) : i.apart.argument = i.argument := by
  cases i <;> rfl

@[simp] theorem option?_apart (i : Item α) : i.apart.option? = i.option? := by
  cases i <;> rfl

@[simp] theorem operand?_apart (i : Item α) : i.apart.operand? = i.operand? := by
  cases i <;> rfl

theorem option?_eq_none {i : Item α} : i.option? = none ↔ i.isOperand := by
  cases i <;> simp [option?, isOperand, operand?]

theorem argument_of_option? {i : Item α} {a : α} (h : i.option? = some a) : i.argument = a := by
  cases i <;> simp_all [option?, argument]

theorem operand?_of_option? {i : Item α} {a : α} (h : i.option? = some a) : i.operand? = none := by
  cases i <;> simp_all [option?, operand?]

end Item

namespace Declaration

variable {κ α : Type} (D : Declaration κ α)

def flagWord (a : α) : Bytes :=
  dash :: dash :: Bytes.ofString (D.name a)

def itemWords : Item α → List Bytes
  | .option a word true => [D.flagWord a ++ equalsSign :: word]
  | .option a word false => [D.flagWord a, word]
  | .switch a => [D.flagWord a]
  | .operand _ word => [word]

/-- The argument vector of a command, with these items before and after its name. -/
def words (c : κ) (before after : List (Item α)) : List Bytes :=
  before.flatMap D.itemWords ++ Bytes.ofString (D.commandName c) :: after.flatMap D.itemWords

def Tells : (i : Item α) → (D.kind i.argument).Value → Prop
  | .option a word _, v | .operand a word, v => IsPlain word ∧ (D.kind a).Writes word v
  | .switch a, v => (D.kind a).on? = some v

/-- An argument vector that spells a command with the values of its arguments: each of them is given
at most once, the operands in their order, and what is not given has its default. -/
structure Spells (m : D.Matches) (before after : List (Item α)) : Prop where
  leading : ∀ i ∈ before, ∃ a ∈ D.globals, i.option? = some a
  options : ∀ i ∈ after, ∀ a, i.option? = some a → a ∈ D.options m.command ++ D.globals
  operands : after.filterMap Item.operand? = D.operands m.command
  tells : ∀ i ∈ before ++ after, ∃ v, m.values i.argument = some v ∧ D.Tells i v
  once : ((before ++ after).map Item.argument).Nodup
  required : ∀ a ∈ D.required m.command, a ∈ (before ++ after).map Item.argument
  defaults : ∀ a, a ∉ (before ++ after).map Item.argument → m.values a = D.default a

/-- What is documented of a parser of the declared arguments. -/
structure Documented {ε : Type} (parse : List Bytes → Except ε D.Matches) : Prop where
  /-- A command, its operands and its options, each with its value in the next word. -/
  usage {m : D.Matches} {operands options : List (Item α)}
    (spells : D.Spells m [] (operands ++ options)) (first : ∀ i ∈ operands, i.option? = none)
    (last : ∀ i ∈ options, i.operand? = none) (apart : ∀ i ∈ options, i.apart = i) :
    parse (D.words m.command [] (operands ++ options)) = .ok m
  /-- A value may stand in the word of its option, after an equals sign. -/
  joined {m : D.Matches} {front back : List (Item α)} {a : α} {word : Bytes}
    (spells : D.Spells m [] (front ++ .option a word true :: back)) :
    parse (D.words m.command [] (front ++ .option a word true :: back)) =
      parse (D.words m.command [] (front ++ .option a word false :: back))
  /-- It does not matter whether an option stands before or after the next item. -/
  anywhere {m : D.Matches} {front back : List (Item α)} {i j : Item α}
    (spells : D.Spells m [] (front ++ i :: j :: back)) (moves : i.operand? = none) :
    parse (D.words m.command [] (front ++ i :: j :: back)) =
      parse (D.words m.command [] (front ++ j :: i :: back))
  /-- An option of all commands may stand before the command. -/
  global {m : D.Matches} {before after : List (Item α)} {i : Item α}
    (spells : D.Spells m (before ++ [i]) after) :
    parse (D.words m.command (before ++ [i]) after) = parse (D.words m.command before (i :: after))

namespace Spells

variable {D} {m : D.Matches} {before after after' front back : List (Item α)} {i : Item α}

theorem perm (h : D.Spells m [] after) (perm : after'.Perm after)
    (operands : after'.filterMap Item.operand? = after.filterMap Item.operand?) :
    D.Spells m [] after' where
  leading := nofun
  options i mem := h.options i (perm.mem_iff.mp mem)
  operands := operands.trans h.operands
  tells i mem := h.tells i (perm.mem_iff.mp mem)
  once := (perm.map _).nodup_iff.mpr h.once
  required a mem := (perm.map _).mem_iff.mpr (h.required a mem)
  defaults a mem := h.defaults a fun mem' => mem ((perm.map _).mem_iff.mpr mem')

theorem swap {j : Item α} (h : D.Spells m [] (front ++ i :: j :: back))
    (moves : i.operand? = none) : D.Spells m [] (front ++ j :: i :: back) := by
  refine h.perm (.append_left front (.swap i j back)) ?_
  simp only [List.filterMap_append, List.filterMap_cons, moves]

theorem apart (h : D.Spells m [] (front ++ i :: back)) :
    D.Spells m [] (front ++ i.apart :: back) := by
  have same : ([] ++ (front ++ i.apart :: back)).map Item.argument =
      ([] ++ (front ++ i :: back)).map Item.argument := by simp
  have here : i ∈ [] ++ (front ++ i :: back) := by simp
  have others {P : Item α → Prop} (all : ∀ j ∈ [] ++ (front ++ i :: back), P j) (one : P i.apart) :
      ∀ j ∈ [] ++ (front ++ i.apart :: back), P j := by
    simp only [List.nil_append, List.forall_mem_append, List.forall_mem_cons] at all ⊢
    exact ⟨all.1, one, all.2.2⟩
  refine ⟨nofun, others h.options ?_, ?_, others h.tells ?_, same ▸ h.once, fun a mem => ?_,
    fun a mem => h.defaults a (same ▸ mem)⟩
  · rw [Item.option?_apart]
    exact h.options i here
  · rw [← h.operands]
    simp [List.filterMap_cons]
  · obtain ⟨v, known, tells⟩ := h.tells i here
    cases i <;> exact ⟨v, known, tells⟩
  · rw [same]
    exact h.required a mem

/-- An option before the command, moved behind it. -/
theorem shift (h : D.Spells m (before ++ [i]) after) : D.Spells m before (i :: after) := by
  have same : before ++ i :: after = before ++ [i] ++ after := by simp
  obtain ⟨a, isGlobal, isOption⟩ := h.leading i (by simp)
  refine ⟨fun j mem => h.leading j (List.mem_append_left _ mem), ?_, ?_, same ▸ h.tells,
    same ▸ h.once, same ▸ h.required, same ▸ h.defaults⟩
  · rintro j mem b isOption'
    rcases List.mem_cons.mp mem with rfl | mem
    · obtain rfl := Option.some.inj (isOption'.symm.trans isOption)
      exact List.mem_append_right _ isGlobal
    · exact h.options j mem b isOption'
  · rw [List.filterMap_cons_none (Item.operand?_of_option? isOption)]
    exact h.operands

/-- An argument that has to be given is given after the command. -/
theorem required_after (h : D.Spells m before after) {a : α}
    (required : a ∈ D.required m.command) : a ∈ after.map Item.argument := by
  have given := h.required a required
  rw [List.map_append, List.mem_append] at given
  rcases given with early | late
  · obtain ⟨i, mem, rfl⟩ := List.mem_map.mp early
    obtain ⟨a, isGlobal, option⟩ := h.leading i mem
    rw [Item.argument_of_option? option] at required
    exact absurd isGlobal (D.required_own _ a required)
  · exact late

end Spells

namespace Documented

variable {D} {ε : Type} {parse : List Bytes → Except ε D.Matches} {m : D.Matches}
  {before after back items : List (Item α)}

/-- Options before the command count as if they stood right behind it. -/
theorem gather (h : D.Documented parse) (spells : D.Spells m before after) :
    D.Spells m [] (before ++ after) ∧ parse (D.words m.command before after) =
      parse (D.words m.command [] (before ++ after)) := by
  induction before using List.reverseRecOn generalizing after with
  | nil => exact ⟨spells, rfl⟩
  | append_singleton before i ih =>
    obtain ⟨gathered, same⟩ := ih spells.shift
    rw [h.global spells, List.append_assoc]
    exact ⟨gathered, same⟩

theorem part (h : D.Documented parse) (front : List (Item α))
    (spells : D.Spells m [] (front ++ items)) :
    D.Spells m [] (front ++ items.map Item.apart) ∧ parse (D.words m.command [] (front ++ items)) =
      parse (D.words m.command [] (front ++ items.map Item.apart)) := by
  induction items generalizing front with
  | nil => exact ⟨spells, rfl⟩
  | cons i items ih =>
    have one : parse (D.words m.command [] (front ++ i :: items)) =
        parse (D.words m.command [] (front ++ i.apart :: items)) := by
      match i with
      | .option a word true => exact h.joined spells
      | .option a word false | .switch a | .operand a word => rfl
    have rest := ih (front ++ [i.apart]) (by simpa using spells.apart)
    simp only [List.append_assoc, List.singleton_append] at rest
    exact ⟨rest.1, one.trans rest.2⟩

theorem pass (h : D.Documented parse) {i : Item α} (moves : i.operand? = none)
    (front : List (Item α)) (spells : D.Spells m [] (front ++ i :: (items ++ back))) :
    D.Spells m [] (front ++ (items ++ i :: back)) ∧
      parse (D.words m.command [] (front ++ i :: (items ++ back))) =
        parse (D.words m.command [] (front ++ (items ++ i :: back))) := by
  induction items generalizing front with
  | nil => exact ⟨spells, rfl⟩
  | cons j items ih =>
    have rest := ih (front ++ [j]) (by simpa using spells.swap moves)
    simp only [List.append_assoc, List.singleton_append] at rest
    exact ⟨rest.1, (h.anywhere spells moves).trans rest.2⟩

theorem sort (h : D.Documented parse) (front : List (Item α))
    (spells : D.Spells m [] (front ++ items)) :
    let sorted := items.filter Item.isOperand ++ items.filter (!Item.isOperand ·)
    D.Spells m [] (front ++ sorted) ∧ parse (D.words m.command [] (front ++ items)) =
      parse (D.words m.command [] (front ++ sorted)) := by
  induction items generalizing front with
  | nil => exact ⟨spells, rfl⟩
  | cons i items ih =>
    have rest := ih (front ++ [i]) (by simpa using spells)
    simp only [List.append_assoc, List.singleton_append] at rest
    cases kind : i.isOperand with
    | true =>
      rw [List.filter_cons_of_pos kind, List.filter_cons_of_neg (by simp [kind])]
      exact rest
    | false =>
      have moves : i.operand? = none := by simpa [Item.isOperand] using kind
      rw [List.filter_cons_of_neg (by simp [kind]), List.filter_cons_of_pos (by simp [kind])]
      obtain ⟨passed, same⟩ := h.pass moves front rest.1
      exact ⟨passed, rest.2.trans same⟩

/-- Every vector that spells a command with the values of its arguments is parsed as that. -/
theorem parse_eq (h : D.Documented parse) (spells : D.Spells m before after) :
    parse (D.words m.command before after) = .ok m := by
  obtain ⟨gathered, same⟩ := h.gather spells
  obtain ⟨parted, same'⟩ := h.part [] gathered
  obtain ⟨sorted, same''⟩ := h.sort [] parted
  rw [List.nil_append] at sorted
  have parsed := h.usage sorted
    (fun i mem => Item.option?_eq_none.mpr (List.mem_filter.mp mem).2)
    (fun i mem => by simpa [Item.isOperand] using (List.mem_filter.mp mem).2)
    (fun i mem => by
      obtain ⟨j, -, rfl⟩ := List.mem_map.mp (List.mem_filter.mp mem).1
      cases j <;> rfl)
  exact same.trans (same'.trans (same''.trans parsed))

end Documented

end Declaration

end Impersonation.Arguments
