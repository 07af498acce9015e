import Impersonation.Proofs.Invocation

namespace Impersonation.Arguments

variable {κ α : Type} {D : Declaration κ α}

namespace Declaration

theorem flagName_injective : Function.Injective D.flagName := by
  intro f g same
  cases f <;> cases g
  case argument.argument a a' => rw [D.name_injective a a' same]
  case argument.help a => exact absurd same (D.name_ne_help a)
  case argument.version a => exact absurd same (D.name_ne_version a)
  case help.argument a => exact absurd same.symm (D.name_ne_help a)
  case version.argument a => exact absurd same.symm (D.name_ne_version a)
  case help.help | version.version => rfl
  case help.version | version.help => exact absurd same (by simp [flagName])

theorem find?_flagName {flags : List (Flag α)} {f : Flag α} (h : f ∈ flags) :
    flags.find? (fun g => Bytes.ofString (D.flagName g) = Bytes.ofString (D.flagName f)) =
      some f := by
  induction flags with
  | nil => exact absurd h List.not_mem_nil
  | cons g flags ih =>
    by_cases same : g = f
    · subst same
      simp
    · have other : Bytes.ofString (D.flagName g) ≠ Bytes.ofString (D.flagName f) := fun h =>
        same (flagName_injective (Bytes.ofString_injective h))
      rw [List.find?_cons_of_neg (by simpa using other)]
      exact ih ((List.mem_cons.mp h).resolve_left (Ne.symm same))

theorem find?_name {flags : List (Flag α)} {a : α} (h : .argument a ∈ flags) :
    flags.find? (fun f => Bytes.ofString (D.flagName f) = Bytes.ofString (D.name a)) =
      some (.argument a) :=
  find?_flagName h

theorem name_no_equalsSign (a : α) :
    ∀ b ∈ Bytes.ofString (D.name a), decide (b ≠ equalsSign) = true := by
  intro b mem
  exact decide_eq_true fun same => D.name_free a (same ▸ mem)

theorem ofBytes_long (a : α) (bs : Bytes) :
    Word.ofBytes (D.flagWord a ++ bs) = Word.ofLong (Bytes.ofString (D.name a) ++ bs) := by
  have named : Bytes.ofString (D.name a) ++ bs ≠ [] :=
    List.append_ne_nil_of_left_ne_nil (D.name_ne_nil a) bs
  simp only [flagWord, List.cons_append, Word.ofBytes, ne_eq, not_true_eq_false, if_false,
    if_neg named]

theorem ofBytes_flagWord (a : α) :
    Word.ofBytes (D.flagWord a) = .long (Bytes.ofString (D.name a)) none := by
  have long := D.ofBytes_long a []
  rw [List.append_nil, List.append_nil] at long
  have bare : (Bytes.ofString (D.name a)).span (· ≠ equalsSign) =
      (Bytes.ofString (D.name a), []) := by
    rw [List.span_eq_takeWhile_dropWhile, List.takeWhile_eq_self_iff.mpr (D.name_no_equalsSign a),
      List.dropWhile_eq_nil_iff.mpr (D.name_no_equalsSign a)]
  rw [long, Word.ofLong, bare]

theorem ofBytes_joined (a : α) (word : Bytes) :
    Word.ofBytes (D.flagWord a ++ equalsSign :: word) =
      .long (Bytes.ofString (D.name a)) (some word) := by
  have cut : (Bytes.ofString (D.name a) ++ equalsSign :: word).span (· ≠ equalsSign) =
      (Bytes.ofString (D.name a), equalsSign :: word) := by
    rw [List.span_eq_takeWhile_dropWhile, List.takeWhile_append_of_pos (D.name_no_equalsSign a),
      List.dropWhile_append_of_pos (D.name_no_equalsSign a)]
    simp
  rw [ofBytes_long, Word.ofLong, cut]

theorem commandOf?_commandName (c : κ) : D.commandOf? (Bytes.ofString (D.commandName c)) = some c := by
  rw [commandOf?]
  cases found : D.commands.find? fun c' =>
      Bytes.ofString (D.commandName c') = Bytes.ofString (D.commandName c) with
  | none => exact absurd (List.find?_eq_none.mp found c (D.complete c)) (by simp)
  | some c' =>
    have same := List.find?_some found
    rw [D.commandName_injective c' c (Bytes.ofString_injective (of_decide_eq_true same))]

theorem commandOf?_dash (word : Bytes) : D.commandOf? (dash :: word) = none := by
  rw [commandOf?, List.find?_eq_none]
  intro c _ same
  exact D.commandName_plain c (congrArg List.head? (of_decide_eq_true same))

def Legible (D : Declaration κ α) (flags : List (Flag α)) : Item α → Prop
  | .option a word _ =>
    .argument a ∈ flags ∧ D.valued? (.argument a) = some a ∧ IsPlain word
  | .switch a => .argument a ∈ flags ∧ D.valued? (.argument a) = none
  | .operand _ word => IsPlain word

theorem Tells.legible {flags : List (Flag α)} {i : Item α} {v : (D.kind i.argument).Value}
    (tells : D.Tells i v) (known : ∀ a, i.option? = some a → .argument a ∈ flags) :
    D.Legible flags i := by
  cases i with
  | option a word joined => exact ⟨known a rfl, if_pos tells.2.takesValue, tells.1⟩
  | switch a => exact ⟨known a rfl, if_neg (by simp [Kind.not_takesValue tells])⟩
  | operand a word => exact tells.1

variable [DecidableEq α]

def take (D : Declaration κ α) (g : D.Values) : Item α → Except UsageError D.Values
  | .option a word _ | .operand a word => D.give g a word
  | .switch a => D.giveSwitch g (.argument a)

def known (values : D.Values) (told : List α) : D.Values :=
  fun a => if a ∈ told then values a else none

variable {g values : D.Values} {told : List α} {i : Item α} {m : D.Matches} {a : α}

theorem give_eq {word : Bytes} {v : (D.kind a).Value} (unknown : g a = none)
    (writes : (D.kind a).Writes word v) : D.give g a word = .ok (assign g ⟨a, some v⟩) := by
  simp [give, unknown, writes.read_eq, bind, Except.bind, pure, Except.pure]

theorem giveSwitch_eq {v : (D.kind a).Value} (unknown : g a = none)
    (on : (D.kind a).on? = some v) : D.giveSwitch g (.argument a) = .ok (assign g ⟨a, some v⟩) := by
  simp [giveSwitch, unknown, on]

theorem known_nil : known values [] = fun _ => none := by
  funext a
  exact if_neg List.not_mem_nil

theorem known_concat {v : (D.kind a).Value} (value : values a = some v) :
    assign (known values told) ⟨a, some v⟩ = known values (told ++ [a]) := by
  funext b
  by_cases same : a = b
  · subst same
    rw [assign_same, known, if_pos (by simp), value]
  · have apart : b ≠ a := fun h => same h.symm
    rw [assign_other same, known, known]
    simp [apart]

/-- To take in an item is to know one more argument. -/
theorem Tells.take_eq {v : (D.kind i.argument).Value} (tells : D.Tells i v)
    (value : values i.argument = some v) (fresh : i.argument ∉ told) :
    D.take (known values told) i = .ok (known values (told ++ [i.argument])) := by
  have unknown : known values told i.argument = none := if_neg fresh
  rw [← known_concat value]
  cases i with
  | option a word _ | operand a word => exact give_eq unknown tells.2
  | switch a => exact giveSwitch_eq unknown tells

end Declaration

variable [DecidableEq α]

namespace Progress

/-- Options still count, so many operands were met, and this much is given once the last word is
settled. -/
inductive Stands : Progress D → D.Values → Nat → Prop
  | settled (g : D.Values) (k : Nat) : Stands { given := g, operands := k } g k
  | pending {g g' : D.Values} {k : Nat} {a : α} {word : Bytes} (set : D.give g a word = .ok g') :
      Stands { given := g, pending := .value a word, operands := k } g' k

variable {p : Progress D} {g g' : D.Values} {k : Nat} {a : α} {flags : List (Flag α)}
  {operands : List α} {word : Bytes} {surplus : UsageError}

theorem Stands.settle_eq (h : p.Stands g k) : p.settle = .ok { given := g, operands := k } := by
  cases h with
  | settled => rfl
  | pending set => simp only [settle, set, bind, Except.bind, pure, Except.pure]

theorem Stands.operands_eq (h : p.Stands g k) : p.operands = k := by
  cases h <;> rfl

theorem Stands.optionsEnded (h : p.Stands g k) : p.optionsEnded = false := by
  cases h <;> rfl

theorem Stands.awaitsCommand (h : p.Stands g k) : p.awaitsCommand = true := by
  cases h <;> rfl

theorem Stands.word_joined (h : p.Stands g k) (mem : .argument a ∈ flags)
    (valued : D.valued? (.argument a) = some a) (set : D.give g a word = .ok g') :
    p.word flags operands surplus (D.flagWord a ++ equalsSign :: word) =
      .ok { given := g', operands := k } := by
  simp [Progress.word, h.optionsEnded, D.ofBytes_joined, long, D.find?_name mem, valued, h.settle_eq, set,
    bind, Except.bind, pure, Except.pure]

theorem Stands.word_option (h : p.Stands g k) (mem : .argument a ∈ flags)
    (valued : D.valued? (.argument a) = some a) :
    p.word flags operands surplus (D.flagWord a) =
      .ok { given := g, pending := .option a, operands := k } := by
  simp [Progress.word, h.optionsEnded, D.ofBytes_flagWord, long, D.find?_name mem, valued, h.settle_eq,
    bind, Except.bind, pure, Except.pure]

theorem word_value (plain : IsPlain word) :
    Progress.word (D := D) { given := g, pending := .option a, operands := k } flags operands
        surplus word =
      .ok { given := g, pending := .value a word, operands := k } := by
  simp [Progress.word, plain.ofBytes]

theorem Stands.word_switch (h : p.Stands g k) (mem : .argument a ∈ flags)
    (valued : D.valued? (.argument a) = none) (set : D.giveSwitch g (.argument a) = .ok g') :
    p.word flags operands surplus (D.flagWord a) = .ok { given := g', operands := k } := by
  simp [Progress.word, h.optionsEnded, D.ofBytes_flagWord, long, D.find?_name mem, valued, h.settle_eq, set,
    bind, Except.bind, pure, Except.pure]

theorem Stands.word_operand (h : p.Stands g k) (next : operands[k]? = some a)
    (plain : IsPlain word) :
    p.word flags operands surplus word =
      .ok { given := g, pending := .value a word, operands := k + 1 } := by
  have taken : p.operand operands surplus word =
      .ok { given := g, pending := .value a word, operands := k + 1 } := by
    simp [Progress.operand, h.operands_eq, next, h.settle_eq, bind, Except.bind, pure, Except.pure]
  rw [Progress.word, h.optionsEnded, plain.ofBytes, ← taken]
  cases h <;> rfl

/-- One item, whose words may leave something to be settled by the next. -/
theorem Stands.item (h : p.Stands g k) {i : Item α} (legible : D.Legible flags i)
    (next : ∀ a, i.operand? = some a → operands[k]? = some a) (taken : D.take g i = .ok g')
    (surplus : UsageError) :
    ∃ p', (D.itemWords i).foldlM (fun p word => p.word flags operands surplus word) p = .ok p' ∧
      p'.Stands g' (k + i.operand?.toList.length) := by
  match i with
  | .option a word true =>
    obtain ⟨mem, valued, -⟩ := legible
    refine ⟨{ given := g', operands := k }, ?_, .settled g' k⟩
    rw [Declaration.itemWords, List.foldlM_cons, h.word_joined mem valued taken]
    rfl
  | .option a word false =>
    obtain ⟨mem, valued, plain⟩ := legible
    refine ⟨{ given := g, pending := .value a word, operands := k }, ?_, .pending taken⟩
    rw [Declaration.itemWords, List.foldlM_cons, h.word_option mem valued]
    simp only [bind, Except.bind, List.foldlM_cons, word_value plain, List.foldlM_nil]
    rfl
  | .switch a =>
    obtain ⟨mem, valued⟩ := legible
    refine ⟨{ given := g', operands := k }, ?_, .settled g' k⟩
    rw [Declaration.itemWords, List.foldlM_cons, h.word_switch mem valued taken]
    rfl
  | .operand a word =>
    refine ⟨{ given := g, pending := .value a word, operands := k + 1 }, ?_, .pending taken⟩
    rw [Declaration.itemWords, List.foldlM_cons, h.word_operand (next a rfl) legible]
    rfl

end Progress

namespace Declaration

variable {p : Progress D} {g g' values : D.Values} {told : List α} {k : Nat} {a : α} {i : Item α}
  {items : List (Item α)} {c : κ} {m : D.Matches} {before after : List (Item α)}

theorem parseFrom_dash {p' : Progress D} {word : Bytes} {rest : List Bytes}
    (read : p.word D.leadingFlags [] (D.strayWord p (dash :: word)) (dash :: word) = .ok p') :
    D.parseFrom p ((dash :: word) :: rest) = D.parseFrom p' rest := by
  have help_plain : IsPlain helpWord := by decide
  have not_help : dash :: word ≠ helpWord := fun same => help_plain (same ▸ rfl)
  rw [parseFrom, if_neg (fun h => not_help h.2), commandOf?_dash, ite_self, read]
  rfl

theorem parseFrom_value {word : Bytes} {rest : List Bytes} (plain : IsPlain word) :
    D.parseFrom { given := g, pending := .option a, operands := k } (word :: rest) =
      D.parseFrom { given := g, pending := .value a word, operands := k } rest := by
  have busy : Progress.awaitsCommand (D := D) { given := g, pending := .option a, operands := k } =
      false := rfl
  simp only [parseFrom, busy, Bool.false_eq_true, false_and, if_false, Progress.word_value plain]
  rfl

theorem parseFrom_item (h : p.Stands g k) (legible : D.Legible D.leadingFlags i)
    (no_operand : i.operand? = none) (taken : D.take g i = .ok g') (rest : List Bytes) :
    ∃ p', D.parseFrom p (D.itemWords i ++ rest) = D.parseFrom p' rest ∧ p'.Stands g' k := by
  match i with
  | .option a word true =>
    obtain ⟨mem, valued, -⟩ := legible
    exact ⟨_, parseFrom_dash (h.word_joined mem valued taken), .settled g' k⟩
  | .option a word false =>
    obtain ⟨mem, valued, plain⟩ := legible
    exact ⟨_, (parseFrom_dash (h.word_option mem valued)).trans (parseFrom_value plain),
      .pending taken⟩
  | .switch a =>
    obtain ⟨mem, valued⟩ := legible
    exact ⟨_, parseFrom_dash (h.word_switch mem valued taken), .settled g' k⟩
  | .operand a word => cases no_operand

/-- The items after the command, where `done` holds the operands met so far. -/
theorem stands_items (done : List α)
    (options : ∀ i ∈ items, ∀ a, i.option? = some a → .argument a ∈ D.flags c)
    (operands : D.operands c = done ++ items.filterMap Item.operand?)
    (tells : ∀ i ∈ items, ∃ v, values i.argument = some v ∧ D.Tells i v)
    (once : (told ++ items.map Item.argument).Nodup)
    (h : p.Stands (known values told) done.length) :
    ∃ p', (items.flatMap D.itemWords).foldlM (fun p word => p.word (D.flags c) (D.operands c)
        .unknownArgument word) p = .ok p' ∧
      p'.Stands (known values (told ++ items.map Item.argument)) (D.operands c).length := by
  induction items generalizing told done p with
  | nil =>
    rw [List.filterMap_nil, List.append_nil] at operands
    rw [operands, List.map_nil, List.append_nil]
    exact ⟨p, rfl, h⟩
  | cons i items ih =>
    obtain ⟨v, value, first⟩ := tells i List.mem_cons_self
    have fresh : i.argument ∉ told := fun before =>
      (List.nodup_append.mp once).2.2 _ before _ List.mem_cons_self rfl
    have split : (i :: items).filterMap Item.operand? =
        i.operand?.toList ++ items.filterMap Item.operand? := by
      cases i <;> rfl
    rw [split, ← List.append_assoc] at operands
    have next : ∀ a, i.operand? = some a → (D.operands c)[done.length]? = some a := by
      intro a operand
      rw [operands, operand]
      simp
    obtain ⟨q, read, stands⟩ := h.item (first.legible (options i List.mem_cons_self)) next
      (first.take_eq value fresh) .unknownArgument
    rw [← List.length_append] at stands
    rw [List.map_cons, List.append_cons] at once ⊢
    obtain ⟨p', reads, ended⟩ := ih (done ++ i.operand?.toList)
      (fun i mem => options i (List.mem_cons_of_mem _ mem)) operands
      (fun i mem => tells i (List.mem_cons_of_mem _ mem)) once stands
    refine ⟨p', ?_, ended⟩
    rw [List.flatMap_cons, List.foldlM_append, read]
    exact reads

theorem parseFrom_items (rest : List Bytes)
    (leading : ∀ i ∈ items, ∃ a ∈ D.globals, i.option? = some a)
    (tells : ∀ i ∈ items, ∃ v, values i.argument = some v ∧ D.Tells i v)
    (once : (told ++ items.map Item.argument).Nodup) (h : p.Stands (known values told) 0) :
    ∃ p', D.parseFrom p (items.flatMap D.itemWords ++ rest) = D.parseFrom p' rest ∧
      p'.Stands (known values (told ++ items.map Item.argument)) 0 := by
  induction items generalizing told p with
  | nil => exact ⟨p, rfl, by rwa [List.map_nil, List.append_nil]⟩
  | cons i items ih =>
    obtain ⟨v, value, first⟩ := tells i List.mem_cons_self
    obtain ⟨a, isGlobal, option⟩ := leading i List.mem_cons_self
    have fresh : i.argument ∉ told := fun before =>
      (List.nodup_append.mp once).2.2 _ before _ List.mem_cons_self rfl
    have legible : D.Legible D.leadingFlags i := first.legible fun b option' => by
      obtain rfl := Option.some.inj (option.symm.trans option')
      exact List.mem_append_left _ (List.mem_map_of_mem isGlobal)
    obtain ⟨q, read, stands⟩ := parseFrom_item h legible (Item.operand?_of_option? option)
      (first.take_eq value fresh) (items.flatMap D.itemWords ++ rest)
    rw [List.map_cons, List.append_cons] at once ⊢
    obtain ⟨p', reads, ended⟩ := ih (fun i mem => leading i (List.mem_cons_of_mem _ mem))
      (fun i mem => tells i (List.mem_cons_of_mem _ mem)) once stands
    refine ⟨p', ?_, ended⟩
    rw [List.flatMap_cons, List.append_assoc, read, reads]

theorem parseFrom_command {before after : D.Values} {rest : List Bytes} (h : p.Stands before k)
    (read : D.parseArguments c rest = .ok after) :
    D.parseFrom p (Bytes.ofString (D.commandName c) :: rest) =
      .ok ⟨c, fun a => (after a).or ((before a).or (D.default a))⟩ := by
  have not_help : Bytes.ofString (D.commandName c) ≠ helpWord := fun same =>
    D.commandName_ne_help c (Bytes.ofString_injective same)
  rw [parseFrom, if_neg (fun help => not_help help.2), if_pos h.awaitsCommand,
    commandOf?_commandName]
  simp only [read, h.settle_eq, bind, Except.bind]
  rfl

/-- What is known of what stands before and after the command, and the defaults of the rest. -/
theorem known_or {told' : List α} (given : ∀ a ∈ told ++ told', ∃ v, values a = some v)
    (defaults : ∀ a, a ∉ told ++ told' → values a = D.default a) (a : α) :
    (known values told' a).or ((known values told a).or (D.default a)) = values a := by
  by_cases mem : a ∈ told ++ told'
  · obtain ⟨v, value⟩ := given a mem
    by_cases after : a ∈ told'
    · simp [known, after, value]
    · have before : a ∈ told := (List.mem_append.mp mem).resolve_right after
      simp [known, after, before, value]
  · have absent := mem
    rw [List.mem_append, not_or] at absent
    simp [known, absent, defaults a mem]

theorem Spells.parseArguments_eq (spells : D.Spells m before after) :
    D.parseArguments m.command (after.flatMap D.itemWords) =
      .ok (known m.values (after.map Item.argument)) := by
  have tells := (List.forall_mem_append.mp spells.tells).2
  have once := spells.once
  rw [List.map_append] at once
  have start : Progress.Stands (D := D) {} (known m.values []) 0 := by
    rw [known_nil]
    exact .settled _ 0
  obtain ⟨q, reads, ended⟩ := stands_items []
    (fun i mem a option => List.mem_append_left _ (List.mem_map_of_mem (spells.options i mem a option)))
    spells.operands.symm tells (List.nodup_append.mp once).2.1 start
  have complete : ((D.required m.command).all fun a =>
      (known m.values ([] ++ after.map Item.argument) a).isSome) = true := by
    refine List.all_eq_true.mpr fun a required => ?_
    have given := spells.required_after required
    obtain ⟨i, mem, rfl⟩ := List.mem_map.mp given
    obtain ⟨v, value, -⟩ := tells i mem
    rw [List.nil_append, known, if_pos given, value]
    rfl
  simp only [parseArguments, reads, ended.settle_eq, complete, bind, Except.bind, if_true]
  rfl

theorem parse_spelled (spells : D.Spells m before after) :
    D.parse (D.words m.command before after) = .ok m := by
  have once := spells.once
  rw [List.map_append] at once
  have start : Progress.Stands (D := D) {} (known m.values []) 0 := by
    rw [known_nil]
    exact .settled _ 0
  obtain ⟨p, leads, stands⟩ := parseFrom_items
    (Bytes.ofString (D.commandName m.command) :: after.flatMap D.itemWords) spells.leading
    (List.forall_mem_append.mp spells.tells).1 (List.nodup_append.mp once).1 start
  have given : ∀ a ∈ before.map Item.argument ++ after.map Item.argument,
      ∃ v, m.values a = some v := by
    intro a mem
    rw [← List.map_append] at mem
    obtain ⟨i, here, rfl⟩ := List.mem_map.mp mem
    obtain ⟨v, value, -⟩ := spells.tells i here
    exact ⟨v, value⟩
  -- What was met before and after the command, put together, is all that is given.
  have whole := known_or given fun a absent =>
    spells.defaults a (by rwa [List.map_append])
  rw [parse, words, leads, parseFrom_command stands spells.parseArguments_eq]
  exact congrArg (fun values => Except.ok (Matches.mk m.command values)) (funext whole)

theorem parse_documented (D : Declaration κ α) : D.Documented D.parse where
  usage spells _ _ _ := parse_spelled spells
  joined spells := (parse_spelled spells).trans (parse_spelled spells.apart).symm
  anywhere spells moves := (parse_spelled spells).trans (parse_spelled (spells.swap moves)).symm
  global spells := (parse_spelled spells).trans (parse_spelled spells.shift).symm

end Declaration

end Impersonation.Arguments
