import Impersonation.Json.Record
import Impersonation.Proofs.Decimal
import Impersonation.Proofs.Skipping

namespace Impersonation.Json

variable {space v t u : Bytes} {c : UInt8} {n : UInt32}

structure Foreign (c : UInt8) : Prop where
  no_space : isSpace c = false
  no_digit : isDigit c = false
  no_null : c ≠ 0x6E
  no_true : c ≠ 0x74
  no_false : c ≠ 0x66

/-- A value that some member takes, but for the size of a number, or another one. -/
inductive Kind : Bytes → Prop
  | null : Kind nullText
  | bool (b : Bool) : Kind (boolText b)
  | number {x : Numeral} (valid : x.Valid) (natural : x.negative = false) : Kind x.bytes
  | foreign {c : UInt8} {rest : Bytes} (foreign : Foreign c) : Kind (c :: rest)

theorem WellFormed.kind (h : WellFormed .value v) :
    ∃ space w, v = space ++ w ∧ IsSpace space ∧ Kind w := by
  cases h with
  | @scalar space w spaces scalar =>
    refine ⟨space, w, rfl, spaces, ?_⟩
    cases scalar with
    | null => exact .null
    | bool b => exact .bool b
    | string => exact .foreign ⟨rfl, rfl, by decide, by decide, by decide⟩
    | @number x valid =>
      obtain ⟨b, rest, bytes, ⟨rfl, -⟩ | ⟨-, natural⟩⟩ := valid.begins
      · rw [bytes]
        exact .foreign ⟨rfl, rfl, by decide, by decide, by decide⟩
      · exact .number valid natural
  | @enclosed space w inner items spaces body =>
    refine ⟨space, inner.opening :: w, rfl, spaces, ?_⟩
    cases inner <;> exact .foreign ⟨rfl, rfl, by decide, by decide, by decide⟩

def Refuses {α : Type} (r : Reader α) : Prop :=
  ∀ t a, r.run t ≠ .ok a

theorem refuses_throw {α : Type} (e : ReadError) : Refuses (throw e : Reader α) :=
  fun _ _ => nofun

theorem refuses_bind {α β : Type} {r : Reader α} {g : α → Reader β} (h : ∀ a, Refuses (g a)) :
    Refuses (r >>= g) := by
  intro t b ok
  obtain ⟨a, u, -, after⟩ := run_bind_ok ok
  exact h a u b after

theorem wrongKind_refuses {α : Type} (c : UInt8) : Refuses (wrongKind c : Reader α) := by
  rw [wrongKind]
  have mistyped (a : Unit) : Refuses (throw .mistyped : Reader α) := refuses_throw .mistyped
  split
  next => exact refuses_bind mistyped
  split
  next => exact refuses_bind mistyped
  split
  next => exact refuses_bind mistyped
  split
  next => exact refuses_bind fun _ => refuses_bind mistyped
  split
  next =>
    refine refuses_bind fun x => ?_
    split
    next => exact refuses_bind mistyped
    next => exact mistyped ()
  split
  next => exact refuses_bind mistyped
  next => exact mistyped ()

theorem le_foldl (k : Nat) (ds : Bytes) :
    k ≤ ds.foldl (fun n d => n * 10 + (d.toNat - 0x30)) k := by
  induction ds generalizing k with
  | nil => exact Nat.le_refl k
  | cons d ds ih => exact Nat.le_trans (by omega) (ih (k * 10 + (d.toNat - 0x30)))

theorem leadingWord_of_lt {k : Nat} {ds : Bytes}
    (h : ds.foldl (fun n d => n * 10 + (d.toNat - 0x30)) k < UInt64.size) :
    leadingWord k ds = (ds.foldl (fun n d => n * 10 + (d.toNat - 0x30)) k, 0) := by
  induction ds generalizing k with
  | nil => rfl
  | cons d ds ih =>
    have fits : k * 10 + (d.toNat - 0x30) < UInt64.size :=
      Nat.lt_of_le_of_lt (le_foldl _ ds) h
    rw [leadingWord]
    simp only [fits, if_true]
    exact ih h

def wordNumeral (n : UInt32) : Numeral where
  negative := false
  whole := decimal n.toNat
  fraction := none
  exponent := none

theorem wordNumeral_valid (n : UInt32) : (wordNumeral n).Valid where
  whole := isDigits_decimal n.toNat
  zero first := by
    rcases Nat.eq_zero_or_pos n.toNat with zero | positive
    · rw [wordNumeral, zero]
      rfl
    · exact absurd first (head?_decimal positive)
  fraction := nofun
  mark := nofun
  sign := nofun
  power := nofun

theorem wordNumeral_bytes (n : UInt32) : (wordNumeral n).bytes = decimal n.toNat :=
  List.append_nil _

theorem wordNumeral_isInfinite (n : UInt32) : (wordNumeral n).number.isInfinite = false := by
  have small : digitsValue (decimal n.toNat) < UInt64.size := by
    rw [digitsValue_decimal]
    exact Nat.lt_trans n.toNat_lt (by decide)
  have leading : leadingWord 0 (decimal n.toNat) = (n.toNat, 0) := by
    rw [leadingWord_of_lt small]
    exact congrArg (·, 0) (digitsValue_decimal n.toNat)
  have scaled : (wordNumeral n).number.scaled = (n.toNat, 0) := by
    simp [Number.scaled, Numeral.number, wordNumeral, leading, leadingWord]
  simp [Number.isInfinite, scaled]

theorem run_word_number {x : Numeral} (valid : x.Valid) (natural : x.negative = false)
    (spaces : IsSpace space) (ends : Ends t) :
    word.run (space ++ x.bytes ++ t) =
      if x.number.isInfinite then .error .malformed
      else
        match x.number.natural? with
        | some n => if n < UInt32.size then .ok (UInt32.ofNat n, t) else .error .mistyped
        | none => .error .mistyped := by
  obtain ⟨d, rest, bytes, ⟨-, negative⟩ | ⟨digit, -⟩⟩ := valid.begins
  · rw [natural] at negative
    cases negative
  have read := Numeral.run_number (e := .truncated) valid ends
  rw [bytes, List.cons_append] at read
  rw [word, bytes, List.append_assoc, List.cons_append,
    run_bind (run_upcoming spaces (Begins.of_isDigit digit).no_space), if_pos digit, run_bind read]
  cases x.number.isInfinite with
  | true => rfl
  | false =>
    cases x.number.natural? with
    | none => rfl
    | some k =>
      simp only [Bool.false_eq_true, if_false]
      split <;> rfl

theorem word_ne_ok (spaces : IsSpace space) (no_space : isSpace c = false)
    (no_digit : isDigit c = false) (a : UInt32 × Bytes) : word.run (space ++ c :: t) ≠ .ok a := by
  rw [word, run_bind (run_upcoming spaces no_space), if_neg (by simp [no_digit])]
  exact wrongKind_refuses c _ a

theorem boolText_begins (b : Bool) : ∃ c rest, boolText b = c :: rest ∧ isSpace c = false ∧
    isDigit c = false ∧ c ≠ 0x6E := by
  cases b <;> exact ⟨_, _, rfl, rfl, rfl, by decide⟩

theorem Numeral.Valid.bytes_of_natural {x : Numeral} {k : Nat} (valid : x.Valid)
    (natural : x.number.natural? = some k) : x.bytes = decimal k := by
  rw [Number.natural?] at natural
  split at natural
  next plain =>
    obtain ⟨sign, fraction, exponent⟩ := plain
    have whole := eq_decimal valid.whole valid.zero
    have value : digitsValue x.whole = k := Option.some.inj natural
    have no_exponent : x.exponent = none := Option.map_eq_none_iff.mp exponent
    have no_sign : x.negative = false := by simpa [Numeral.number] using sign
    have no_fraction : x.fraction = none := fraction
    rw [Numeral.bytes, Numeral.fractionBytes, Numeral.exponentBytes, no_exponent, no_fraction,
      no_sign, if_neg (by decide), List.nil_append, List.append_nil, List.append_nil, whole, value]
  next => cases natural

/-- A word is taken from plain digits that fit it, and from nothing else. -/
theorem run_word (value : WellFormed .value v) (ends : Ends t) :
    word.run (v ++ t) = .ok (n, u) ↔
      u = t ∧ ∃ space, IsSpace space ∧ v = space ++ decimal n.toNat := by
  constructor
  · intro ok
    obtain ⟨space, w, rfl, spaces, kind⟩ := value.kind
    cases kind with
    | null =>
      rw [List.append_assoc] at ok
      exact absurd ok (word_ne_ok spaces rfl rfl _)
    | bool b =>
      obtain ⟨c, rest, text, no_space, no_digit, -⟩ := boolText_begins b
      rw [text, List.append_assoc] at ok
      exact absurd ok (word_ne_ok spaces no_space no_digit _)
    | @number x valid natural =>
      rw [run_word_number valid natural spaces ends] at ok
      split at ok
      next => cases ok
      split at ok
      next k known =>
        split at ok
        next fits =>
          cases ok
          refine ⟨rfl, space, spaces, ?_⟩
          rw [UInt32.toNat_ofNat_of_lt' fits, valid.bytes_of_natural known]
        next => cases ok
      next => cases ok
    | foreign foreign =>
      rw [List.append_assoc] at ok
      exact absurd ok (word_ne_ok spaces foreign.no_space foreign.no_digit _)
  · rintro ⟨rfl, space, spaces, rfl⟩
    have natural : (wordNumeral n).number.natural? = some n.toNat :=
      congrArg some (digitsValue_decimal n.toNat)
    have fits : n.toNat < UInt32.size := n.toNat_lt
    rw [← wordNumeral_bytes, run_word_number (wordNumeral_valid n) rfl spaces ends,
      wordNumeral_isInfinite, natural]
    simp [fits]

/-- A value begins with the letter of null only if it is null. -/
theorem Kind.begins {w : Bytes} (kind : Kind w) :
    w = nullText ∨ ∃ c rest, w = c :: rest ∧ isSpace c = false ∧ c ≠ 0x6E := by
  cases kind with
  | null => exact .inl rfl
  | bool b =>
    obtain ⟨c, rest, text, no_space, -, no_null⟩ := boolText_begins b
    exact .inr ⟨c, rest, text, no_space, no_null⟩
  | number valid natural =>
    obtain ⟨c, rest, text, ⟨-, negative⟩ | ⟨digit, -⟩⟩ := valid.begins
    · rw [natural] at negative
      cases negative
    · exact .inr ⟨c, rest, text, (Begins.of_isDigit digit).no_space, ne_of_isDigit digit rfl⟩
  | foreign foreign => exact .inr ⟨_, _, rfl, foreign.no_space, foreign.no_null⟩

theorem run_boolText (spaces : IsSpace space) (b : Bool) :
    bool.run (space ++ boolText b ++ t) = .ok (b, t) := by
  rw [List.append_assoc]
  cases b with
  | true =>
    have text := run_exactly (t := t) trueText
    have opens : upcoming.run (space ++ (trueText ++ t)) = .ok (0x74, trueText ++ t) :=
      run_upcoming spaces rfl
    exact (run_bind opens).trans (run_bind text)
  | false =>
    have text := run_exactly (t := t) falseText
    have opens : upcoming.run (space ++ (falseText ++ t)) = .ok (0x66, falseText ++ t) :=
      run_upcoming spaces rfl
    exact (run_bind opens).trans (run_bind text)

theorem bool_ne_ok (spaces : IsSpace space) (no_space : isSpace c = false) (no_true : c ≠ 0x74)
    (no_false : c ≠ 0x66) (a : Bool × Bytes) : bool.run (space ++ c :: t) ≠ .ok a := by
  rw [bool, run_bind (run_upcoming spaces no_space), if_neg no_true, if_neg no_false]
  exact wrongKind_refuses c _ a

theorem run_bool {b : Bool} (value : WellFormed .value v) :
    bool.run (v ++ t) = .ok (b, u) ↔
      u = t ∧ ∃ space, IsSpace space ∧ v = space ++ boolText b := by
  constructor
  · intro ok
    obtain ⟨space, w, rfl, spaces, kind⟩ := value.kind
    cases kind with
    | null =>
      rw [List.append_assoc] at ok
      exact absurd ok (bool_ne_ok spaces rfl (by decide) (by decide) _)
    | bool b =>
      rw [run_boolText spaces b] at ok
      cases ok
      exact ⟨rfl, space, spaces, rfl⟩
    | number valid natural =>
      obtain ⟨c, rest, text, ⟨-, negative⟩ | ⟨digit, -⟩⟩ := valid.begins
      · rw [natural] at negative
        cases negative
      · rw [text, List.append_assoc] at ok
        exact absurd ok (bool_ne_ok spaces (Begins.of_isDigit digit).no_space
          (ne_of_isDigit digit rfl) (ne_of_isDigit digit rfl) _)
    | foreign foreign =>
      rw [List.append_assoc] at ok
      exact absurd ok (bool_ne_ok spaces foreign.no_space foreign.no_true foreign.no_false _)
  · rintro ⟨rfl, space, spaces, rfl⟩
    exact run_boolText spaces b

def wordText : Option UInt32 → Bytes
  | none => nullText
  | some n => decimal n.toNat

theorem nullable_eq_word (spaces : IsSpace space) (no_space : isSpace c = false)
    (no_null : c ≠ 0x6E) :
    (nullable word).run (space ++ c :: t) =
      (do return some (← word) : Reader (Option UInt32)).run (space ++ c :: t) := by
  have same : word.run (space ++ c :: t) = word.run (c :: t) := run_upcoming_bind spaces _
  rw [nullable, run_bind (run_upcoming spaces no_space), if_neg no_null, StateT.run_bind,
    StateT.run_bind, same]

theorem run_map {α β : Type} {r : Reader α} {f : α → β} {b : β} :
    (do return f (← r) : Reader β).run t = .ok (b, u) ↔ ∃ a, r.run t = .ok (a, u) ∧ f a = b := by
  constructor
  · intro ok
    obtain ⟨a, w, first, rest⟩ := run_bind_ok ok
    cases rest
    exact ⟨a, first, rfl⟩
  · rintro ⟨a, first, rfl⟩
    exact run_bind first

theorem run_nullText (spaces : IsSpace space) :
    (nullable word).run (space ++ nullText ++ t) = .ok (none, t) := by
  have text := run_exactly (t := t) nullText
  have opens : upcoming.run (space ++ (nullText ++ t)) = .ok (0x6E, nullText ++ t) :=
    run_upcoming spaces rfl
  rw [List.append_assoc]
  exact (run_bind opens).trans (run_bind text)

theorem run_nullable {o : Option UInt32} (value : WellFormed .value v) (ends : Ends t) :
    (nullable word).run (v ++ t) = .ok (o, u) ↔
      u = t ∧ ∃ space, IsSpace space ∧ v = space ++ wordText o := by
  constructor
  · intro ok
    obtain ⟨space, w, rfl, spaces, kind⟩ := value.kind
    rcases kind.begins with rfl | ⟨c, rest, rfl, no_space, no_null⟩
    · rw [run_nullText spaces] at ok
      cases ok
      exact ⟨rfl, space, spaces, rfl⟩
    · rw [List.append_assoc, List.cons_append, nullable_eq_word spaces no_space no_null] at ok
      obtain ⟨n, read, rfl⟩ := run_map.mp ok
      rw [← List.cons_append, ← List.append_assoc] at read
      exact (run_word value ends).mp read
  · rintro ⟨rfl, space, spaces, rfl⟩
    cases o with
    | none => exact run_nullText spaces
    | some n =>
      have read := (run_word (n := n) value ends).mpr ⟨rfl, space, spaces, rfl⟩
      obtain ⟨d, ds, some_digit⟩ := List.exists_cons_of_ne_nil (isDigits_decimal n.toNat).1
      have digit : isDigit d = true := (isDigits_decimal n.toNat).2 d (by simp [some_digit])
      rw [wordText, some_digit, List.append_assoc, List.cons_append] at read ⊢
      rw [nullable_eq_word spaces (Begins.of_isDigit digit).no_space (ne_of_isDigit digit rfl)]
      exact run_map.mpr ⟨n, read, rfl⟩

namespace ValueType

def text : (ty : ValueType) → ty.Carrier → Bytes
  | word, n => decimal n.toNat
  | bool, b => boolText b
  | wordOrNull, o => wordText o

def Writes (ty : ValueType) (v : Bytes) (a : ty.Carrier) : Prop :=
  ∃ space, IsSpace space ∧ v = space ++ ty.text a

variable {ty : ValueType} {a : ty.Carrier}

/-- A value is read from its text, and from no other. -/
theorem run_read (value : WellFormed .value v) (ends : Ends t) :
    ty.read.run (v ++ t) = .ok (a, u) ↔ u = t ∧ ty.Writes v a := by
  cases ty with
  | word => exact run_word value ends
  | bool => exact run_bool value
  | wordOrNull => exact run_nullable value ends

theorem run_read_space (spaces : IsSpace space) : ty.read.run (space ++ t) = ty.read.run t := by
  cases ty <;> exact run_upcoming_bind spaces _

end ValueType

end Impersonation.Json
