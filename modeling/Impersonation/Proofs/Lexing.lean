import Impersonation.Proofs.Grammar

namespace Impersonation.Json

variable {α β : Type} {space t u : Bytes} {b : UInt8}

theorem run_bind {r : Reader α} {g : α → Reader β} {a : α} (h : r.run t = .ok (a, u)) :
    (r >>= g).run t = (g a).run u := by
  rw [StateT.run_bind, h]
  rfl

theorem run_bind_error {r : Reader α} {g : α → Reader β} {e : ReadError}
    (h : r.run t = .error e) : (r >>= g).run t = .error e := by
  rw [StateT.run_bind, h]
  rfl

theorem run_bind_ok {r : Reader α} {g : α → Reader β} {c : β × Bytes}
    (h : (r >>= g).run t = .ok c) : ∃ a u, r.run t = .ok (a, u) ∧ (g a).run u = .ok c := by
  cases first : r.run t with
  | error e => rw [run_bind_error first] at h; cases h
  | ok a => exact ⟨a.1, a.2, rfl, by rwa [run_bind first] at h⟩

theorem run_discard {r : Reader α} {a : α} (h : r.run t = .ok (a, u)) :
    (discard r).run t = .ok ((), u) := by
  have as_bind : discard r = (r >>= fun _ => pure ()) := rfl
  rw [as_bind, run_bind h]
  rfl

theorem run_peek : peek.run t = .ok (t.head?, t) :=
  rfl

theorem run_advance : advance.run (b :: t) = .ok ((), t) :=
  rfl

theorem IsSpace.dropWhile (h : IsSpace space) :
    (space ++ t).dropWhile isSpace = t.dropWhile isSpace :=
  List.dropWhile_append_of_pos h

theorem run_skipSpace : skipSpace.run t = .ok ((), t.dropWhile isSpace) :=
  rfl

theorem run_upcoming (h : IsSpace space) (stop : isSpace b = false) :
    upcoming.run (space ++ b :: t) = .ok (b, b :: t) := by
  have rest : (space ++ b :: t).dropWhile isSpace = b :: t := by
    rw [h.dropWhile, List.dropWhile_cons_of_neg (by simp [stop])]
  rw [upcoming, run_bind run_skipSpace, rest, run_bind run_peek]
  rfl

/-- A reader that starts at what is upcoming passes over space before it. -/
theorem run_upcoming_bind (h : IsSpace space) (g : UInt8 → Reader α) :
    (upcoming >>= g).run (space ++ t) = (upcoming >>= g).run t := by
  have same : upcoming.run (space ++ t) = upcoming.run t := by
    rw [upcoming, run_bind run_skipSpace, run_bind run_skipSpace, h.dropWhile]
  rw [StateT.run_bind, same, StateT.run_bind]

theorem run_exactly (w : Bytes) : (exactly w).run (w ++ t) = .ok ((), t) := by
  induction w with
  | nil => rfl
  | cons b w ih =>
    rw [exactly, List.cons_append, run_bind run_peek]
    simp only [List.head?_cons, if_true]
    rw [run_bind run_advance, ih]

/-- What may follow a value. -/
def Ends (t : Bytes) : Prop :=
  ∀ b, t.head? = some b → isSpace b = true ∨ b = 0x2C ∨ b = 0x5D ∨ b = 0x7D

def NoDigit (t : Bytes) : Prop :=
  ∀ b, t.head? = some b → isDigit b = false

theorem Ends.not_number (h : Ends t) (first : t.head? = some b) :
    isDigit b = false ∧ b ≠ 0x2E ∧ b ≠ 0x65 ∧ b ≠ 0x45 := by
  rcases h b first with space | rfl | rfl | rfl
  · simp only [isSpace, Bool.or_eq_true, decide_eq_true_eq] at space
    rcases space with ((rfl | rfl) | rfl) | rfl <;> decide
  · decide
  · decide
  · decide

theorem Ends.noDigit (h : Ends t) : NoDigit t := fun _ first => (h.not_number first).1

theorem run_digits {ds : Bytes} (all : ∀ d ∈ ds, isDigit d = true) (stop : NoDigit t) :
    digits.run (ds ++ t) = .ok (ds, t) := by
  have none_left : t.takeWhile isDigit = [] ∧ t.dropWhile isDigit = t := by
    cases t with
    | nil => exact ⟨rfl, rfl⟩
    | cons b t =>
      have other : isDigit b = false := stop b rfl
      exact ⟨List.takeWhile_cons_of_neg (by simp [other]),
        List.dropWhile_cons_of_neg (by simp [other])⟩
  have taken : (ds ++ t).takeWhile isDigit = ds := by
    rw [List.takeWhile_append_of_pos all, none_left.1, List.append_nil]
  have left : (ds ++ t).dropWhile isDigit = t := by
    rw [List.dropWhile_append_of_pos all, none_left.2]
  have read : digits.run (ds ++ t) =
      .ok ((ds ++ t).takeWhile isDigit, (ds ++ t).dropWhile isDigit) := rfl
  rw [read, taken, left]

theorem run_someDigits {ds : Bytes} {e : ReadError} (h : IsDigits ds) (stop : NoDigit t) :
    (someDigits e).run (ds ++ t) = .ok (ds, t) := by
  obtain ⟨some_digit, all⟩ := h
  obtain ⟨d, ds', rfl⟩ := List.exists_cons_of_ne_nil some_digit
  have first : isDigit d = true := all d List.mem_cons_self
  rw [someDigits, run_bind run_peek]
  simp only [List.cons_append, List.head?_cons, first, if_true]
  exact run_digits all stop

namespace Numeral

variable {x : Numeral} {e : ReadError}

theorem Valid.first (valid : x.Valid) : ∃ d ds, x.whole = d :: ds ∧ isDigit d = true := by
  obtain ⟨d, ds, some_digit⟩ := List.exists_cons_of_ne_nil valid.whole.1
  exact ⟨d, ds, some_digit, valid.whole.2 d (by simp [some_digit])⟩

theorem run_wholeDigits (valid : x.Valid) (stop : NoDigit t) :
    (wholeDigits e).run (x.whole ++ t) = .ok (x.whole, t) := by
  have plain : ¬(x.whole.head? = some 0x30 ∧ x.whole.length ≠ 1) := fun h =>
    h.2 (valid.zero h.1)
  rw [wholeDigits, run_bind (run_someDigits valid.whole stop), if_neg plain]
  rfl

theorem run_fractionDigits (valid : x.Valid) (stop : NoDigit t) (other : t.head? ≠ some 0x2E) :
    (fractionDigits e).run (x.fractionBytes ++ t) = .ok (x.fraction, t) := by
  rw [fractionDigits, run_bind run_peek, fractionBytes]
  cases h : x.fraction with
  | none =>
    rw [List.nil_append, if_neg other]
    rfl
  | some ds =>
    rw [List.cons_append, List.head?_cons, if_pos rfl, run_bind run_advance,
      run_bind (run_someDigits (valid.fraction ds h) stop)]
    rfl

theorem run_signedDigits {sign : Option UInt8} {ds : Bytes}
    (signs : ∀ b, sign = some b → b = 0x2B ∨ b = 0x2D) (h : IsDigits ds) (stop : NoDigit t) :
    (signedDigits e).run (sign.toList ++ ds ++ t) = .ok ((sign = some 0x2D, ds), t) := by
  have read := run_someDigits (e := e) h stop
  obtain ⟨d, ds', rfl⟩ := List.exists_cons_of_ne_nil h.1
  have first : isDigit d = true := h.2 d List.mem_cons_self
  rw [signedDigits, run_bind run_peek]
  match sign, signs with
  | none, _ =>
    simp only [Option.toList_none, List.nil_append, List.cons_append, List.head?_cons] at read ⊢
    split
    next minus => cases minus; exact absurd first (by decide)
    next plus => cases plus; exact absurd first (by decide)
    next =>
      rw [run_bind read]
      rfl
  | some b, signs =>
    rcases signs b rfl with rfl | rfl <;>
    · simp only [Option.toList_some, List.cons_append, List.nil_append, List.head?_cons] at read ⊢
      rw [run_bind run_advance, run_bind read]
      rfl

theorem run_exponentDigits (valid : x.Valid) (stop : NoDigit t) (other : t.head? ≠ some 0x65)
    (other' : t.head? ≠ some 0x45) :
    (exponentDigits e).run (x.exponentBytes ++ t) = .ok (x.number.exponent, t) := by
  rw [exponentDigits, run_bind run_peek, exponentBytes, number]
  match h : x.exponent with
  | none =>
    simp only [List.nil_append]
    rfl
  | some (mark, sign, ds) =>
    have read := run_signedDigits (e := e) (fun b hb => valid.sign mark b ds (hb ▸ h))
      (valid.power mark sign ds h) stop
    rcases valid.mark mark sign ds h with rfl | rfl <;>
    · simp only [List.cons_append, List.head?_cons]
      rw [run_bind run_advance, run_bind read]
      rfl

theorem head?_exponentBytes (valid : x.Valid) (ends : Ends t)
    (first : (x.exponentBytes ++ t).head? = some b) : isDigit b = false ∧ b ≠ 0x2E := by
  rw [exponentBytes] at first
  split at first
  next => exact ⟨(ends.not_number first).1, (ends.not_number first).2.1⟩
  next mark sign ds h =>
    cases first
    rcases valid.mark b sign ds h with rfl | rfl <;> decide

theorem noDigit_fractionBytes (valid : x.Valid) (ends : Ends t) :
    NoDigit (x.fractionBytes ++ (x.exponentBytes ++ t)) := by
  intro b first
  rw [fractionBytes] at first
  split at first
  next => exact (head?_exponentBytes valid ends first).1
  next =>
    cases first
    decide

theorem run_number (valid : x.Valid) (ends : Ends t) :
    (Json.number e).run (x.bytes ++ t) = .ok (x.number, t) := by
  have exponent := run_exponentDigits (e := e) valid ends.noDigit
    (fun first => (ends.not_number first).2.2.1 rfl)
    (fun first => (ends.not_number first).2.2.2 rfl)
  have fraction := run_fractionDigits (e := e) (t := x.exponentBytes ++ t) valid
    (fun _ first => (head?_exponentBytes valid ends first).1)
    (fun first => (head?_exponentBytes valid ends first).2 rfl)
  have whole := run_wholeDigits (e := e) valid (noDigit_fractionBytes valid ends)
  have not_minus (rest : Bytes) : (x.whole ++ rest).head? ≠ some 0x2D := by
    obtain ⟨d, ds, some_digit, first⟩ := valid.first
    rw [some_digit]
    rintro ⟨⟩
    exact absurd first (by decide)
  rw [Json.number, run_bind run_peek, bytes]
  simp only [List.append_assoc]
  cases negative : x.negative with
  | true =>
    simp only [if_true, List.cons_append, List.nil_append, List.head?_cons]
    rw [run_bind run_advance, run_bind whole, run_bind fraction, run_bind exponent]
    simp only [number, negative, decide_true]
    rfl
  | false =>
    simp only [Bool.false_eq_true, if_false, List.nil_append, not_minus, decide_false]
    rw [run_bind whole, run_bind fraction, run_bind exponent]
    simp only [number, negative]
    rfl

end Numeral

theorem run_hexFour {a b c d : UInt8} {n : Nat} (h : fourHex a b c d = some n) :
    hexFour.run (a :: b :: c :: d :: t) = .ok (n, t) := by
  simp only [fourHex, bind, Option.bind_eq_some_iff, pure, Option.some.injEq] at h
  obtain ⟨a', ha, b', hb, c', hc, d', hd, rfl⟩ := h
  have got : (get : Reader Bytes).run (a :: b :: c :: d :: t) =
      .ok (a :: b :: c :: d :: t, a :: b :: c :: d :: t) := rfl
  rw [hexFour, run_bind got]
  simp only [ha, hb, hc, hd]
  rfl

theorem ne_of_simpleEscape (h : (simpleEscape b).isSome) : b ≠ 0x75 := by
  rintro rfl
  have none_known : simpleEscape 0x75 = none := by decide
  rw [none_known] at h
  cases h

theorem run_skipEscape {p : Piece} (valid : p.Valid) (escaped : ∀ b, p ≠ .plain b) :
    ∃ rest, p.bytes = 0x5C :: rest ∧ skipEscape.run (rest ++ t) = .ok ((), t) := by
  match p, valid with
  | .plain b, _ => exact absurd rfl (escaped b)
  | .escape b, simple =>
    refine ⟨[b], rfl, ?_⟩
    have known : (simpleEscape b).isNone = false := by
      rw [Option.isNone_eq_false_iff]
      exact simple
    rw [skipEscape, List.singleton_append, run_bind run_peek]
    simp only [List.head?_cons]
    rw [run_bind run_advance, if_neg (ne_of_simpleEscape simple), known]
    rfl
  | .unicode a b c d, hex =>
    refine ⟨[0x75, a, b, c, d], rfl, ?_⟩
    obtain ⟨n, known⟩ := Option.isSome_iff_exists.mp hex
    rw [skipEscape, run_bind run_peek]
    simp only [List.cons_append, List.nil_append, List.head?_cons]
    rw [run_bind run_advance, if_pos trivial]
    exact run_discard (run_hexFour known)

section pieces

variable {onEscape : Reader Bytes} (fuel : Nat)

theorem run_stringPieces_quote :
    (stringPieces onEscape (fuel + 1)).run (0x22 :: t) = .ok ([], t) := by
  rw [stringPieces, run_bind run_peek]
  simp only [List.head?_cons]
  rw [run_bind run_advance, if_pos trivial]
  rfl

theorem run_stringPieces_plain (valid : (Piece.plain b).Valid) :
    (stringPieces onEscape (fuel + 1)).run (b :: t) =
      (do return b :: (← stringPieces onEscape fuel) : Reader Bytes).run t := by
  obtain ⟨printed, no_quote, no_backslash⟩ := valid
  rw [stringPieces, run_bind run_peek]
  simp only [List.head?_cons]
  rw [run_bind run_advance, if_neg no_quote, if_neg no_backslash, if_neg printed]

theorem run_stringPieces_backslash :
    (stringPieces onEscape (fuel + 1)).run (0x5C :: t) =
      (do return (← onEscape) ++ (← stringPieces onEscape fuel) : Reader Bytes).run t := by
  rw [stringPieces, run_bind run_peek]
  simp only [List.head?_cons]
  rw [run_bind run_advance, if_neg (by decide), if_pos trivial]

end pieces

theorem run_skipPiece {p : Piece} (valid : p.Valid) (fuel : Nat) :
    ∃ bs : Bytes, ∀ rest u, (stringPieces (do skipEscape; return []) fuel).run t = .ok (rest, u) →
      (stringPieces (do skipEscape; return []) (fuel + 1)).run (p.bytes ++ t) =
        .ok (bs ++ rest, u) := by
  by_cases escaped : ∃ b, p = .plain b
  · obtain ⟨b, rfl⟩ := escaped
    refine ⟨[b], fun rest u more => ?_⟩
    rw [Piece.bytes, List.singleton_append, run_stringPieces_plain fuel valid, run_bind more]
    rfl
  · obtain ⟨text, bytes, skipped⟩ := run_skipEscape (t := t) valid (fun b h => escaped ⟨b, h⟩)
    have passed : (do skipEscape; return [] : Reader Bytes).run (text ++ t) = .ok ([], t) := by
      rw [run_bind skipped]
      rfl
    refine ⟨[], fun rest u more => ?_⟩
    rw [bytes, List.cons_append, run_stringPieces_backslash, run_bind passed, run_bind more]
    rfl

theorem length_pieces (pieces : List Piece) :
    pieces.length ≤ (pieces.flatMap Piece.bytes).length := by
  induction pieces with
  | nil => exact Nat.le_refl 0
  | cons p pieces ih =>
    have some_byte : 1 ≤ p.bytes.length := by cases p <;> simp [Piece.bytes]
    rw [List.flatMap_cons, List.length_append, List.length_cons]
    omega

theorem run_skipString {pieces : List Piece} (valid : ∀ p ∈ pieces, p.Valid) :
    skipString.run (pieces.flatMap Piece.bytes ++ 0x22 :: t) = .ok ((), t) := by
  have run (fuel : Nat) (enough : pieces.length < fuel) :
      ∃ bs, (stringPieces (do skipEscape; return []) fuel).run
        (pieces.flatMap Piece.bytes ++ 0x22 :: t) = .ok (bs, t) := by
    induction pieces generalizing fuel with
    | nil =>
      obtain ⟨fuel, rfl⟩ := Nat.exists_eq_add_of_lt enough
      exact ⟨[], run_stringPieces_quote _⟩
    | cons p pieces ih =>
      obtain ⟨fuel, rfl⟩ : ∃ n, fuel = n + 1 := ⟨fuel - 1, by omega⟩
      obtain ⟨rest, more⟩ := ih (fun p mem => valid p (List.mem_cons_of_mem _ mem)) fuel
        (by simpa using enough)
      obtain ⟨bs, step⟩ := run_skipPiece (valid p List.mem_cons_self) fuel
      rw [List.flatMap_cons, List.append_assoc]
      exact ⟨bs ++ rest, step rest t more⟩
  have long := length_pieces pieces
  obtain ⟨bs, read⟩ := run ((pieces.flatMap Piece.bytes ++ 0x22 :: t).length + 1) (by
    rw [List.length_append]
    omega)
  have got : (get : Reader Bytes).run (pieces.flatMap Piece.bytes ++ 0x22 :: t) =
      .ok (pieces.flatMap Piece.bytes ++ 0x22 :: t, pieces.flatMap Piece.bytes ++ 0x22 :: t) := rfl
  rw [skipString, run_bind got]
  exact run_discard read

def outcome {α : Type} (a : Option α) (t : Bytes) : Except ReadError (α × Bytes) :=
  match a with
  | some a => .ok (a, t)
  | none => .error .malformed

theorem run_exactly_ne {w : Bytes} {c : UInt8} (other : c ≠ b) :
    (exactly (b :: w)).run (c :: t) = .error .malformed := by
  rw [exactly, run_bind run_peek]
  simp only [List.head?_cons, if_neg other]
  rfl

theorem run_escape_simple {c : UInt8} (h : simpleEscape b = some c) :
    escape.run (b :: t) = .ok ([c], t) := by
  have other : b ≠ 0x75 := ne_of_simpleEscape (Option.isSome_of_mem h)
  rw [escape, run_bind run_peek]
  simp only [List.head?_cons]
  rw [run_bind run_advance, if_neg other, h]
  rfl

variable {c d : UInt8} {a : UInt8} {n : Nat}

theorem run_escape_unicode (h : fourHex a b c d = some n) :
    escape.run (0x75 :: a :: b :: c :: d :: t) =
      if isLowSurrogate n then .error .malformed
      else if isHighSurrogate n then (surrogatePair n).run t
      else .ok (utf8 n, t) := by
  rw [escape, run_bind run_peek]
  simp only [List.head?_cons]
  rw [run_bind run_advance, if_pos trivial, unicodeEscape, run_bind (run_hexFour h)]
  split
  · rfl
  · split <;> rfl

theorem run_map_outcome {r : Reader α} {a : Option α} {f : α → β} (h : r.run t = outcome a u) :
    (do return f (← r) : Reader β).run t = outcome (a.map f) u := by
  cases a with
  | none => exact run_bind_error h
  | some a => exact run_bind h

theorem run_surrogatePair {m : Nat} (h : fourHex a b c d = some m) :
    (surrogatePair n).run (0x5C :: 0x75 :: a :: b :: c :: d :: t) =
      if isLowSurrogate m then .ok (utf8 (0x10000 + (n - 0xD800) * 0x400 + (m - 0xDC00)), t)
      else .error .malformed := by
  have backslash : (exactly [0x5C]).run (0x5C :: 0x75 :: a :: b :: c :: d :: t) =
      .ok ((), 0x75 :: a :: b :: c :: d :: t) := run_exactly [0x5C]
  have letter : (exactly [0x75]).run (0x75 :: a :: b :: c :: d :: t) =
      .ok ((), a :: b :: c :: d :: t) := run_exactly [0x75]
  rw [surrogatePair, run_bind backslash, run_bind letter, run_bind (run_hexFour h)]
  split <;> rfl

/-- Half of a surrogate pair that is not followed by the other half. -/
theorem run_surrogatePair_lone {pieces : List Piece} (valid : ∀ p ∈ pieces, p.Valid)
    (other : ∀ a b c d rest, pieces ≠ .unicode a b c d :: rest) :
    (surrogatePair n).run (pieces.flatMap Piece.bytes ++ 0x22 :: t) = .error .malformed := by
  match pieces, valid, other with
  | [], _, _ => exact run_bind_error (run_exactly_ne (by decide))
  | .plain b :: rest, valid, _ =>
    have no_backslash := (valid _ List.mem_cons_self).2.2
    exact run_bind_error (run_exactly_ne no_backslash)
  | .escape b :: rest, valid, _ =>
    have no_u : b ≠ 0x75 := ne_of_simpleEscape (valid _ List.mem_cons_self)
    have backslash := run_exactly (t := b :: (rest.flatMap Piece.bytes ++ 0x22 :: t)) [0x5C]
    exact (run_bind backslash).trans (run_bind_error (run_exactly_ne no_u))
  | .unicode a b c d :: rest, _, other => exact absurd rfl (other a b c d rest)

theorem run_append_outcome {r r' : Reader Bytes} {v v' : Option Bytes} {w : Bytes}
    (h : r.run t = outcome v u) (h' : r'.run u = outcome v' w) :
    (do return (← r) ++ (← r') : Reader Bytes).run t =
      outcome (do return (← v) ++ (← v')) w := by
  cases v with
  | none => exact run_bind_error h
  | some x =>
    cases v' with
    | none => exact (run_bind h).trans (run_bind_error h')
    | some y => exact (run_bind h).trans (run_bind h')

theorem run_escape_pair {a' b' c' d' : UInt8} {m : Nat} (hex : fourHex a b c d = some n)
    (low : isLowSurrogate n = false) (high : isHighSurrogate n = true)
    (hex' : fourHex a' b' c' d' = some m) :
    escape.run (0x75 :: a :: b :: c :: d :: 0x5C :: 0x75 :: a' :: b' :: c' :: d' :: t) =
      outcome (if isLowSurrogate m then
        some (utf8 (0x10000 + (n - 0xD800) * 0x400 + (m - 0xDC00))) else none) t := by
  rw [run_escape_unicode hex, if_neg (by simp [low]), if_pos high, run_surrogatePair hex']
  split <;> rfl

/-- The pieces of a string read as what they stand for. -/
theorem run_stringPieces {pieces : List Piece} (valid : ∀ p ∈ pieces, p.Valid) (fuel : Nat)
    (enough : pieces.length < fuel) :
    (stringPieces escape fuel).run (pieces.flatMap Piece.bytes ++ 0x22 :: t) =
      outcome (content? pieces) t := by
  induction pieces using content?.induct generalizing fuel with
  | case1 =>
    obtain ⟨fuel, rfl⟩ : ∃ n, fuel = n + 1 := ⟨fuel - 1, by omega⟩
    exact run_stringPieces_quote fuel
  | case2 b pieces ih =>
    obtain ⟨fuel, rfl⟩ : ∃ n, fuel = n + 1 := ⟨fuel - 1, by omega⟩
    have more := ih (fun p mem => valid p (List.mem_cons_of_mem _ mem)) fuel (by simpa using enough)
    rw [List.flatMap_cons, Piece.bytes, List.append_assoc, List.singleton_append,
      run_stringPieces_plain fuel (valid _ List.mem_cons_self), run_map_outcome more, content?]
  | case3 b pieces ih =>
    obtain ⟨fuel, rfl⟩ : ∃ n, fuel = n + 1 := ⟨fuel - 1, by omega⟩
    have more := ih (fun p mem => valid p (List.mem_cons_of_mem _ mem)) fuel (by simpa using enough)
    obtain ⟨c, simple⟩ := Option.isSome_iff_exists.mp (valid _ List.mem_cons_self)
    rw [List.flatMap_cons, Piece.bytes, List.append_assoc, List.cons_append,
      run_stringPieces_backslash, content?, simple]
    exact run_append_outcome (v := some [c]) (run_escape_simple simple) more
  | case4 a b c d pieces ih_pair ih =>
    obtain ⟨fuel, rfl⟩ : ∃ n, fuel = n + 1 := ⟨fuel - 1, by omega⟩
    obtain ⟨n, hex⟩ := Option.isSome_iff_exists.mp (valid _ List.mem_cons_self)
    have valid' : ∀ p ∈ pieces, p.Valid := fun p mem => valid p (List.mem_cons_of_mem _ mem)
    have read := run_escape_unicode (t := pieces.flatMap Piece.bytes ++ 0x22 :: t) hex
    rw [List.flatMap_cons, Piece.bytes, List.append_assoc, List.cons_append,
      run_stringPieces_backslash, content?, hex]
    simp only [List.cons_append, List.nil_append, Option.bind_eq_bind, Option.bind_some]
    cases low : isLowSurrogate n with
    | true =>
      rw [if_pos low] at read
      exact run_bind_error read
    | false =>
    cases high : isHighSurrogate n with
    | false =>
      rw [if_neg (by simp [low]), if_neg (by simp [high])] at read
      have more := ih valid' fuel (by simpa using enough)
      exact run_append_outcome (v := some (utf8 n)) read more
    | true =>
    by_cases paired : ∃ a b c d rest, pieces = .unicode a b c d :: rest
    · obtain ⟨a', b', c', d', rest, rfl⟩ := paired
      obtain ⟨m, hex'⟩ := Option.isSome_iff_exists.mp (valid' _ List.mem_cons_self)
      have more := ih_pair (fun p mem => valid' p (List.mem_cons_of_mem _ mem)) fuel (by
        simp only [List.length_cons] at enough
        omega)
      have both := run_append_outcome (run_escape_pair hex low high hex') more
      simp only [List.flatMap_cons, Piece.bytes, List.cons_append, List.nil_append]
      rw [both]
      cases low' : isLowSurrogate m <;> simp [hex', low']
    · have alone (a b c d rest) (h : pieces = .unicode a b c d :: rest) : False :=
        paired ⟨a, b, c, d, rest, h⟩
      rw [if_neg (by simp [low]), if_pos high, run_surrogatePair_lone valid' alone] at read
      rw [run_bind_error read, if_neg (by decide), if_pos rfl]
      split
      next => exact (alone _ _ _ _ _ rfl).elim
      next => rfl

def text? (pieces : List Piece) : Option Bytes :=
  (content? pieces).filter fun content => content.text?.isSome

theorem run_string {pieces : List Piece} (valid : ∀ p ∈ pieces, p.Valid) :
    string.run (pieces.flatMap Piece.bytes ++ 0x22 :: t) = outcome (text? pieces) t := by
  have long := length_pieces pieces
  have read := run_stringPieces (t := t) valid
    ((pieces.flatMap Piece.bytes ++ 0x22 :: t).length + 1) (by
      rw [List.length_append]
      omega)
  have got : (get : Reader Bytes).run (pieces.flatMap Piece.bytes ++ 0x22 :: t) =
      .ok (pieces.flatMap Piece.bytes ++ 0x22 :: t, pieces.flatMap Piece.bytes ++ 0x22 :: t) := rfl
  rw [string, run_bind got, text?]
  cases h : content? pieces with
  | none =>
    rw [h] at read
    exact run_bind_error read
  | some content =>
    rw [h] at read
    rw [run_bind read]
    cases known : content.text? with
    | none => simp [Option.filter, known, outcome]; rfl
    | some s => simp [Option.filter, known, outcome]; rfl

end Impersonation.Json
