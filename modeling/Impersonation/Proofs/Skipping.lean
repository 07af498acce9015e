import Impersonation.Proofs.Lexing

namespace Impersonation.Json

variable {space head v t : Bytes} {b : UInt8} {inner : Enclosure} {outer : List Enclosure}
  {items : List Item} {form : Form}

theorem ne_of_isDigit {c : UInt8} (digit : isDigit b = true) (other : isDigit c = false) :
    b ≠ c := by
  rintro rfl
  rw [digit] at other
  cases other

structure Begins (b : UInt8) : Prop where
  no_space : isSpace b = false
  no_end : b ≠ 0x5D

theorem Begins.of_isDigit (digit : isDigit b = true) : Begins b where
  no_space := by
    have other (c : UInt8) (h : isDigit c = false) : b ≠ c := ne_of_isDigit digit h
    simp [isSpace, other 0x20 rfl, other 0x09 rfl, other 0x0A rfl, other 0x0D rfl]
  no_end := ne_of_isDigit digit rfl

theorem Numeral.Valid.begins {x : Numeral} (valid : x.Valid) :
    ∃ b rest, x.bytes = b :: rest ∧ (b = 0x2D ∧ x.negative = true ∨
      isDigit b = true ∧ x.negative = false) := by
  obtain ⟨d, ds, some_digit, first⟩ := valid.first
  cases negative : x.negative with
  | true => exact ⟨_, _, by rw [Numeral.bytes, negative]; rfl, .inl ⟨rfl, rfl⟩⟩
  | false => exact ⟨d, _, by rw [Numeral.bytes, negative, some_digit]; rfl, .inr ⟨first, rfl⟩⟩

theorem Scalar.skip (h : Scalar v) (ends : Ends t) :
    ∃ b rest, v = b :: rest ∧ Begins b ∧ b ≠ 0x5B ∧ b ≠ 0x7B ∧
      (skipScalar b).run (v ++ t) = .ok ((), t) := by
  cases h with
  | null => exact ⟨0x6E, _, rfl, ⟨rfl, by decide⟩, by decide, by decide, run_exactly nullText⟩
  | bool b =>
    cases b with
    | true => exact ⟨0x74, _, rfl, ⟨rfl, by decide⟩, by decide, by decide, run_exactly trueText⟩
    | false => exact ⟨0x66, _, rfl, ⟨rfl, by decide⟩, by decide, by decide, run_exactly falseText⟩
  | @string pieces valid =>
    refine ⟨0x22, _, rfl, ⟨rfl, by decide⟩, by decide, by decide, ?_⟩
    have skipped := run_skipString (t := t) valid
    rw [quoted, List.cons_append, List.append_assoc]
    exact (run_bind run_advance).trans skipped
  | @number x valid =>
    obtain ⟨b, rest, bytes, first⟩ := valid.begins
    have skipped := run_discard (Numeral.run_number (e := .malformed) valid ends)
    rcases first with ⟨rfl, -⟩ | ⟨digit, -⟩
    · exact ⟨0x2D, rest, bytes, ⟨rfl, by decide⟩, by decide, by decide, skipped⟩
    · have other (c : UInt8) (h : isDigit c = false) : b ≠ c := ne_of_isDigit digit h
      refine ⟨b, rest, bytes, .of_isDigit digit, other _ rfl, other _ rfl, ?_⟩
      rw [skipScalar, if_neg (other _ rfl), if_neg (other _ rfl), if_neg (other _ rfl),
        if_neg (other _ rfl), digit, Bool.or_true, if_pos rfl]
      exact skipped

theorem WellFormed.begins (h : WellFormed .value v) :
    ∃ space b rest, v = space ++ b :: rest ∧ IsSpace space ∧ Begins b := by
  cases h with
  | @scalar space v spaces scalar =>
    obtain ⟨b, rest, rfl, begins, -⟩ := scalar.skip (t := []) (fun _ h => by cases h)
    exact ⟨space, b, rest, rfl, spaces, begins⟩
  | @enclosed space v inner items spaces body =>
    refine ⟨space, inner.opening, v, rfl, spaces, ?_⟩
    cases inner <;> exact ⟨rfl, by decide⟩

theorem WellFormed.length_pos (h : WellFormed .value v) : 0 < v.length := by
  obtain ⟨space, b, rest, rfl, -⟩ := h.begins
  rw [List.length_append, List.length_cons]
  omega

def Form.size : Form → Nat
  | value => 0
  | opened _ items | closed _ items => items.length

theorem WellFormed.size_le (h : WellFormed form v) : form.size ≤ v.length := by
  induction h with
  | scalar | enclosed | empty | last => exact Nat.zero_le _
  | first heads value rest _ ih =>
    have longer := value.length_pos
    simp only [Form.size, List.length_cons, List.length_append] at ih ⊢
    omega
  | next spaces heads value rest _ ih =>
    simp only [Form.size, List.length_cons, List.length_append] at ih ⊢
    omega

theorem WellFormed.ends (h : WellFormed (.closed inner items) v) : Ends (v ++ t) := by
  have first {space rest : Bytes} {c : UInt8} (spaces : IsSpace space)
      (stop : c = 0x2C ∨ c = 0x5D ∨ c = 0x7D) : Ends (space ++ c :: rest ++ t) := by
    intro b here
    cases space with
    | nil =>
      cases here
      exact .inr stop
    | cons s space =>
      cases here
      exact .inl (spaces _ List.mem_cons_self)
  cases h with
  | last spaces => exact first spaces (by cases inner <;> simp [Enclosure.closing])
  | next spaces => exact first spaces (.inl rfl)

theorem skipWithin_space (spaces : IsSpace space) (fuel : Nat) :
    (skipWithin fuel .value outer).run (space ++ t) = (skipWithin fuel .value outer).run t := by
  cases fuel with
  | zero => rfl
  | succ fuel =>
    rw [skipWithin]
    exact run_upcoming_bind spaces _

theorem run_colon (spaces : IsSpace space) : colon.run (space ++ 0x3A :: t) = .ok ((), t) := by
  rw [colon, run_bind (run_upcoming spaces rfl), if_neg (by decide)]
  exact run_advance

theorem run_skipKey {key : List Piece} (heads : Heads .object key head) :
    skipKey.run (head ++ t) = .ok ((), t) := by
  cases heads with
  | @key before after _ spaces spaces' valid =>
    have skipped := run_skipString (t := after ++ 0x3A :: t) valid
    rw [skipKey, quoted]
    simp only [List.append_assoc, List.cons_append, List.nil_append]
    rw [run_bind (run_upcoming spaces rfl), if_neg (by decide), run_bind run_advance,
      run_bind skipped]
    exact run_colon spaces'

theorem Heads.eq_nil {key : List Piece} (h : Heads .list key head) : head = [] := by
  cases h
  rfl

theorem run_heads {key : List Piece} (heads : Heads inner key head) (r : Reader Unit) :
    (if inner = .object then do skipKey; r else r).run (head ++ t) = r.run t := by
  cases inner with
  | list =>
    cases heads
    rfl
  | object => exact run_bind (run_skipKey heads)

def Form.place : Form → Place
  | value => .value
  | opened _ _ => .opened
  | closed _ _ => .closed

def Form.around (outer : List Enclosure) : Form → List Enclosure
  | value => outer
  | opened inner _ | closed inner _ => inner :: outer

section steps

variable {fuel : Nat}

theorem skipWithin_scalar (spaces : IsSpace space) (scalar : Scalar v) (ends : Ends t) :
    (skipWithin (fuel + 1) .value outer).run (space ++ v ++ t) =
      (skipWithin fuel .closed outer).run t := by
  obtain ⟨b, rest, rfl, begins, no_list, no_object, skipped⟩ := scalar.skip ends
  rw [List.append_assoc, List.cons_append, skipWithin,
    run_bind (run_upcoming spaces begins.no_space)]
  split
  next => exact absurd rfl no_list
  next => exact absurd rfl no_object
  next => exact run_bind skipped

theorem skipWithin_enclosed (spaces : IsSpace space) :
    (skipWithin (fuel + 1) .value outer).run (space ++ inner.opening :: t) =
      (skipWithin fuel .opened (inner :: outer)).run t := by
  cases inner with
  | list =>
    rw [skipWithin, Enclosure.opening, run_bind (run_upcoming spaces rfl)]
    exact run_bind run_advance
  | object =>
    rw [skipWithin, Enclosure.opening, run_bind (run_upcoming spaces rfl)]
    exact run_bind run_advance

theorem Enclosure.closing_no_space (inner : Enclosure) : isSpace inner.closing = false := by
  cases inner <;> rfl

theorem skipWithin_closing (spaces : IsSpace space) {place : Place}
    (inside : place = .opened ∨ place = .closed) :
    (skipWithin (fuel + 1) place (inner :: outer)).run (space ++ inner.closing :: t) =
      (skipWithin fuel .closed outer).run t := by
  have closing := run_upcoming (t := t) spaces inner.closing_no_space
  rcases inside with rfl | rfl <;>
  · rw [skipWithin, run_bind closing, if_pos rfl]
    exact run_bind run_advance

theorem skipWithin_next (spaces : IsSpace space) {key : List Piece}
    (heads : Heads inner key head) :
    (skipWithin (fuel + 1) .closed (inner :: outer)).run (space ++ 0x2C :: (head ++ t)) =
      (skipWithin fuel .value (inner :: outer)).run t := by
  have other : 0x2C ≠ inner.closing := by cases inner <;> decide
  rw [skipWithin, run_bind (run_upcoming spaces rfl), if_neg other, if_pos rfl,
    run_bind run_advance]
  exact run_heads heads _

theorem skipWithin_first {key : List Piece} (heads : Heads inner key head)
    (value : WellFormed .value v) :
    (skipWithin (fuel + 1) .opened (inner :: outer)).run (head ++ (v ++ t)) =
      (skipWithin fuel .value (inner :: outer)).run (v ++ t) := by
  rw [skipWithin]
  cases heads with
  | element =>
    obtain ⟨space, b, rest, rfl, spaces, begins⟩ := value.begins
    have no_end : b ≠ Enclosure.list.closing := begins.no_end
    rw [List.nil_append, List.append_assoc, List.cons_append,
      run_bind (run_upcoming spaces begins.no_space), if_neg no_end, skipWithin_space spaces]
    rfl
  | @key before after _ spaces spaces' valid =>
    have no_space : IsSpace [] := nofun
    have opens : upcoming.run (quoted key ++ (after ++ [0x3A]) ++ (v ++ t)) =
        .ok (0x22, quoted key ++ (after ++ [0x3A]) ++ (v ++ t)) := run_upcoming no_space rfl
    have skipped : skipKey.run (quoted key ++ (after ++ [0x3A]) ++ (v ++ t)) = .ok ((), v ++ t) :=
      run_skipKey (.key no_space spaces' valid)
    rw [List.append_assoc, run_upcoming_bind spaces, run_bind opens, if_neg (by decide)]
    exact run_bind skipped

end steps

/-- A text is passed over in a number of steps, less than two for each of its bytes. -/
def Skips (form : Form) (v : Bytes) : Prop :=
  ∃ k, k + 1 < 2 * v.length ∧ ∀ fuel outer t, Ends t →
    (skipWithin (fuel + k + 1) form.place (form.around outer)).run (v ++ t) =
      (skipWithin fuel .closed outer).run t

theorem skips_closing (spaces : IsSpace space)
    (inside : form = .opened inner [] ∨ form = .closed inner []) :
    Skips form (space ++ [inner.closing]) := by
  refine ⟨0, ?_, fun fuel outer t ends => ?_⟩
  · simp only [List.length_append, List.length_cons]
    omega
  · rw [List.append_assoc, List.singleton_append]
    rcases inside with rfl | rfl
    · exact skipWithin_closing spaces (.inl rfl)
    · exact skipWithin_closing spaces (.inr rfl)

/-- The value of an item and the items after it. -/
theorem Skips.item {rest : Bytes} (value : Skips .value v)
    (others : Skips (.closed inner items) rest) (ends : ∀ t, Ends (rest ++ t)) :
    ∃ k, k + 2 < 2 * (v.length + rest.length) ∧ ∀ fuel outer t, Ends t →
      (skipWithin (fuel + k + 1) .value (inner :: outer)).run (v ++ (rest ++ t)) =
        (skipWithin fuel .closed outer).run t := by
  obtain ⟨k, short, skipped⟩ := value
  obtain ⟨l, short', skipped'⟩ := others
  refine ⟨k + l + 1, by omega, fun fuel outer t here => ?_⟩
  have steps : fuel + (k + l + 1) = fuel + l + 1 + k := by omega
  rw [steps]
  exact (skipped (fuel + l + 1) (inner :: outer) (rest ++ t) (ends t)).trans
    (skipped' fuel outer t here)

theorem WellFormed.skip (h : WellFormed form v) : Skips form v := by
  induction h with
  | @scalar space v spaces scalar =>
    refine ⟨0, ?_, fun fuel outer t ends => skipWithin_scalar spaces scalar ends⟩
    obtain ⟨b, rest, rfl, -⟩ := scalar.skip (t := []) (fun _ h => by cases h)
    simp only [List.length_append, List.length_cons]
    omega
  | @enclosed space v inner items spaces body ih =>
    obtain ⟨k, short, skipped⟩ := ih
    refine ⟨k + 1, ?_, fun fuel outer t ends => ?_⟩
    · simp only [List.length_append, List.length_cons]
      omega
    · rw [List.append_assoc, List.cons_append]
      exact (skipWithin_enclosed spaces).trans (skipped fuel outer t ends)
  | empty spaces => exact skips_closing spaces (.inl rfl)
  | @first head v inner i items heads value rest ih_value ih_rest =>
    obtain ⟨k, short, skipped⟩ := ih_value.item ih_rest (fun _ => rest.ends)
    refine ⟨k + 1, ?_, fun fuel outer t ends => ?_⟩
    · simp only [List.length_append]
      omega
    · rw [List.append_assoc, List.append_assoc]
      exact (skipWithin_first heads value).trans (skipped fuel outer t ends)
  | last spaces => exact skips_closing spaces (.inr rfl)
  | @next space head v inner i items spaces heads value rest ih_value ih_rest =>
    obtain ⟨k, short, skipped⟩ := ih_value.item ih_rest (fun _ => rest.ends)
    refine ⟨k + 1, ?_, fun fuel outer t ends => ?_⟩
    · simp only [List.length_append, List.length_cons]
      omega
    · rw [List.append_assoc, List.cons_append, List.append_assoc, List.append_assoc]
      exact (skipWithin_next spaces heads).trans (skipped fuel outer t ends)

theorem run_skipValue (value : WellFormed .value v) (ends : Ends t) :
    skipValue.run (v ++ t) = .ok ((), t) := by
  obtain ⟨k, short, skipped⟩ := value.skip
  have got : (get : Reader Bytes).run (v ++ t) = .ok (v ++ t, v ++ t) := rfl
  have enough : 2 * (v ++ t).length + 2 = (2 * (v ++ t).length - k) + 1 + k + 1 := by
    rw [List.length_append]
    omega
  rw [skipValue, run_bind got, enough]
  refine (skipped _ [] t ends).trans ?_
  rw [skipWithin]
  rfl

end Impersonation.Json
