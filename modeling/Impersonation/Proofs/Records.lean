import Impersonation.Proofs.Values
import Mathlib.Data.List.Nodup

namespace Impersonation.Json

/-- A key is read when it is text, whatever escapes it is written with. -/
theorem text?_eq_some_iff {key : List Piece} {k : Bytes} :
    text? key = some k ↔ content? key = some k ∧ ∃ s, k = Bytes.ofString s := by
  rw [text?, Option.filter_eq_some_iff]
  refine and_congr_right fun _ => ?_
  rw [Option.isSome_iff_exists]
  exact exists_congr fun s => Bytes.text?_eq_some_iff

namespace Schema

variable {ι : Type} (s : Schema ι)

/-- What an item of an object tells: the value of the member that its key names, or nothing where the
key is of no member. -/
inductive Tells : Item → Option s.Entry → Prop
  | member {item : Item} {i : ι} {a : (s.type i).Carrier}
      (key : content? item.key = some (Bytes.ofString (s.key i)))
      (writes : (s.type i).Writes item.value a) : Tells item (some ⟨i, a⟩)
  | other {item : Item} {key : String} (named : content? item.key = some (Bytes.ofString key))
      (unknown : ∀ i, key ≠ s.key i) : Tells item none

inductive TellAll : List Item → List s.Entry → Prop
  | nil : TellAll [] []
  | cons {item : Item} {items : List Item} {o : Option s.Entry} {told : List s.Entry}
      (first : s.Tells item o) (rest : TellAll items told) :
      TellAll (item :: items) (o.toList ++ told)

def ListAll (members : List ι) (items : List Item) (told : List s.Entry) : Prop :=
  told.map Sigma.fst <+: members ∧
    List.Forall₂ (fun item e => (s.type e.1).Writes item.value e.2) items told

/-- How often a key occurs, whatever escapes it is written with. -/
def occurrences (i : ι) (items : List Item) : Nat :=
  items.countP fun item => content? item.key = some (Bytes.ofString (s.key i))

/-- What is documented of a reader that is derived from the declaration of a record with defaults. -/
structure Documented [DecidableEq ι] {ε : Type} (reader : Bytes → Except ε s.Record) : Prop where
  /-- Members that are missing have their defaults. -/
  missing {lead v trail : Bytes} (spaces : IsSpace lead) (spaces' : IsSpace trail)
    (object : WellFormed (.opened .object []) v) :
    reader (lead ++ 0x7B :: (v ++ trail)) = .ok s.default
  /-- An unknown key is ignored with its value. -/
  unknown {lead v w trail : Bytes} {item : Item} {items : List Item} {r : s.Record}
    (spaces : IsSpace lead) (spaces' : IsSpace trail)
    (object : WellFormed (.opened .object (item :: items)) v)
    (rest : WellFormed (.opened .object items) w) (tells : s.Tells item none)
    (read : reader (lead ++ 0x7B :: (w ++ trail)) = .ok r) :
    reader (lead ++ 0x7B :: (v ++ trail)) = .ok r
  /-- A known key gives its member the value. -/
  known {lead v w trail : Bytes} {item : Item} {items : List Item} {r : s.Record} {e : s.Entry}
    (spaces : IsSpace lead) (spaces' : IsSpace trail)
    (object : WellFormed (.opened .object (item :: items)) v)
    (rest : WellFormed (.opened .object items) w) (tells : s.Tells item (some e))
    (once : s.occurrences e.1 items = 0) (read : reader (lead ++ 0x7B :: (w ++ trail)) = .ok r) :
    reader (lead ++ 0x7B :: (v ++ trail)) = .ok (assign r e)
  /-- A known key that is repeated is an error. -/
  repeated {lead v trail : Bytes} {items : List Item} {i : ι} (spaces : IsSpace lead)
    (spaces' : IsSpace trail) (object : WellFormed (.opened .object items) v)
    (twice : 2 ≤ s.occurrences i items) (r : s.Record) :
    reader (lead ++ 0x7B :: (v ++ trail)) ≠ .ok r
  /-- A key that is no text, or a value of another type, is an error. -/
  mistyped {lead v trail : Bytes} {items : List Item} {item : Item} (spaces : IsSpace lead)
    (spaces' : IsSpace trail) (object : WellFormed (.opened .object items) v) (mem : item ∈ items)
    (wrong : ∀ o, ¬ s.Tells item o) (r : s.Record) :
    reader (lead ++ 0x7B :: (v ++ trail)) ≠ .ok r
  /-- A list holds values of the members in the order of their declaration; those after its end have
  their defaults. -/
  list {lead v trail : Bytes} {items : List Item} {told : List s.Entry} (spaces : IsSpace lead)
    (spaces' : IsSpace trail) (list : WellFormed (.opened .list items) v)
    (listed : s.ListAll s.members items told) :
    reader (lead ++ 0x5B :: (v ++ trail)) = .ok (fill s.default told)

variable {s} {item : Item} {items : List Item} {o : Option s.Entry} {told : List s.Entry} {i : ι}

theorem ofKey?_eq_some_iff {key : Bytes} :
    s.ofKey? key = some i ↔ key = Bytes.ofString (s.key i) := by
  constructor
  · intro known
    rw [ofKey?] at known
    have same := List.find?_some known
    exact (of_decide_eq_true same).symm
  · rintro rfl
    rw [ofKey?]
    cases found : s.members.find? fun j => Bytes.ofString (s.key j) = Bytes.ofString (s.key i) with
    | none => exact absurd (List.find?_eq_none.mp found i (s.complete i)) (by simp)
    | some j =>
      have same := List.find?_some found
      rw [s.key_injective j i (Bytes.ofString_injective (of_decide_eq_true same))]

theorem Tells.text? (tells : s.Tells item o) : ∃ k, Json.text? item.key = some k ∧
    s.ofKey? k = o.map Sigma.fst := by
  cases tells with
  | member key writes =>
    exact ⟨_, text?_eq_some_iff.mpr ⟨key, _, rfl⟩, ofKey?_eq_some_iff.mpr rfl⟩
  | other named unknown =>
    refine ⟨_, text?_eq_some_iff.mpr ⟨named, _, rfl⟩, ?_⟩
    rw [Option.map_none, Option.eq_none_iff_forall_ne_some]
    intro i known
    exact unknown i (Bytes.ofString_injective (ofKey?_eq_some_iff.mp known))

theorem not_tells (key : Json.text? item.key = none) : ¬ s.Tells item o := by
  intro tells
  obtain ⟨k, some_key, -⟩ := tells.text?
  rw [key] at some_key
  cases some_key

theorem tells_unknown {k : Bytes} (key : Json.text? item.key = some k)
    (unknown : s.ofKey? k = none) : s.Tells item o ↔ o = none := by
  constructor
  · intro tells
    obtain ⟨k', key', member⟩ := tells.text?
    rw [key] at key'
    cases key'
    rw [unknown] at member
    exact Option.map_eq_none_iff.mp member.symm
  · rintro rfl
    obtain ⟨named, name, rfl⟩ := text?_eq_some_iff.mp key
    refine .other named ?_
    rintro i rfl
    rw [ofKey?_eq_some_iff.mpr rfl] at unknown
    cases unknown

theorem tells_known {k : Bytes} (key : Json.text? item.key = some k)
    (known : s.ofKey? k = some i) :
    s.Tells item o ↔ ∃ a, o = some ⟨i, a⟩ ∧ (s.type i).Writes item.value a := by
  constructor
  · intro tells
    obtain ⟨k', key', member⟩ := tells.text?
    rw [key] at key'
    cases key'
    rw [known] at member
    cases tells with
    | other => cases member
    | member named writes =>
      cases member
      exact ⟨_, rfl, writes⟩
  · rintro ⟨a, rfl, writes⟩
    obtain ⟨named, -⟩ := text?_eq_some_iff.mp key
    rw [ofKey?_eq_some_iff.mp known] at named
    exact .member named writes

variable [DecidableEq ι] {r r' : s.Record} {seen : List ι} {v t u after : Bytes}

theorem run_readMember_other {k : Bytes} (valid : ∀ p ∈ item.key, p.Valid) (spaces : IsSpace after)
    (value : WellFormed .value item.value) (ends : Ends t) (key : Json.text? item.key = some k)
    (unknown : s.ofKey? k = none) :
    (s.readMember seen r).run
        (item.key.flatMap Piece.bytes ++ 0x22 :: (after ++ 0x3A :: (item.value ++ t))) =
      .ok ((seen, r), t) := by
  have read := run_string (t := after ++ 0x3A :: (item.value ++ t)) valid
  rw [key] at read
  rw [readMember, run_bind read, unknown]
  exact (run_bind (run_colon spaces)).trans (run_bind (run_skipValue value ends))

theorem run_readMember_known {k : Bytes} (valid : ∀ p ∈ item.key, p.Valid) (spaces : IsSpace after)
    (key : Json.text? item.key = some k) (known : s.ofKey? k = some i) :
    (s.readMember seen r).run
        (item.key.flatMap Piece.bytes ++ 0x22 :: (after ++ 0x3A :: (item.value ++ t))) =
      if i ∈ seen then .error .mistyped
      else (do return (i :: seen, assign r ⟨i, ← (s.type i).read⟩) : Reader (List ι × s.Record)).run
        (item.value ++ t) := by
  have read := run_string (t := after ++ 0x3A :: (item.value ++ t)) valid
  rw [key] at read
  rw [readMember, run_bind read, known]
  by_cases again : i ∈ seen
  · simp only [again, if_true]
    rfl
  · simp only [again, if_false]
    exact run_bind (run_colon spaces)

/-- A member is read when it tells something, of a member not seen before. -/
theorem run_readMember (seen : List ι) (r : s.Record) {x : List ι × s.Record}
    (valid : ∀ p ∈ item.key, p.Valid)
    (spaces : IsSpace after) (value : WellFormed .value item.value) (ends : Ends t) :
    (s.readMember seen r).run
        (item.key.flatMap Piece.bytes ++ 0x22 :: (after ++ 0x3A :: (item.value ++ t))) =
          .ok (x, u) ↔
      u = t ∧ ∃ o, s.Tells item o ∧ (∀ e ∈ o, e.1 ∉ seen) ∧
        x = ((o.map Sigma.fst).toList ++ seen, fill r o.toList) := by
  cases key : Json.text? item.key with
  | none =>
    have read := run_string (t := after ++ 0x3A :: (item.value ++ t)) valid
    rw [key] at read
    rw [readMember, run_bind_error read]
    exact ⟨nofun, fun ⟨_, _, tells, _⟩ => absurd tells (not_tells key)⟩
  | some k =>
  cases known : s.ofKey? k with
  | none =>
    rw [run_readMember_other valid spaces value ends key known]
    constructor
    · rintro ⟨⟩
      exact ⟨rfl, none, (tells_unknown key known).mpr rfl, nofun, rfl⟩
    · rintro ⟨rfl, o, tells, -, rfl⟩
      rw [(tells_unknown key known).mp tells]
      rfl
  | some i =>
    rw [run_readMember_known valid spaces key known]
    by_cases again : i ∈ seen
    · rw [if_pos again]
      refine ⟨nofun, ?_⟩
      rintro ⟨-, o, tells, fresh, -⟩
      obtain ⟨a, rfl, -⟩ := (tells_known key known).mp tells
      exact absurd again (fresh ⟨i, a⟩ rfl)
    · rw [if_neg again, run_map]
      constructor
      · rintro ⟨a, read, rfl⟩
        obtain ⟨rfl, writes⟩ := (ValueType.run_read value ends).mp read
        refine ⟨rfl, some ⟨i, a⟩, (tells_known key known).mpr ⟨a, rfl, writes⟩, ?_, rfl⟩
        rintro _ ⟨⟩
        exact again
      · rintro ⟨rfl, o, tells, -, rfl⟩
        obtain ⟨a, rfl, writes⟩ := (tells_known key known).mp tells
        exact ⟨a, (ValueType.run_read value ends).mpr ⟨rfl, writes⟩, rfl⟩

def Fresh (seen : List ι) (told : List s.Entry) : Prop :=
  (told.map Sigma.fst).Nodup ∧ ∀ e ∈ told, e.1 ∉ seen

omit [DecidableEq ι] in
theorem fresh_append : Fresh seen (o.toList ++ told) ↔
    (∀ e ∈ o, e.1 ∉ seen) ∧ Fresh ((o.map Sigma.fst).toList ++ seen) told := by
  cases o with
  | none => simp [Fresh]
  | some e =>
    constructor
    · rintro ⟨distinct, new⟩
      obtain ⟨apart, distinct⟩ := List.nodup_cons.mp distinct
      refine ⟨?_, distinct, fun e' mem => ?_⟩
      · rintro _ ⟨⟩
        exact new e List.mem_cons_self
      · intro again
        rcases List.mem_cons.mp again with same | before
        · exact apart (same ▸ List.mem_map_of_mem mem)
        · exact new e' (List.mem_cons_of_mem _ mem) before
    · rintro ⟨new, distinct, fresh⟩
      refine ⟨List.nodup_cons.mpr ⟨fun mem => ?_, distinct⟩, fun e' mem => ?_⟩
      · obtain ⟨e', mem, same⟩ := List.mem_map.mp mem
        exact fresh e' mem (same ▸ List.mem_cons_self)
      · rcases List.mem_cons.mp mem with rfl | mem
        · exact new e' rfl
        · exact fun before => fresh e' mem (List.mem_cons_of_mem _ before)

/-- What reading members comes to: what is told is put in, if it is of distinct members. -/
def Reads (x : Reader s.Record) (items : List Item) (seen : List ι) (r : s.Record) (v t : Bytes) :
    Prop :=
  ∀ r' u, x.run (v ++ t) = .ok (r', u) ↔ u = t ∧ ∃ told, s.TellAll items told ∧
    Fresh seen told ∧ r' = fill r told

theorem reads_cons (seen : List ι) (r : s.Record) {rest : Bytes} {g : List ι × s.Record → Reader s.Record}
    (valid : ∀ p ∈ item.key, p.Valid) (spaces : IsSpace after)
    (value : WellFormed .value item.value) (ends : Ends (rest ++ t))
    (reads : ∀ x, Reads (g x) items x.1 x.2 rest t) :
    Reads (s.readMember seen r >>= g) (item :: items) seen r
      (item.key.flatMap Piece.bytes ++ 0x22 :: (after ++ 0x3A :: (item.value ++ rest))) t := by
  intro r' u
  have member {x w} := run_readMember seen r (x := x) (u := w) valid spaces value ends
  simp only [List.append_assoc, List.cons_append]
  constructor
  · intro ok
    obtain ⟨x, w, first, more⟩ := run_bind_ok ok
    obtain ⟨rfl, o, tells, new, rfl⟩ := member.mp first
    obtain ⟨rfl, told, tell, fresh, rfl⟩ := (reads _ r' u).mp more
    exact ⟨rfl, _, .cons tells tell, fresh_append.mpr ⟨new, fresh⟩, fill_append.symm⟩
  · rintro ⟨rfl, _, tell, fresh, rfl⟩
    cases tell with
    | @cons _ _ o told tells tell =>
      obtain ⟨new, fresh⟩ := fresh_append.mp fresh
      rw [run_bind (member.mpr ⟨rfl, o, tells, new, rfl⟩)]
      exact (reads _ _ _).mpr ⟨rfl, told, tell, fresh, fill_append⟩

theorem reads_nil {x : Reader s.Record} (h : x.run (v ++ t) = .ok (r, t)) :
    Reads x [] seen r v t := by
  intro r' u
  rw [h]
  constructor
  · rintro ⟨⟩
    exact ⟨rfl, [], .nil, ⟨List.nodup_nil, nofun⟩, rfl⟩
  · rintro ⟨rfl, _, ⟨⟩, -, rfl⟩
    rfl

section steps

variable {space : Bytes} (fuel : Nat)

theorem run_readMembers_close {isFirst : Bool} (spaces : IsSpace space) :
    (s.readMembers (fuel + 1) isFirst seen r).run (space ++ 0x7D :: t) = .ok (r, t) := by
  rw [readMembers, run_bind (run_upcoming spaces rfl), if_pos rfl]
  exact run_bind run_advance

theorem run_readMembers_first (spaces : IsSpace space) :
    (s.readMembers (fuel + 1) true seen r).run (space ++ 0x22 :: t) =
      (s.readMember seen r >>= fun x => s.readMembers fuel false x.1 x.2).run t := by
  have no_space : IsSpace [] := nofun
  have again : upcoming.run (0x22 :: t) = .ok (0x22, 0x22 :: t) := run_upcoming no_space rfl
  rw [readMembers, run_bind (run_upcoming spaces rfl), if_neg (by decide)]
  exact (run_bind again).trans (run_bind run_advance)

theorem run_readMembers_next {space' : Bytes} (spaces : IsSpace space)
    (spaces' : IsSpace space') :
    (s.readMembers (fuel + 1) false seen r).run (space ++ 0x2C :: (space' ++ 0x22 :: t)) =
      (s.readMember seen r >>= fun x => s.readMembers fuel false x.1 x.2).run t := by
  rw [readMembers, run_bind (run_upcoming spaces rfl), if_neg (by decide)]
  exact (run_bind run_advance).trans ((run_bind (run_upcoming spaces' rfl)).trans
    (run_bind run_advance))

end steps

theorem reads_closed (object : WellFormed (.closed .object items) v) {fuel : Nat}
    (enough : items.length < fuel) :
    Reads (s.readMembers fuel false seen r) items seen r v t := by
  induction items generalizing v fuel seen r with
  | nil =>
    obtain ⟨fuel, rfl⟩ : ∃ n, fuel = n + 1 := ⟨fuel - 1, by omega⟩
    cases object with
    | last spaces =>
      refine reads_nil ?_
      rw [List.append_assoc]
      exact run_readMembers_close fuel spaces
  | cons item items ih =>
    obtain ⟨fuel, rfl⟩ : ∃ n, fuel = n + 1 := ⟨fuel - 1, by omega⟩
    cases object with
    | @next space head rest _ _ _ spaces heads value others =>
    cases heads with
    | @key before after _ spaces' spaces'' valid =>
      have member := reads_cons seen r (t := t) valid spaces'' value others.ends
        (fun x => ih others (by simpa using enough))
      intro r' u
      rw [← member r' u, ← run_readMembers_next fuel spaces spaces']
      simp only [quoted, List.append_assoc, List.cons_append, List.nil_append]

theorem reads_opened (object : WellFormed (.opened .object items) v) {fuel : Nat}
    (enough : items.length < fuel) :
    Reads (s.readMembers fuel true seen r) items seen r v t := by
  obtain ⟨fuel, rfl⟩ : ∃ n, fuel = n + 1 := ⟨fuel - 1, by omega⟩
  cases object with
  | empty spaces =>
    refine reads_nil ?_
    rw [List.append_assoc]
    exact run_readMembers_close fuel spaces
  | @first head rest _ item items heads value others =>
  cases heads with
  | @key before after _ spaces spaces' valid =>
    have member := reads_cons seen r (t := t) valid spaces' value others.ends
      (fun x => reads_closed others (by simpa using enough))
    intro r' u
    rw [← member r' u, ← run_readMembers_first fuel spaces]
    simp only [quoted, List.append_assoc, List.cons_append, List.nil_append]

variable {members : List ι}

theorem run_readElements_close {space : Bytes} {isFirst : Bool} (spaces : IsSpace space) :
    (s.readElements members isFirst r).run (space ++ 0x5D :: t) = .ok (r, t) := by
  cases members with
  | nil =>
    rw [readElements, run_bind (run_upcoming spaces rfl), if_neg (by decide)]
    exact run_bind run_advance
  | cons i members =>
    rw [readElements, run_bind (run_upcoming spaces rfl), if_pos rfl]
    exact run_bind run_advance

theorem run_element {a : (s.type i).Carrier} {rest : Bytes} (value : WellFormed .value item.value)
    (writes : (s.type i).Writes item.value a) (ends : Ends (rest ++ t)) :
    ((s.type i).read >>= fun a => s.readElements members false (assign r ⟨i, a⟩)).run
        (item.value ++ (rest ++ t)) =
      (s.readElements members false (assign r ⟨i, a⟩)).run (rest ++ t) :=
  run_bind ((ValueType.run_read value ends).mpr ⟨rfl, writes⟩)

theorem run_readElements_first (value : WellFormed .value v) :
    (s.readElements (i :: members) true r).run (v ++ t) =
      ((s.type i).read >>= fun a => s.readElements members false (assign r ⟨i, a⟩)).run
        (v ++ t) := by
  obtain ⟨space, b, rest, rfl, spaces, begins⟩ := value.begins
  have same : (s.type i).read.run (space ++ b :: (rest ++ t)) =
      (s.type i).read.run (b :: (rest ++ t)) := ValueType.run_read_space spaces
  rw [List.append_assoc, List.cons_append, readElements,
    run_bind (run_upcoming spaces begins.no_space), if_neg begins.no_end, StateT.run_bind, same]
  rfl

theorem run_readElements_next {space : Bytes} (spaces : IsSpace space)
    (value : WellFormed .value v) :
    (s.readElements (i :: members) false r).run (space ++ 0x2C :: (v ++ t)) =
      ((s.type i).read >>= fun a => s.readElements members false (assign r ⟨i, a⟩)).run
        (v ++ t) := by
  obtain ⟨space', b, rest, rfl, spaces', begins⟩ := value.begins
  have same : (s.type i).read.run (space' ++ b :: (rest ++ t)) =
      (s.type i).read.run (b :: (rest ++ t)) := ValueType.run_read_space spaces'
  rw [List.append_assoc, List.cons_append, readElements, run_bind (run_upcoming spaces rfl),
    if_neg (by decide)]
  refine (run_bind run_advance).trans
    ((run_bind (run_upcoming spaces' begins.no_space)).trans ?_)
  rw [if_neg begins.no_end, StateT.run_bind, StateT.run_bind, same]

theorem run_readElements (list : WellFormed (.closed .list items) v)
    (listed : s.ListAll members items told) :
    (s.readElements members false r).run (v ++ t) = .ok (fill r told, t) := by
  obtain ⟨front, values⟩ := listed
  induction values generalizing members v r with
  | nil =>
    cases list with
    | last spaces =>
      rw [List.append_assoc]
      exact run_readElements_close spaces
  | @cons item e items told writes values ih =>
    obtain ⟨i, a⟩ := e
    obtain ⟨members, rfl, front'⟩ := List.cons_prefix_iff.mp front
    cases list with
    | @next space head rest _ _ _ spaces heads value others =>
    obtain rfl := heads.eq_nil
    rw [List.nil_append, List.append_assoc, List.cons_append, List.append_assoc,
      run_readElements_next spaces value, run_element value writes others.ends, ih others front']
    rfl

theorem run_readElements_opened (list : WellFormed (.opened .list items) v)
    (listed : s.ListAll members items told) :
    (s.readElements members true r).run (v ++ t) = .ok (fill r told, t) := by
  obtain ⟨front, values⟩ := listed
  cases list with
  | empty spaces =>
    cases values
    rw [List.append_assoc]
    exact run_readElements_close spaces
  | @first head rest _ item items heads value others =>
    cases values with
    | @cons _ e _ told writes values =>
    obtain ⟨i, a⟩ := e
    obtain ⟨members, rfl, front'⟩ := List.cons_prefix_iff.mp front
    obtain rfl := heads.eq_nil
    rw [List.nil_append, List.append_assoc, run_readElements_first value,
      run_element value writes others.ends, run_readElements others ⟨front', values⟩]
    rfl

theorem run_readValue_object {space : Bytes} (spaces : IsSpace space) :
    s.readValue.run (space ++ 0x7B :: t) =
      (s.readMembers (t.length + 1) true [] s.default).run t := by
  have got : (get : Reader Bytes).run t = .ok (t, t) := rfl
  rw [readValue, run_bind (run_upcoming spaces rfl)]
  exact (run_bind run_advance).trans (run_bind got)

theorem run_readValue_list {space : Bytes} (spaces : IsSpace space) :
    s.readValue.run (space ++ 0x5B :: t) =
      (s.readElements s.members true s.default).run t := by
  rw [readValue, run_bind (run_upcoming spaces rfl)]
  exact run_bind run_advance

theorem read_eq_ok_iff {text : Bytes} :
    s.read text = .ok r ↔ ∃ rest, s.readValue.run text = .ok (r, rest) ∧ IsSpace rest := by
  rw [read]
  cases h : s.readValue.run text with
  | error e => exact ⟨nofun, fun ⟨_, ok, _⟩ => nomatch ok⟩
  | ok x =>
    obtain ⟨r', rest⟩ := x
    constructor
    · intro ok
      have last : (if rest.all isSpace then pure r' else throw .malformed :
        Except ReadError s.Record) = .ok r := ok
      split at last
      next all =>
        cases last
        exact ⟨rest, rfl, List.all_eq_true.mp all⟩
      next => cases last
    · rintro ⟨rest, ⟨⟩, spaces⟩
      exact if_pos (List.all_eq_true.mpr spaces)

variable {lead trail : Bytes}

/-- An object is read exactly when its keys are text and its known keys are given once, each with
a value of its type. -/
theorem read_object (spaces : IsSpace lead) (spaces' : IsSpace trail)
    (object : WellFormed (.opened .object items) v) :
    s.read (lead ++ 0x7B :: (v ++ trail)) = .ok r ↔
      ∃ told, s.TellAll items told ∧ (told.map Sigma.fst).Nodup ∧ r = fill s.default told := by
  have enough : items.length < (v ++ trail).length + 1 := by
    have short : items.length ≤ v.length := object.size_le
    rw [List.length_append]
    omega
  have reads : Reads (s.readMembers ((v ++ trail).length + 1) true [] s.default) items []
      s.default v trail := reads_opened object enough
  rw [read_eq_ok_iff, run_readValue_object spaces]
  constructor
  · rintro ⟨rest, run, -⟩
    obtain ⟨-, told, tell, ⟨distinct, -⟩, rfl⟩ := (reads r rest).mp run
    exact ⟨told, tell, distinct, rfl⟩
  · rintro ⟨told, tell, distinct, rfl⟩
    exact ⟨trail, (reads _ _).mpr ⟨rfl, told, tell, ⟨distinct, fun _ _ => List.not_mem_nil⟩, rfl⟩,
      spaces'⟩

theorem TellAll.occurrences_eq (tell : s.TellAll items told) (i : ι) :
    s.occurrences i items = (told.map Sigma.fst).count i := by
  induction tell with
  | nil => rfl
  | @cons item items o told first rest ih =>
    rw [occurrences, List.countP_cons, ← occurrences, ih, List.map_append, List.count_append,
      Nat.add_comm]
    congr 1
    cases first with
    | @member j a key writes =>
      have same_key : s.key j = s.key i ↔ j = i := ⟨s.key_injective j i, congrArg _⟩
      simp [key, Bytes.ofString_injective.eq_iff, same_key, List.count_singleton]
    | @other key named unknown =>
      simp [named, Bytes.ofString_injective.eq_iff, unknown i]

omit [DecidableEq ι] in
theorem TellAll.tells (tell : s.TellAll items told) (mem : item ∈ items) : ∃ o, s.Tells item o := by
  induction tell with
  | nil => cases mem
  | cons first rest ih =>
    rcases List.mem_cons.mp mem with rfl | later
    · exact ⟨_, first⟩
    · exact ih later

omit [DecidableEq ι] in
theorem Tells.writes (tells : s.Tells item o)
    (key : content? item.key = some (Bytes.ofString (s.key i))) :
    ∃ a, (s.type i).Writes item.value a := by
  cases tells with
  | @member j a key' writes =>
    rw [key] at key'
    obtain rfl := s.key_injective _ _ (Bytes.ofString_injective (Option.some.inj key'))
    exact ⟨a, writes⟩
  | @other name named unknown =>
    rw [key] at named
    exact absurd (Bytes.ofString_injective (Option.some.inj named)).symm (unknown i)

theorem read_documented (s : Schema ι) : s.Documented s.read where
  missing spaces spaces' object :=
    (read_object spaces spaces' object).mpr ⟨[], .nil, List.nodup_nil, rfl⟩
  unknown spaces spaces' object rest tells read := by
    obtain ⟨told, tell, distinct, rfl⟩ := (read_object spaces spaces' rest).mp read
    exact (read_object spaces spaces' object).mpr ⟨_, .cons tells tell, distinct, rfl⟩
  known spaces spaces' object rest tells once read := by
    obtain ⟨told, tell, distinct, rfl⟩ := (read_object spaces spaces' rest).mp read
    rw [tell.occurrences_eq, List.count_eq_zero] at once
    exact (read_object spaces spaces' object).mpr
      ⟨_, .cons tells tell, List.nodup_cons.mpr ⟨once, distinct⟩, assign_fill once⟩
  repeated {_ _ _ _ i} spaces spaces' object twice r read := by
    obtain ⟨told, tell, distinct, -⟩ := (read_object spaces spaces' object).mp read
    have once := List.nodup_iff_count_le_one.mp distinct i
    rw [tell.occurrences_eq] at twice
    omega
  mistyped spaces spaces' object mem wrong r read := by
    obtain ⟨told, tell, -⟩ := (read_object spaces spaces' object).mp read
    obtain ⟨o, tells⟩ := tell.tells mem
    exact wrong o tells
  list spaces spaces' list listed := by
    rw [read_eq_ok_iff, run_readValue_list spaces]
    exact ⟨_, run_readElements_opened list listed, spaces'⟩

theorem rest_of_opened (object : WellFormed (.opened .object (item :: items)) v) :
    ∃ w, WellFormed (.opened .object items) w := by
  cases object with
  | first heads value rest =>
    cases rest with
    | last spaces => exact ⟨_, .empty spaces⟩
    | next spaces heads value rest => exact ⟨_, .first heads value rest⟩

/-- An object is read member by member, in any order of the members and with any others among them. -/
theorem Documented.object {ε : Type} {reader : Bytes → Except ε s.Record}
    (documented : s.Documented reader) (spaces : IsSpace lead) (spaces' : IsSpace trail)
    (object : WellFormed (.opened .object items) v) (tell : s.TellAll items told)
    (distinct : (told.map Sigma.fst).Nodup) :
    reader (lead ++ 0x7B :: (v ++ trail)) = .ok (fill s.default told) := by
  induction tell generalizing v with
  | nil => exact documented.missing spaces spaces' object
  | @cons item items o told tells tell ih =>
    obtain ⟨w, rest⟩ := rest_of_opened object
    cases o with
    | none => exact documented.unknown spaces spaces' object rest tells (ih rest distinct)
    | some e =>
      obtain ⟨once, distinct⟩ := List.nodup_cons.mp distinct
      -- A key counts as known here only if it does not come again.
      have none_later : s.occurrences e.1 items = 0 := by
        rw [tell.occurrences_eq, List.count_eq_zero]
        exact once
      rw [documented.known spaces spaces' object rest tells none_later (ih rest distinct)]
      exact congrArg _ (assign_fill once)

end Schema

end Impersonation.Json
