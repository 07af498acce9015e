import Impersonation.Config.Reader
import Impersonation.Proofs.Records

namespace Impersonation

open Json

def Setting.field : Setting → Config.Field
  | minUid _ => .minUid
  | minGid _ => .minGid
  | umask _ => .umask
  | clusterManager _ => .clusterManager
  | groupRetry _ => .groupRetry

namespace Config

/-- The setting that a value of a field makes; null makes none of the umask. -/
def setting? : schema.Entry → Option Setting
  | ⟨.minUid, n⟩ => some (.minUid n)
  | ⟨.minGid, n⟩ => some (.minGid n)
  | ⟨.umask, o⟩ => Option.map Setting.umask o
  | ⟨.clusterManager, b⟩ => some (.clusterManager b)
  | ⟨.groupRetry, b⟩ => some (.groupRetry b)

variable {e : schema.Entry} {told told' : List schema.Entry} {items : List Item}
  {r : schema.Record} {c : Config}

theorem field_of_setting? {x : Setting} (h : setting? e = some x) : x.field = e.1 := by
  obtain ⟨f, a⟩ := e
  cases f with
  | umask =>
    obtain ⟨mask, -, rfl⟩ := Option.map_eq_some_iff.mp h
    rfl
  | _ => cases h; rfl

/-- To give a value to a field is to make its setting, if the umask was not set before. -/
theorem ofRecord_assign (unset : e.1 = .umask → r .umask = none) :
    ofRecord (assign r e) = (setting? e).toList.foldl set (ofRecord r) := by
  obtain ⟨f, a⟩ := e
  cases f with
  | umask =>
    cases a with
    | none =>
      have kept : none = r .umask := (unset rfl).symm
      exact congrArg (fun mask => { ofRecord r with umask := mask }) kept
    | some mask => rfl
  | _ => rfl

/-- Values of distinct fields make the same settings one by one. -/
theorem ofRecord_fill (distinct : (told.map Sigma.fst).Nodup)
    (unset : .umask ∈ told.map Sigma.fst → r .umask = none) :
    ofRecord (fill r told) = (told.filterMap setting?).foldl set (ofRecord r) := by
  induction told generalizing r with
  | nil => rfl
  | cons e told ih =>
    obtain ⟨once, rest⟩ := List.nodup_cons.mp distinct
    have unset_here : e.1 = .umask → r .umask = none := fun here =>
      unset (List.mem_cons.mpr (.inl here.symm))
    have unset_after : .umask ∈ told.map Sigma.fst → assign r e .umask = none := by
      intro later
      have other : e.1 ≠ .umask := fun here => once (here ▸ later)
      exact (assign_other other).trans (unset (List.mem_cons_of_mem _ later))
    rw [fill_cons, ih rest unset_after, ofRecord_assign unset_here]
    cases setting : setting? e with
    | none => rw [List.filterMap_cons_none setting]; rfl
    | some x => rw [List.filterMap_cons_some setting]; rfl

theorem ofRecord_told (distinct : (told.map Sigma.fst).Nodup) :
    ofRecord (fill schema.default told) = ofSettings (told.filterMap setting?) :=
  ofRecord_fill distinct fun _ => rfl

theorem set_comm {x y : Setting} (h : x.field = y.field → x = y) :
    (c.set x).set y = (c.set y).set x := by
  by_cases same : x.field = y.field
  · rw [h same]
  · cases x <;> cases y <;> first | rfl | exact absurd rfl same

/-- The order in which distinct fields are set does not matter. -/
theorem ofSettings_perm (distinct : (told.map Sigma.fst).Nodup) (perm : told'.Perm told) :
    ofSettings (told'.filterMap setting?) = ofSettings (told.filterMap setting?) := by
  refine ((perm.symm.filterMap setting?).foldl_eq' ?_ ({} : Config)).symm
  intro x hx y hy c
  refine set_comm fun same => ?_
  obtain ⟨e, mem, made⟩ := List.mem_filterMap.mp hx
  obtain ⟨e', mem', made'⟩ := List.mem_filterMap.mp hy
  have fields : e.1 = e'.1 := by rw [← field_of_setting? made, ← field_of_setting? made', same]
  obtain rfl := List.inj_on_of_nodup_map distinct mem mem' fields
  exact Option.some.inj (made.symm.trans made')

/-- A lowest id is written in plain digits. -/
theorem writes_lowest {f : Field} {v : Bytes} {a : (schema.type f).Carrier}
    (lowest : f = .minUid ∨ f = .minGid) (writes : (schema.type f).Writes v a) :
    ∃ space, IsSpace space ∧ ∃ n : UInt32, v = space ++ decimal n.toNat := by
  obtain ⟨space, spaces, text⟩ := writes
  rcases lowest with rfl | rfl <;> exact ⟨space, spaces, a, text⟩

variable {ε : Type} {reader : Bytes → Except ε schema.Record} {lead trail v : Bytes}

/-- The text of an object makes the settings it lists, in any order and among any other members; a
list of the first fields makes the same; and there are no settings where a known key is repeated
or a lowest id is no number of 32 bits. -/
theorem read_agrees (documented : schema.Documented reader) (spaces : IsSpace lead)
    (spaces' : IsSpace trail) (object : WellFormed (.opened .object items) v) :
    (∀ told, schema.TellAll items told → (told.map Sigma.fst).Nodup →
      readBy reader (lead ++ 0x7B :: (v ++ trail)) =
          .ok (ofSettings (told.filterMap setting?)) ∧
        ∀ told' items' v' lead' trail', told'.Perm told →
          schema.ListAll schema.members items' told' →
          WellFormed (.opened .list items') v' → IsSpace lead' → IsSpace trail' →
          readBy reader (lead' ++ 0x5B :: (v' ++ trail')) =
            readBy reader (lead ++ 0x7B :: (v ++ trail))) ∧
    ((∃ f, 2 ≤ schema.occurrences f items) ∨
      (∃ i ∈ items, ∃ f : Field, (f = .minUid ∨ f = .minGid) ∧
        content? i.key = some (Bytes.ofString f.key) ∧
        ∀ space, IsSpace space → ∀ n : UInt32, i.value ≠ space ++ decimal n.toNat) →
      ∀ c, readBy reader (lead ++ 0x7B :: (v ++ trail)) ≠ .ok c) := by
  constructor
  · intro told tell distinct
    have read := documented.object spaces spaces' object tell distinct
    have ok : readBy reader (lead ++ 0x7B :: (v ++ trail)) =
        .ok (ofSettings (told.filterMap setting?)) := by
      rw [readBy, read, Except.map, ofRecord_told distinct]
    refine ⟨ok, fun told' items' v' lead' trail' perm listed list spaces spaces' => ?_⟩
    have distinct' : (told'.map Sigma.fst).Nodup := (perm.map Sigma.fst).nodup_iff.mpr distinct
    rw [ok, readBy, documented.list spaces spaces' list listed, Except.map,
      ofRecord_told distinct', ofSettings_perm distinct perm]
  · rintro wrong c ok
    cases read : reader (lead ++ 0x7B :: (v ++ trail)) with
    | error e =>
      rw [readBy, read] at ok
      cases ok
    | ok r =>
    rcases wrong with ⟨f, twice⟩ | ⟨i, mem, f, lowest, key, no_word⟩
    · exact documented.repeated spaces spaces' object twice r read
    · refine documented.mistyped spaces spaces' object mem (fun o tells => ?_) r read
      obtain ⟨a, writes⟩ := tells.writes key
      obtain ⟨space, spaces, n, word⟩ := writes_lowest lowest writes
      exact no_word space spaces n word

def plainMember (key : String) (value : Bytes) : Item where
  key := (Bytes.ofString key).map .plain
  value := value

theorem content?_plain (bs : Bytes) : content? (bs.map .plain) = some bs := by
  induction bs with
  | nil => rfl
  | cons b bs ih => rw [List.map_cons, content?, ih, Option.map_some]

theorem heads_plainMember (key : String) (value : Bytes)
    (h : (Bytes.ofString key).all fun b => ¬b < 0x20 ∧ b ≠ 0x22 ∧ b ≠ 0x5C) :
    Heads .object (plainMember key value).key
      ([] ++ (quoted (plainMember key value).key ++ ([] ++ [0x3A]))) := by
  refine .key nofun nofun fun p mem => ?_
  obtain ⟨b, here, rfl⟩ := List.mem_map.mp mem
  simpa only [Piece.Valid, decide_eq_true_eq] using List.all_eq_true.mp h b here

/-- A member that is passed over with the list in it, a list of one element, and a repeated key. -/
theorem read_agrees_nested :
    read (Bytes.ofString "\x7b\"min_uid\": 7,\"x\":[null]\x7d") = .ok { minUid := 7 } ∧
      read (Bytes.ofString "[ 7]") =
        read (Bytes.ofString "\x7b\"min_uid\": 7,\"x\":[null]\x7d") ∧
      ∀ c, read (Bytes.ofString "\x7b\"min_uid\": 7,\"min_uid\": 7\x7d") ≠ .ok c := by
  have no_space : IsSpace [] := by decide
  have seven : WellFormed .value ([0x20] ++ (wordNumeral 7).bytes) :=
    .scalar (by decide) (.number (wordNumeral_valid 7))
  have nested : WellFormed .value ([] ++ 0x5B :: ([] ++ (([] ++ nullText) ++ ([] ++ [0x5D])))) :=
    .enclosed no_space (.first (i := ⟨[], [] ++ nullText⟩) .element (.scalar no_space .null)
      (.last no_space))
  let lowest := plainMember "min_uid" ([0x20] ++ (wordNumeral 7).bytes)
  let other := plainMember "x" ([] ++ 0x5B :: ([] ++ (([] ++ nullText) ++ ([] ++ [0x5D]))))
  have lowest_heads := heads_plainMember "min_uid" lowest.value (by decide)
  have other_heads := heads_plainMember "x" other.value (by decide)
  have object : WellFormed (.opened .object [lowest, other]) _ :=
    .first lowest_heads seven (.next no_space other_heads nested (.last no_space))
  have list : WellFormed (.opened .list [⟨[], lowest.value⟩]) _ :=
    .first .element seven (.last no_space)
  have twice : WellFormed (.opened .object [lowest, lowest]) _ :=
    .first lowest_heads seven (.next no_space lowest_heads seven (.last no_space))
  have writes : (schema.type .minUid).Writes lowest.value (7 : UInt32) :=
    ⟨[0x20], by decide, congrArg _ (wordNumeral_bytes 7)⟩
  have tell : schema.TellAll [lowest, other] [⟨.minUid, (7 : UInt32)⟩] :=
    .cons (.member (content?_plain _) writes)
      (.cons (.other (content?_plain _) (by intro f; cases f <;> decide)) .nil)
  have listed : schema.ListAll schema.members [⟨[], lowest.value⟩] [⟨.minUid, (7 : UInt32)⟩] :=
    ⟨by decide, .cons writes .nil⟩
  have documented := schema.read_documented
  have agree := (read_agrees documented no_space no_space object).1 _ tell (by decide)
  have same := agree.2 _ _ _ _ _ (.refl _) listed list no_space no_space
  have never := (read_agrees documented no_space no_space twice).2 (.inl ⟨.minUid, by decide⟩)
  exact ⟨agree.1, same, never⟩

end Config

end Impersonation
