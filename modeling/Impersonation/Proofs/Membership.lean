import Impersonation.Directory.Host

namespace Impersonation

namespace GroupList

@[simp] theorem length_resize (buffer : List UInt32) (length : Nat) :
    (resize buffer length).length = length := by
  simp only [resize, List.length_append, List.length_take, List.length_replicate]
  omega

/-- What is documented of a call for a list. With room for the whole list it writes the list to the
front of the buffer, and else it says that the list did not fit; either way it stores the length of the
list. The room it is given has to be there, and a call makes no buffer longer or shorter. -/
structure Reports (groups : List UInt32) (call : List UInt32 → Nat → GroupListCall) : Prop where
  length_buffer : ∀ {buffer room}, room ≤ buffer.length →
    (call buffer room).buffer.length = buffer.length
  count : ∀ {buffer room}, room ≤ buffer.length → (call buffer room).count = groups.length
  fitted_iff : ∀ {buffer room}, room ≤ buffer.length →
    ((call buffer room).fitted ↔ groups.length ≤ room)
  front : ∀ {buffer room}, room ≤ buffer.length → groups.length ≤ room →
    groups <+: (call buffer room).buffer

theorem fill_reports (groups : List UInt32) : Reports groups (fill groups) where
  length_buffer {buffer room} fits := by
    simp only [fill, List.length_append, List.length_take, List.length_drop]
    omega
  count _ := rfl
  fitted_iff _ := decide_eq_true_iff
  front {buffer room} _ short := by
    simp only [fill, List.take_of_length_le short]
    exact List.prefix_append ..

variable {groups : List UInt32} {call : List UInt32 → Nat → GroupListCall} {buffer : List UInt32}
  {room : Nat}

/-- Cut off at the length that is told, a buffer that had room for the list is the list. -/
theorem Reports.list?_eq (reports : Reports groups call) (there : room ≤ buffer.length) :
    (call buffer room).list? = if groups.length ≤ room then some groups else none := by
  have fitted := reports.fitted_iff there
  unfold GroupListCall.list?
  by_cases short : groups.length ≤ room
  · have whole := List.prefix_iff_eq_take.1 (reports.front there short)
    rw [if_pos (fitted.2 short), if_pos short, reports.count there, ← whole]
  · rw [if_neg (mt fitted.1 short), if_neg short]

/-- A list that does not fit at first is asked for again with as much room as it took then. -/
theorem fetch_eq {membership : Nat → List UInt32} {calls : Nat → List UInt32 → Nat → GroupListCall}
    (reports : ∀ n, Reports (membership n) (calls n)) :
    fetch calls =
      if (membership 0).length ≤ initialLength then (.ok (membership 0), 1)
      else if (membership 1).length ≤ (membership 0).length then (.ok (membership 1), 2)
      else (.error (.os .inputOutput), 2) := by
  have there : initialLength ≤ (List.replicate initialLength (0 : UInt32)).length :=
    Nat.le_of_eq List.length_replicate.symm
  have first := (reports 0).list?_eq there
  by_cases short : (membership 0).length ≤ initialLength
  · rw [if_pos short] at first ⊢
    simp only [fetch, first]
  · have count := (reports 0).count there
    have length := ((reports 0).length_buffer there).trans List.length_replicate
    -- The room that the second call is told of is what the first one asked for, and it is there.
    have second := (reports 1).list?_eq (Nat.le_of_eq (length_resize
      (calls 0 (List.replicate initialLength 0) initialLength).buffer (membership 0).length).symm)
    rw [if_neg short] at first ⊢
    simp only [fetch, first, length, count, Nat.lt_of_not_le short, if_true, second]
    by_cases fits : (membership 1).length ≤ (membership 0).length
    · simp only [if_pos fits]
    · simp only [if_neg fits]

end GroupList

namespace HostDatabase

theorem isPlain_iff {name : String} : isPlain name ↔ '\x00' ∉ name.toList := by
  simp [isPlain]

theorem groupsOf_plain (h : HostDatabase) {name : String} (plain : isPlain name) (primary : UInt32) :
    h.groupsOf name primary = .ok (ledBy primary (h.memberOf name)) := by
  have fetched : GroupList.fetch (fun _ => h.lister name primary) = _ :=
    GroupList.fetch_eq fun _ => GroupList.fill_reports (ledBy primary (h.memberOf name))
  rw [groupsOf, groupsBy, if_pos plain, fetched, if_pos (Nat.le_refl _)]
  split <;> rfl

theorem groupsOf_not_plain (h : HostDatabase) {name : String} (plain : ¬ isPlain name)
    (primary : UInt32) : h.groupsOf name primary = .error (.os .invalidArgument) := by
  rw [groupsOf, groupsBy, if_neg plain]

/-- The group list of a name, where `membership n` is the list at the time of call `n`. At most two
calls are made, and a list that is fetched is the whole list of the last of them. It is fetched unless
it no longer has room at the second call, which is an input/output error; for a name that cannot be
handed to the system no call is made. -/
theorem membership_fetched_whole {call : Nat → GroupLister} {name : String} {primary : UInt32}
    {membership : Nat → List UInt32}
    (reports : ∀ n, GroupList.Reports (membership n) (call n name primary)) :
    let fetched := groupsBy call name primary
    fetched.2 ≤ 2 ∧
    (∀ gids, fetched.1 = .ok gids → 0 < fetched.2 ∧ gids = membership (fetched.2 - 1)) ∧
    ('\x00' ∉ name.toList → (membership 1).length ≤ (membership 0).length →
      ∃ gids, fetched.1 = .ok gids) ∧
    ('\x00' ∉ name.toList → (membership 0).length ≤ GroupList.initialLength →
      fetched = (.ok (membership 0), 1)) ∧
    ('\x00' ∉ name.toList → GroupList.initialLength < (membership 0).length →
      (membership 0).length < (membership 1).length → fetched = (.error (.os .inputOutput), 2)) ∧
    ('\x00' ∈ name.toList → fetched = (.error (.os .invalidArgument), 0)) := by
  intro fetched
  by_cases plain : isPlain name
  · have noNul := isPlain_iff.1 plain
    have eq : fetched = _ := (if_pos plain).trans (GroupList.fetch_eq reports)
    by_cases short : (membership 0).length ≤ GroupList.initialLength
    · rw [if_pos short] at eq
      simp [eq, short, noNul, Nat.not_lt_of_le short]
    · by_cases fits : (membership 1).length ≤ (membership 0).length
      · rw [if_neg short, if_pos fits] at eq
        simp [eq, short, noNul, Nat.not_lt_of_le fits]
      · rw [if_neg short, if_neg fits] at eq
        simp [eq, short, noNul, fits]
  · have nul : '\x00' ∈ name.toList := Decidable.byContradiction (mt isPlain_iff.2 plain)
    have eq : fetched = _ := if_neg plain
    simp [eq, nul]

/-- A user leaves groups between the two calls: what is fetched are the groups that are left. -/
theorem membership_fetched_whole_shrunk :
    let membership : Nat → List UInt32 := fun n =>
      ledBy 900 (List.replicate (if n = 0 then 20 else 17) 800)
    let call : Nat → GroupLister := fun n _ _ => GroupList.fill (membership n)
    (∀ n, GroupList.Reports (membership n) (call n "alice" 900)) ∧
    (membership 1).length ≤ (membership 0).length ∧
    groupsBy call "alice" 900 = (.ok (900 :: List.replicate 17 800), 2) := by
  intro membership call
  have reports : ∀ n, GroupList.Reports (membership n) (call n "alice" 900) :=
    fun n => GroupList.fill_reports (membership n)
  have shrunk : (membership 1).length ≤ (membership 0).length := by decide
  have twice : (groupsBy call "alice" 900).2 = 2 := by decide +kernel
  obtain ⟨-, whole, fetched, -⟩ := membership_fetched_whole reports
  obtain ⟨gids, ok⟩ := fetched (by decide +kernel) shrunk
  obtain ⟨-, rfl⟩ := whole gids ok
  refine ⟨reports, shrunk, Prod.ext (ok.trans ?_) twice⟩
  rw [twice]
  rfl

end HostDatabase

end Impersonation
