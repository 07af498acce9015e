import Impersonation.Proofs.Amid

namespace Impersonation

open Program

def Program.outcome? {α : Type} : Program α → Option (Outcome α)
  | done a => some (.finished a)
  | crash reason => some (.crashed reason)
  | call _ _ => none

theorem Program.runs_of_outcome? {σ α : Type} (m : Machine σ) {x : Program α} {o : Outcome α}
    (h : x.outcome? = some o) (s : σ) : x.Runs m s [] o s := by
  cases x with
  | done a =>
    cases h
    exact runs_done.mpr ⟨rfl, rfl, rfl⟩
  | crash reason =>
    cases h
    exact runs_crash.mpr ⟨rfl, rfl, rfl⟩
  | call c k => cases h

/-- A request that is being served on a thread, with what is left of its program. -/
structure Task where
  thread : Nat
  plan : Plan
  rest : Program Response

structure Shift where
  process : Process
  tasks : List Task

namespace Shift

def ofErrands (g : Gateway) (p : Process) (errands : List Errand) : Shift :=
  ⟨p, errands.map fun e => ⟨e.thread, e.plan, g.handle e.envelope e.request⟩⟩

def stand (s : Shift) (task : Task) : Station × Plan :=
  (⟨s.process.threads task.thread, s.process.site⟩, task.plan)

def advance (s : Shift) (n : Nat) (task : Task) (after : Station × Plan) (rest : Program Response) :
    Shift where
  process :=
    ⟨fun i => if i = task.thread then after.1.thread else s.process.threads i, after.1.site⟩
  tasks := s.tasks.set n ⟨task.thread, after.2, rest⟩

/-- Lets a task make one call. A task that is finished does nothing. -/
def turn (s : Shift) (n : Nat) : Shift :=
  match s.tasks[n]? with
  | some task =>
    match task.rest with
    | .call c k =>
      let (reply, after) := Station.answer.planned c (s.stand task)
      s.advance n task after (k reply)
    | _ => s
  | none => s

def run (s : Shift) (schedule : List Nat) : Shift :=
  schedule.foldl turn s

def outcome? (s : Shift) (n : Nat) : Option (Outcome Response) :=
  s.tasks[n]?.bind (·.rest.outcome?)

/-- In its turns under a schedule no other task changes the storage. -/
def Undisturbed (n : Nat) : Shift → List Nat → Prop
  | _, [] => True
  | s, i :: rest =>
    (i ≠ n → (s.turn i).process.site.storage = s.process.site.storage) ∧
      (s.turn i).Undisturbed n rest

variable {s : Shift} {n : Nat} {task : Task} {o : Outcome Response}

theorem turn_cases (s : Shift) (n : Nat) :
    s.turn n = s ∨ ∃ task c k, s.tasks[n]? = some task ∧ task.rest = .call c k ∧
      s.turn n = s.advance n task (Station.answer.planned c (s.stand task)).2
        (k (Station.answer.planned c (s.stand task)).1) := by
  unfold turn
  split
  next task here =>
    split
    next c k next => exact .inr ⟨task, c, k, here, next, rfl⟩
    next => exact .inl rfl
  next => exact .inl rfl

theorem threads_advance (here : s.tasks[n]? = some task) (after : Station × Plan)
    (rest : Program Response) :
    (s.advance n task after rest).tasks.map (·.thread) = s.tasks.map (·.thread) := by
  obtain ⟨bound, rfl⟩ := List.getElem?_eq_some_iff.mp here
  have same : (s.tasks.map (·.thread)).set n s.tasks[n].thread = s.tasks.map (·.thread) := by
    rw [← List.getElem_map (f := fun task : Task => task.thread) (h := by simpa using bound)]
    exact List.set_getElem_self _
  rw [advance, List.map_set, same]

theorem threads_turn (s : Shift) (n : Nat) :
    (s.turn n).tasks.map (·.thread) = s.tasks.map (·.thread) := by
  rcases s.turn_cases n with same | ⟨task, c, k, here, -, next⟩
  · rw [same]
  · rw [next, threads_advance here]

theorem threads_run (s : Shift) (schedule : List Nat) :
    (s.run schedule).tasks.map (·.thread) = s.tasks.map (·.thread) := by
  induction schedule generalizing s with
  | nil => rfl
  | cons n rest ih => exact (ih (s.turn n)).trans (s.threads_turn n)

theorem length_run_ofErrands (g : Gateway) (p : Process) (errands : List Errand)
    (schedule : List Nat) :
    ((ofErrands g p errands).run schedule).tasks.length = errands.length := by
  have same := congrArg List.length ((ofErrands g p errands).threads_run schedule)
  simpa [ofErrands] using same

theorem tasks_advance_self (here : s.tasks[n]? = some task) (after : Station × Plan)
    (rest : Program Response) :
    (s.advance n task after rest).tasks[n]? = some ⟨task.thread, after.2, rest⟩ := by
  have bound := (List.getElem?_eq_some_iff.mp here).1
  exact List.getElem?_set_self bound

theorem tasks_advance_of_ne {i : Nat} (other : i ≠ n) (task : Task) (after : Station × Plan)
    (rest : Program Response) : (s.advance i task after rest).tasks[n]? = s.tasks[n]? :=
  List.getElem?_set_ne other

theorem stand_advance_self (task : Task) (after : Station × Plan) (rest : Program Response) :
    (s.advance n task after rest).stand ⟨task.thread, after.2, rest⟩ = after := by
  change ((⟨if task.thread = task.thread then after.1.thread else _, after.1.site⟩, after.2) :
    Station × Plan) = after
  rw [if_pos rfl]

theorem stand_advance_of_ne {other : Task} (apart : task.thread ≠ other.thread) (i : Nat)
    (after : Station × Plan) (rest : Program Response) :
    (s.advance i other after rest).stand task =
      (⟨s.process.threads task.thread, after.1.site⟩, task.plan) := by
  have kept : (s.advance i other after rest).process.threads task.thread =
      s.process.threads task.thread := if_neg apart
  rw [stand, kept]
  rfl

theorem thread_ne_of_ne {i : Nat} {other : Task} (distinct : (s.tasks.map (·.thread)).Nodup)
    (here : s.tasks[n]? = some task) (there : s.tasks[i]? = some other) (ne : i ≠ n) :
    task.thread ≠ other.thread := by
  intro same
  have at_n : (s.tasks.map (·.thread))[n]? = some task.thread := by simp [here]
  have at_i : (s.tasks.map (·.thread))[i]? = some task.thread := by simp [there, same]
  have bound : i < (s.tasks.map (·.thread)).length := (List.getElem?_eq_some_iff.mp at_i).1
  exact ne ((List.getElem?_inj bound distinct).mp (at_i.trans at_n.symm))

/-- A task that is finished has run its program among the others. Where those have left the storage
alone, they have done so in all that came between the task's calls. -/
theorem run_among (distinct : (s.tasks.map (·.thread)).Nodup) (here : s.tasks[n]? = some task)
    {schedule : List Nat} (undisturbed : s.Undisturbed n schedule)
    (finished : (s.run schedule).outcome? n = some o) :
    ∃ (first : Interference) (later : List Interference)
      (calls : List (Moment ((Station × Plan) × List Interference)))
      (last : (Station × Plan) × List Interference),
      first.Quiet ∧ (∀ f ∈ later, f.Quiet) ∧
      task.rest.Runs Station.amid (first.meddle (s.stand task), later) calls o last ∧
      last.1.1.site = (s.run schedule).process.site := by
  induction schedule generalizing s task with
  | nil =>
    have came : task.rest.outcome? = some o := by
      change s.tasks[n]?.bind (·.rest.outcome?) = some o at finished
      rwa [here] at finished
    exact ⟨.nothing, [], [], _, Interference.quiet_nothing, by simp, runs_of_outcome? _ came _, rfl⟩
  | cons i rest ih =>
    have step : s.run (i :: rest) = (s.turn i).run rest := rfl
    rw [step] at finished ⊢
    obtain ⟨spared, undisturbed⟩ := undisturbed
    have distinct' : ((s.turn i).tasks.map (·.thread)).Nodup := by rwa [threads_turn]
    rcases s.turn_cases i with same | ⟨other, c, k, there, next, after⟩
    · rw [same] at undisturbed finished ⊢
      exact ih distinct here undisturbed finished
    by_cases own : i = n
    · subst own
      obtain rfl : other = task := Option.some.inj (there.symm.trans here)
      have here' := tasks_advance_self here (Station.answer.planned c (s.stand other)).2
        (k (Station.answer.planned c (s.stand other)).1)
      rw [← after] at here'
      obtain ⟨first, later, calls, last, quiet, all, run, site⟩ :=
        ih distinct' here' undisturbed finished
      -- What the others do before the task's next call comes right after this one.
      rw [after, stand_advance_self] at run
      have whole : other.rest.Runs Station.amid (s.stand other, first :: later)
          (⟨c, (s.stand other, first :: later)⟩ :: calls) o last := by
        rw [next]
        exact runs_call.mpr ⟨calls, rfl, run⟩
      exact ⟨.nothing, first :: later, _, last, Interference.quiet_nothing,
        List.forall_mem_cons.mpr ⟨quiet, all⟩, whole, site⟩
    · have apart := thread_ne_of_ne distinct here there own
      have here' : (s.turn i).tasks[n]? = some task := by
        rw [after, tasks_advance_of_ne own]
        exact here
      obtain ⟨first, later, calls, last, quiet, all, run, site⟩ :=
        ih distinct' here' undisturbed finished
      obtain ⟨f, apply, still⟩ := Interference.exists_between
        (settled_planned c (s.stand other))
      have between : (f.andThen first).meddle (s.stand task) =
          first.meddle ((s.turn i).stand task) := by
        rw [after, stand_advance_of_ne apart]
        exact congrArg (fun site => ((⟨s.process.threads task.thread, first.apply site⟩, task.plan) :
          Station × Plan)) apply
      have quiet' : f.Quiet := by
        have same := spared own
        rw [after] at same
        exact still same
      rw [← between] at run
      exact ⟨f.andThen first, later, calls, last, quiet'.andThen quiet, all, run, site⟩

end Shift

end Impersonation
