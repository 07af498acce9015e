import Impersonation.Capability

namespace Impersonation

/-- A call and the state it was made in. -/
structure Moment (σ : Type) where
  call : Call
  state : σ

namespace Call

def isStorage : Call → Bool
  | perform _ | probe _ | setOwner .. => true
  | _ => false

def isSwitch : Call → Bool
  | setFsuid _ | setFsgid _ | setGroups _ => true
  | _ => false

def isNeutral : Call → Bool
  | setFsuid _ | setFsgid _ | setGroups _ | setActive _ | poison => false
  | _ => true

end Call

namespace Program

variable {σ α β ε : Type} {m : Machine σ}

/-- The calls of a program that is run to its end, the first one first. -/
def trace (m : Machine σ) : Program α → σ → List (Moment σ)
  | done _, _ => []
  | crash _, _ => []
  | call c k, s => ⟨c, s⟩ :: (k (m c s).1).trace m (m c s).2

/-- Run from `s`, the program makes the given calls and comes to an outcome in the state `t`. -/
structure Runs (m : Machine σ) (x : Program α) (s : σ) (calls : List (Moment σ)) (o : Outcome α)
    (t : σ) : Prop where
  calls_eq : x.trace m s = calls
  run_eq : x.run m s = (o, t)

theorem runs_self (m : Machine σ) (x : Program α) (s : σ) :
    x.Runs m s (x.trace m s) (x.run m s).1 (x.run m s).2 :=
  ⟨rfl, rfl⟩

theorem trace_bind (m : Machine σ) (x : Program α) (f : α → Program β) (s : σ) :
    (x >>= f).trace m s = x.trace m s ++
      match x.run m s with
      | (.finished a, t) => (f a).trace m t
      | (.crashed _, _) => [] := by
  induction x generalizing s with
  | done a => rfl
  | crash r => rfl
  | call c k ih => exact congrArg (⟨c, s⟩ :: ·) (ih (m c s).1 (m c s).2)

theorem trace_closing (m : Machine σ) (x : Program α) (last : Program Unit) (s : σ) :
    (x.closing last).trace m s = x.trace m s ++ last.trace m (x.run m s).2 := by
  induction x generalizing s with
  | done a =>
    refine (trace_bind m last (fun _ => done a) s).trans ?_
    rcases h : last.run m s with ⟨_ | _, _⟩ <;> simp [trace, run]
  | crash r =>
    refine (trace_bind m last (fun _ => crash r) s).trans ?_
    rcases h : last.run m s with ⟨_ | _, _⟩ <;> simp [trace, run]
  | call c k ih => exact congrArg (⟨c, s⟩ :: ·) (ih (m c s).1 (m c s).2)

@[simp] theorem runs_done {a : α} {s t : σ} {calls : List (Moment σ)} {o : Outcome α} :
    (done a).Runs m s calls o t ↔ calls = [] ∧ o = .finished a ∧ t = s := by
  constructor
  · rintro ⟨rfl, h⟩
    obtain ⟨rfl, rfl⟩ := Prod.mk.inj h
    exact ⟨rfl, rfl, rfl⟩
  · rintro ⟨rfl, rfl, rfl⟩
    exact ⟨rfl, rfl⟩

@[simp] theorem runs_pure {a : α} {s t : σ} {calls : List (Moment σ)} {o : Outcome α} :
    (pure a : Program α).Runs m s calls o t ↔ calls = [] ∧ o = .finished a ∧ t = s :=
  runs_done

@[simp] theorem runs_crash {r : String} {s t : σ} {calls : List (Moment σ)} {o : Outcome α} :
    (crash r : Program α).Runs m s calls o t ↔ calls = [] ∧ o = .crashed r ∧ t = s := by
  constructor
  · rintro ⟨rfl, h⟩
    obtain ⟨rfl, rfl⟩ := Prod.mk.inj h
    exact ⟨rfl, rfl, rfl⟩
  · rintro ⟨rfl, rfl, rfl⟩
    exact ⟨rfl, rfl⟩

/-- The first call of a run, and what is left of it. -/
theorem runs_call {c : Call} {k : c.Reply → Program α} {s t : σ} {calls : List (Moment σ)}
    {o : Outcome α} :
    (call c k).Runs m s calls o t ↔
      ∃ rest, calls = ⟨c, s⟩ :: rest ∧ (k (m c s).1).Runs m (m c s).2 rest o t := by
  constructor
  · rintro ⟨rfl, h⟩
    exact ⟨_, rfl, rfl, h⟩
  · rintro ⟨rest, rfl, h⟩
    exact ⟨congrArg (List.cons (Moment.mk c s)) h.calls_eq, h.run_eq⟩

@[simp] theorem runs_ask {c : Call} {s t : σ} {calls : List (Moment σ)} {o : Outcome c.Reply} :
    (ask c).Runs m s calls o t ↔
      calls = [⟨c, s⟩] ∧ o = .finished (m c s).1 ∧ t = (m c s).2 := by
  constructor
  · rintro ⟨rfl, h⟩
    obtain ⟨rfl, rfl⟩ := Prod.mk.inj h
    exact ⟨rfl, rfl, rfl⟩
  · rintro ⟨rfl, rfl, rfl⟩
    exact ⟨rfl, rfl⟩

/-- A run of one program after another is cut where the second one starts. -/
theorem runs_bind {x : Program α} {f : α → Program β} {s t : σ} {calls : List (Moment σ)}
    {o : Outcome β} :
    (x >>= f).Runs m s calls o t ↔
      (∃ a s₁ front back, x.Runs m s front (.finished a) s₁ ∧ (f a).Runs m s₁ back o t ∧
        calls = front ++ back) ∨
      (∃ r, x.Runs m s calls (.crashed r) t ∧ o = .crashed r) := by
  constructor
  · rintro ⟨rfl, h⟩
    rw [run_bind] at h
    rw [trace_bind]
    rcases hx : x.run m s with ⟨a | r, s₁⟩
    · rw [hx] at h
      exact .inl ⟨a, s₁, _, _, ⟨rfl, hx⟩, ⟨rfl, h⟩, rfl⟩
    · rw [hx] at h
      obtain ⟨rfl, rfl⟩ := Prod.mk.inj h
      exact .inr ⟨r, ⟨(List.append_nil _).symm, hx⟩, rfl⟩
  · rintro (⟨a, s₁, front, back, hx, hf, rfl⟩ | ⟨r, hx, rfl⟩)
    · constructor
      · rw [trace_bind, hx.run_eq, hx.calls_eq]
        exact congrArg (front ++ ·) hf.calls_eq
      · rw [run_bind, hx.run_eq]
        exact hf.run_eq
    · exact ⟨by rw [trace_bind, hx.run_eq, hx.calls_eq, List.append_nil],
        by rw [run_bind, hx.run_eq]⟩

theorem runs_settle {c : Call} {k : c.Reply → Outcome α} {s t : σ} {calls : List (Moment σ)}
    {o : Outcome α} :
    (ask c >>= fun reply => settle (k reply)).Runs m s calls o t ↔
      calls = [⟨c, s⟩] ∧ o = k (m c s).1 ∧ t = (m c s).2 := by
  have settled (x : Outcome α) (s t : σ) (calls : List (Moment σ)) :
      (settle x).Runs m s calls o t ↔ calls = [] ∧ o = x ∧ t = s := by
    cases x with
    | finished a => exact runs_done
    | crashed r => exact runs_crash
  constructor
  · intro h
    obtain ⟨rest, rfl, h₁⟩ := runs_call.mp h
    obtain ⟨rfl, rfl, rfl⟩ := (settled _ _ _ _).mp h₁
    exact ⟨rfl, rfl, rfl⟩
  · rintro ⟨rfl, rfl, rfl⟩
    exact runs_call.mpr ⟨[], rfl, (settled _ _ _ _).mpr ⟨rfl, rfl, rfl⟩⟩

theorem runs_perform {r : Request} {s t : σ} {calls : List (Moment σ)} {o : Outcome Response} :
    (perform r).Runs m s calls o t ↔
      calls = [⟨.perform r, s⟩] ∧ o = (m (.perform r) s).1 ∧ t = (m (.perform r) s).2 :=
  runs_settle (c := .perform r) (k := id)

theorem runs_probe {p : Path} {s t : σ} {calls : List (Moment σ)}
    {o : Outcome (Except Fault FileStat)} :
    (probe p).Runs m s calls o t ↔
      calls = [⟨.probe p, s⟩] ∧ o = (m (.probe p) s).1 ∧ t = (m (.probe p) s).2 :=
  runs_settle (c := .probe p) (k := id)

theorem runs_setOwner {p : Path} {uid gid : Option UInt32} {s t : σ} {calls : List (Moment σ)}
    {o : Outcome (Except Fault Unit)} :
    (setOwner p uid gid).Runs m s calls o t ↔
      calls = [⟨.setOwner p uid gid, s⟩] ∧ o = (m (.setOwner p uid gid) s).1 ∧
        t = (m (.setOwner p uid gid) s).2 :=
  runs_settle (c := .setOwner p uid gid) (k := id)

/-- What is attached by `closing` runs after the program, whatever that came to. -/
theorem runs_closing {x : Program α} {last : Program Unit} {s t : σ} {calls : List (Moment σ)}
    {o : Outcome α} :
    (x.closing last).Runs m s calls o t ↔
      ∃ inner s₁ front back, x.Runs m s front inner s₁ ∧ calls = front ++ back ∧
        ((last.Runs m s₁ back (.finished ()) t ∧ o = inner) ∨
          ∃ r, last.Runs m s₁ back (.crashed r) t ∧ o = .crashed r) := by
  constructor
  · rintro ⟨rfl, h⟩
    rw [run_closing] at h
    refine ⟨_, _, _, _, runs_self m x s, trace_closing m x last s, ?_⟩
    rcases hl : last.run m (x.run m s).2 with ⟨a | r, s₂⟩
    · rw [hl] at h
      obtain ⟨rfl, rfl⟩ := Prod.mk.inj h
      exact .inl ⟨⟨rfl, hl⟩, rfl⟩
    · rw [hl] at h
      obtain ⟨rfl, rfl⟩ := Prod.mk.inj h
      exact .inr ⟨r, ⟨rfl, hl⟩, rfl⟩
  · rintro ⟨inner, s₁, front, back, hx, rfl, ⟨hl, rfl⟩ | ⟨r, hl, rfl⟩⟩
    all_goals
      refine ⟨by rw [trace_closing, hx.run_eq, hx.calls_eq, hl.calls_eq], ?_⟩
      rw [run_closing, hx.run_eq, hl.run_eq]

/-- A run of one attempt after another: the second starts if the first ended in a value. -/
theorem runs_attempt {x : Attempt ε α} {f : α → Attempt ε β} {s t : σ} {calls : List (Moment σ)}
    {o : Outcome (Except ε β)} :
    ((x >>= f).run).Runs m s calls o t ↔
      (∃ a s₁ front back, x.run.Runs m s front (.finished (.ok a)) s₁ ∧
        (f a).run.Runs m s₁ back o t ∧ calls = front ++ back) ∨
      (∃ e, x.run.Runs m s calls (.finished (.error e)) t ∧ o = .finished (.error e)) ∨
      (∃ r, x.run.Runs m s calls (.crashed r) t ∧ o = .crashed r) := by
  rw [ExceptT.run_bind, runs_bind]
  constructor
  · rintro (⟨e | a, s₁, front, back, hx, hf, rfl⟩ | h)
    · obtain ⟨rfl, rfl, rfl⟩ := runs_pure.mp hf
      exact .inr (.inl ⟨e, by simpa using hx, rfl⟩)
    · exact .inl ⟨a, s₁, front, back, hx, hf, rfl⟩
    · exact .inr (.inr h)
  · rintro (⟨a, s₁, front, back, hx, hf, rfl⟩ | ⟨e, hx, rfl⟩ | h)
    · exact .inl ⟨.ok a, s₁, front, back, hx, hf, rfl⟩
    · exact .inl ⟨.error e, t, calls, [], hx, runs_pure.mpr ⟨rfl, rfl, rfl⟩,
        (List.append_nil _).symm⟩
    · exact .inr h

/-- A program that is run as an attempt ends in a value unless it crashes. -/
theorem runs_lift {x : Program α} {s t : σ} {calls : List (Moment σ)}
    {o : Outcome (Except ε α)} :
    ((liftM x : Attempt ε α).run).Runs m s calls o t ↔
      (∃ a, x.Runs m s calls (.finished a) t ∧ o = .finished (.ok a)) ∨
      (∃ r, x.Runs m s calls (.crashed r) t ∧ o = .crashed r) := by
  change (x >>= fun a => pure (Except.ok a)).Runs m s calls o t ↔ _
  rw [runs_bind]
  constructor
  · rintro (⟨a, s₁, front, back, hx, hf, rfl⟩ | h)
    · obtain ⟨rfl, rfl, rfl⟩ := runs_pure.mp hf
      exact .inl ⟨a, by simpa using hx, rfl⟩
    · exact .inr h
  · rintro (⟨a, hx, rfl⟩ | h)
    · exact .inl ⟨a, t, calls, [], hx, runs_pure.mpr ⟨rfl, rfl, rfl⟩, (List.append_nil _).symm⟩
    · exact .inr h

theorem run_lift_bind (x : Program α) (f : α → Attempt ε β) :
    (do let a ← (liftM x : Attempt ε α); f a : Attempt ε β).run = x >>= fun a => (f a).run :=
  ExceptT.run_bind_lift x f

theorem runs_lift_bind {x : Program α} {f : α → Attempt ε β} {s t : σ} {calls : List (Moment σ)}
    {o : Outcome (Except ε β)} :
    ((do let a ← (liftM x : Attempt ε α); f a : Attempt ε β).run).Runs m s calls o t ↔
      (∃ a s₁ front back, x.Runs m s front (.finished a) s₁ ∧ (f a).run.Runs m s₁ back o t ∧
        calls = front ++ back) ∨
      (∃ r, x.Runs m s calls (.crashed r) t ∧ o = .crashed r) := by
  rw [run_lift_bind, runs_bind]

theorem runs_ask_bind {c : Call} {f : c.Reply → Attempt ε β} {s t : σ} {calls : List (Moment σ)}
    {o : Outcome (Except ε β)} :
    ((do let reply ← (liftM (ask c) : Attempt ε c.Reply); f reply : Attempt ε β).run).Runs
        m s calls o t ↔
      ∃ rest, calls = ⟨c, s⟩ :: rest ∧ (f (m c s).1).run.Runs m (m c s).2 rest o t :=
  runs_call (k := fun reply => (f reply).run)

theorem runs_lift_throw {x : Program β} {e : ε} {s t : σ} {calls : List (Moment σ)}
    {o : Outcome (Except ε α)} :
    ((do let _ ← (liftM x : Attempt ε β); throw e : Attempt ε α).run).Runs m s calls o t ↔
      (∃ a, x.Runs m s calls (.finished a) t ∧ o = .finished (.error e)) ∨
      (∃ r, x.Runs m s calls (.crashed r) t ∧ o = .crashed r) := by
  rw [runs_lift_bind]
  constructor
  · rintro (⟨a, s₁, front, back, hx, hf, rfl⟩ | h)
    · obtain ⟨rfl, rfl, rfl⟩ := runs_done.mp hf
      exact .inl ⟨a, by simpa using hx, rfl⟩
    · exact .inr h
  · rintro (⟨a, hx, rfl⟩ | h)
    · exact .inl ⟨a, t, calls, [], hx, runs_done.mpr ⟨rfl, rfl, rfl⟩, (List.append_nil _).symm⟩
    · exact .inr h

end Program

end Impersonation
