import Impersonation.Proofs.Confined
import Impersonation.Proofs.Daemon
import Impersonation.Proofs.FailClosed
import Impersonation.Proofs.Service

namespace Impersonation

open Program

theorem Program.Runs.upTo {σ α : Type} {m : Machine σ} {x : Program α} {s t : σ}
    {calls front back : List (Moment σ)} {e : Moment σ} {o : Outcome α} (h : x.Runs m s calls o t)
    {I : σ → Prop} (split : calls = front ++ e :: back)
    (step : ∀ e ∈ front, I e.state → I (m e.call e.state).2) (start : I s) : I e.state := by
  induction x generalizing s calls front with
  | done a =>
    obtain ⟨rfl, -, -⟩ := runs_done.mp h
    simp at split
  | crash r =>
    obtain ⟨rfl, -, -⟩ := runs_crash.mp h
    simp at split
  | call c k ih =>
    obtain ⟨rest, rfl, next⟩ := runs_call.mp h
    cases front with
    | nil =>
      obtain ⟨rfl, -⟩ := List.cons.inj split
      exact start
    | cons e' front =>
      obtain ⟨rfl, later⟩ := List.cons.inj split
      exact ih _ next later (fun e he => step e (List.mem_cons_of_mem _ he))
        (step _ List.mem_cons_self start)

theorem Station.storage_planned {c : Call} (hc : c.isStorage = false) (s : Station × Plan) :
    (answer.planned c s).2.1.site.storage = s.1.site.storage := by
  rcases planned_cases answer c s with ⟨_, _, _, _, same⟩ | ⟨_, same⟩
  · rw [same]
  · rw [same, storage_of_not_isStorage hc]

theorem Station.perform_mount {s : Station} {m : Mount} {fs : Filesystem}
    (h : s.site.storage = .mount m fs) (r : Request) :
    answer (.perform r) s =
      (.finished (m.perform fs s.site.umask s.hostIds r).1,
        s.withStorage (.mount m (m.perform fs s.site.umask s.hostIds r).2) s.site.visits) := by
  simp only [answer, perform, h]

/-- Whatever a call does, the storage is the mount still, with all that is outside of its root. -/
theorem Station.storage_below {s : Station} {m : Mount} {fs : Filesystem}
    (h : s.site.storage = .mount m fs) (c : Call) :
    ∃ next, (answer c s).2.site.storage = .mount m next ∧ fs.SameOutside m.top next := by
  by_cases hc : c.isStorage
  · cases c with
    | perform r =>
      rw [perform_mount h]
      exact ⟨_, rfl, Mount.perform_below r⟩
    | probe q =>
      simp only [answer, probe, h]
      exact ⟨fs, rfl, .refl _ _⟩
    | setOwner q uid gid =>
      simp only [answer, setOwner, h]
      split
      next next changed => exact ⟨next, rfl, Mount.chown_below changed⟩
      next => exact ⟨fs, h, .refl _ _⟩
    | _ => cases hc
  · rw [storage_of_not_isStorage (by simpa using hc)]
    exact ⟨fs, h, .refl _ _⟩

/-- A request is not tried, or a first attempt is made; unless that is denied, it is the only call to
the storage and decides what the request comes to. -/
theorem Gateway.handle_first {σ : Type} {m : Machine σ} {v : View σ} (hm : Honest m v) {g : Gateway}
    {envelope : Option Envelope} {r : Request} {s t : σ} {calls : List (Moment σ)}
    {o : Outcome Response} (h : (g.handle envelope r).Runs m s calls o t) :
    (∀ e ∈ calls, e.call.isStorage = false) ∨
    ∃ front s₁ back, calls = front ++ ⟨.perform (g.adjust r), s₁⟩ :: back ∧
      (∀ e ∈ front, e.call.isStorage = false) ∧
      ((m (.perform (g.adjust r)) s₁).1 = .finished .denied ∨
        (∀ e ∈ back, e.call.isStorage = false) ∧ o = (m (.perform (g.adjust r)) s₁).1) := by
  cases envelope with
  | none =>
    cases handleInternal_run h with
    | plain own => exact .inr ⟨[], s, [], rfl, by simp, .inr ⟨by simp, rfl⟩⟩
    | @override uid back root switched after =>
      refine .inr ⟨[⟨.setFsuid 0, s⟩], _, back, rfl, by simp [Call.isStorage], .inr ⟨?_, rfl⟩⟩
      exact fun e he => Call.not_isStorage_of_isStanding (after e he)
    | refused root failed => exact .inl (by simp [Call.isStorage])
  | some e =>
    unfold handle at h
    split at h
    next => simp at *
    next e' envelope =>
      obtain rfl := Option.some.inj envelope
      split at h
      next refusal _ =>
        obtain ⟨rfl, -, -⟩ := runs_done.mp h
        exact .inl (by simp)
      next =>
        rcases handleAnonymous_run hm h with ⟨-, -, idle⟩ |
          ⟨-, front, s₁, back, rfl, before, after, -, rfl⟩
        · exact .inl fun e he => (idle e he).1
        · exact .inr ⟨front, s₁, back, rfl, before, .inr ⟨after, rfl⟩⟩
      next user _ =>
        rcases handleUser_run hm h with ⟨-, idle⟩ | ⟨i, tried⟩
        · exact .inl fun e he => (idle e he).1
        · obtain @⟨c₀, c₁, c₂, _, _, _, _, quiet, -, -, scope, last⟩ := tried
          obtain @⟨opened, front, mid, back, s₁, _, _, _, entering, run, leaving⟩ := scope
          obtain ⟨rfl, rfl, -⟩ := runs_perform.mp run
          refine .inr ⟨c₀ ++ front, s₁, back ++ c₂, by simp, fun e he => ?_, ?_⟩
          · rcases List.mem_append.mp he with he | he
            · exact Call.not_isStorage_of_isQuiet (quiet e he)
            · exact entering.only (IdentityScope.enter_only i) e he
          · rcases last with ⟨rfl, rfl, -⟩ | ⟨denied, -⟩
            · rw [List.append_nil]
              exact .inr ⟨leaving.only (IdentityScope.leave_only opened), rfl⟩
            · exact .inl denied

theorem Gateway.adjust_paths (g : Gateway) (r : Request) : (g.adjust r).paths = r.paths := by
  cases r <;> rfl

theorem Station.planned_refused {m : Mount} {fs : Filesystem} {r : Request} {q : Path}
    (mem : q ∈ r.paths) (up : Path.dotDot ∈ q.segments) {s : Station × Plan}
    (h : s.1.site.storage = .mount m fs) :
    (answer.planned (.perform r) s).1 = .finished (.error .invalidArgument) ∧
      (answer.planned (.perform r) s).2.1.site.storage = .mount m fs := by
  rw [planned_of_failure?_eq_none _ rfl, perform_mount h, Mount.perform_refused mem up]
  exact ⟨rfl, rfl⟩

namespace Process

variable {p : Process} {m : Mount} {fs : Filesystem} {g : Gateway} {errand : Errand}

/-- A request with a path that goes up is tried at most once, and the storage stays as it is. -/
theorem serve_refused (storage : p.site.storage = .mount m fs) {q : Path}
    (mem : q ∈ errand.request.paths) (up : Path.dotDot ∈ q.segments) :
    let served := (p.serve g errand).1
    (p.serve g errand).2.site.storage = .mount m fs ∧
      (served.calls.filter (·.call.isStorage) = [] ∨
        ∃ s₁, served.calls.filter (·.call.isStorage) = [⟨.perform (g.adjust errand.request), s₁⟩] ∧
          served.outcome = .finished (.error .invalidArgument)) := by
  intro served
  have run := p.serve_runs g errand
  have start : (p.start errand).1.site.storage = .mount m fs := storage
  have goes_up : q ∈ (g.adjust errand.request).paths := by rwa [Gateway.adjust_paths]
  have still (e : Moment (Station × Plan))
      (idle : e.call.isStorage = false ∨ e.call = .perform (g.adjust errand.request))
      (h : e.state.1.site.storage = .mount m fs) :
      (Station.answer.planned e.call e.state).2.1.site.storage = .mount m fs := by
    rcases idle with idle | attempt
    · exact (Station.storage_planned idle e.state).trans h
    · rw [attempt]
      exact (Station.planned_refused goes_up up h).2
  have none_of {es : List (Moment (Station × Plan))} (idle : ∀ e ∈ es, e.call.isStorage = false) :
      es.filter (·.call.isStorage) = [] :=
    List.filter_eq_nil_iff.mpr fun e he => by simp [idle e he]
  rcases Gateway.handle_first Station.honest.planned run with
    idle | ⟨front, s₁, back, split, before, first⟩
  · exact ⟨(run.invariant (I := fun u => u.1.site.storage = .mount m fs)
      (fun e he => still e (.inl (idle e he))) start).1, .inl (none_of idle)⟩
  have here : s₁.1.site.storage = .mount m fs :=
    run.upTo (I := fun u => u.1.site.storage = .mount m fs) split
      (fun e he => still e (.inl (before e he))) start
  obtain ⟨reply, -⟩ := Station.planned_refused goes_up up here
  rcases first with denied | ⟨after, outcome⟩
  · rw [reply] at denied
    -- The refusal is no denial, so the request is not tried again.
    have other : Response.error .invalidArgument ≠ .denied := by decide
    exact absurd (Outcome.finished.inj denied) other
  · have one : ∀ e ∈ front ++ ⟨.perform (g.adjust errand.request), s₁⟩ :: back,
        e.call.isStorage = false ∨ e.call = .perform (g.adjust errand.request) := by
      intro e he
      rcases List.mem_append.mp he with he | he
      · exact .inl (before e he)
      · rcases List.mem_cons.mp he with rfl | he
        · exact .inr rfl
        · exact .inl (after e he)
    refine ⟨(run.invariant (I := fun u => u.1.site.storage = .mount m fs)
      (fun e he => still e (one e (split ▸ he))) start).1, .inr ⟨s₁, ?_, outcome.trans reply⟩⟩
    change List.filter _ (p.serve g errand).1.calls = _
    rw [split, List.filter_append, none_of before, List.filter_cons_of_pos rfl, none_of after]
    rfl

theorem serve_below (storage : p.site.storage = .mount m fs) (g : Gateway) (errand : Errand) :
    ∃ next, (p.serve g errand).2.site.storage = .mount m next ∧ fs.SameOutside m.top next := by
  have start : (p.start errand).1.site.storage = .mount m fs := storage
  refine ((p.serve_runs g errand).invariant (I := fun u => ∃ next,
    u.1.site.storage = .mount m next ∧ fs.SameOutside m.top next) ?_ ⟨fs, start, .refl _ _⟩).1
  rintro e - ⟨next, here, same⟩
  rcases planned_cases Station.answer e.call e.state with ⟨_, _, _, _, after⟩ | ⟨_, after⟩
  · rw [after]
    exact ⟨next, here, same⟩
  · rw [after]
    obtain ⟨next', here', same'⟩ := Station.storage_below here e.call
    exact ⟨next', here', same.trans same'⟩

/-- Serving requests leaves alone all that is outside of the root. -/
theorem serves_below (storage : p.site.storage = .mount m fs) (g : Gateway) (errands : List Errand) :
    ∃ next, (errands.foldl (fun p e => (p.serve g e).2) p).site.storage = .mount m next ∧
      fs.SameOutside m.top next := by
  induction errands generalizing p fs with
  | nil => exact ⟨fs, storage, .refl _ _⟩
  | cons errand rest ih =>
    obtain ⟨fs₁, after, same⟩ := serve_below storage g errand
    obtain ⟨next, later, same'⟩ := ih after
    exact ⟨next, later, same.trans same'⟩

end Process

namespace Mount

theorem names_eq_splitOn (p : Path) :
    names p = (p.bytes.splitOn slash).filter fun s => s ≠ [] ∧ s ≠ Path.dot := by
  rw [names, Path.segments, Path.segmentsOf_eq_splitOn, List.filter_filter]
  refine List.filter_congr fun s _ => ?_
  simp [and_comm]

/-- A mount keeps requests below its root. A path that goes up is refused, and any other comes to the
components of the root with its own names behind them; this is the place where it is looked at and
where its owner is set. A request that has a path that goes up fails, changes nothing and is not tried
again. One that has none is what the file system does at the places of its paths, or fails without a
look at anything if the system does not take one of them. However many requests are served, nothing
outside of the root is changed. -/
theorem confined (m : Mount) :
    (∀ p : Path,
      (m.resolve p = .error (.os .invalidArgument) ↔ Path.dotDot ∈ p.bytes.splitOn slash) ∧
      (Path.dotDot ∉ p.bytes.splitOn slash → ∃ host, m.resolve p = .ok host ∧
        host.components = m.root.components ++
          ((p.bytes.splitOn slash).filter fun s => s ≠ [] ∧ s ≠ Path.dot).map .name ∧
        names host = m.below p) ∧
      (m.Fits p → ∀ (fs : Filesystem) who,
        m.stat fs who p = fs.stat who (m.below p) ∧
        ∀ uid gid, m.chown fs who p uid gid = fs.chown who (m.below p)
          (uid.filter (· ≠ 4294967295)) (gid.filter (· ≠ 4294967295)))) ∧
    (∀ r : Request,
      ((∃ p ∈ r.paths, Path.dotDot ∈ p.bytes.splitOn slash) →
        (∀ fs umask who, m.perform fs umask who r = (.error .invalidArgument, fs)) ∧
        ∀ (p : Process) (g : Gateway) (errand : Errand) (fs : Filesystem),
          p.site.storage = .mount m fs → errand.request = r →
          (p.serve g errand).2.site.storage = .mount m fs ∧
          (((p.serve g errand).1.calls.filter (·.call.isStorage)) = [] ∨
            ∃ s, ((p.serve g errand).1.calls.filter (·.call.isStorage)) =
                [⟨.perform (g.adjust r), s⟩] ∧
              (p.serve g errand).1.outcome = .finished (.error .invalidArgument))) ∧
      ((∀ p ∈ r.paths, Path.dotDot ∉ p.bytes.splitOn slash) →
        (∀ p ∈ r.paths, ∃ host names, m.resolve p = .ok host ∧
          host.components = m.root.components ++ List.map .name names) ∧
        ∀ (fs : Filesystem) umask who,
          ((∀ p ∈ r.paths, m.Fits p) →
            m.perform fs umask who r = fs.perform umask who m.below r) ∧
          ((∃ p ∈ r.paths, ¬ m.Fits p) →
            ∃ f ∈ [nulFault, .os .nameTooLong], m.perform fs umask who r = (.ofFault f, fs)) ∧
          fs.SameOutside m.top (m.perform fs umask who r).2)) ∧
    ∀ (p : Process) (g : Gateway) (errands : List Errand) (fs : Filesystem),
      p.site.storage = .mount m fs →
      ∃ next, (errands.foldl (fun p e => (p.serve g e).2) p).site.storage = .mount m next ∧
        fs.SameOutside m.top next := by
  have resolved {p : Path} (stays : Path.dotDot ∉ p.bytes.splitOn slash) :
      ∃ host, m.resolve p = .ok host ∧
        host.components = m.root.components ++ (names p).map .name := by
    obtain ⟨host, eq, -⟩ := m.resolve_eq_ok fun up => stays (Path.dotDot_mem_segments.mp up)
    exact ⟨host, eq, m.resolve_components eq⟩
  refine ⟨fun p => ⟨?_, fun stays => ?_, fun fits fs who => ?_⟩,
    fun r => ⟨?_, fun stay => ⟨fun p mem => ?_, fun fs umask who => ⟨?_, ?_, ?_⟩⟩⟩, ?_⟩
  · rw [m.resolve_eq_error, Path.dotDot_mem_segments]
  · rw [← names_eq_splitOn]
    obtain ⟨host, eq, components⟩ := resolved stays
    exact ⟨host, eq, components, names_resolve eq⟩
  · exact ⟨stat_fits fits, chown_fits fits⟩
  · rintro ⟨q, mem, up⟩
    rw [← Path.dotDot_mem_segments] at up
    refine ⟨fun fs umask who => perform_refused mem up, ?_⟩
    rintro p g errand fs storage rfl
    exact Process.serve_refused storage mem up
  · obtain ⟨host, eq, components⟩ := resolved (stay p mem)
    exact ⟨host, _, eq, components⟩
  · exact perform_fits
  · rintro ⟨q, mem, unfit⟩
    refine perform_unfit (fun p mem up => stay p mem (Path.dotDot_mem_segments.mp up)) ?_
    exact fun fits => unfit (fits q mem)
  · exact perform_below r
  · exact fun p g errands fs storage => Process.serves_below storage g errands

/-- Below `/srv`, a directory `/a/./b` is made at `/srv/a/b`, and one at `/a/../b` is refused. -/
theorem confined_srv :
    let m : Mount := ⟨.ofString "/srv"⟩
    let stays := Path.ofString "/a/./b"
    let up := Path.ofString "/a/../b"
    let place := [Bytes.ofString "srv", Bytes.ofString "a", Bytes.ofString "b"]
    (∀ fs umask who, m.perform fs umask who (.mkdir up 0o755) = (.error .invalidArgument, fs)) ∧
    (∀ fs umask who, m.perform fs umask who (.mkdir stays 0o755) =
      answered fs (fs.make who place Mode.directory (0o755 &&& Mode.forMkdir &&& ~~~umask))) ∧
    ∀ fs umask who, m.perform fs umask who (.readDir stays) =
      (.ofResult ((fs.readDir who place).map .entries), fs) := by
  intro m stays up place
  obtain ⟨-, requests, -⟩ := m.confined
  have goes_up : Path.dotDot ∈ up.bytes.splitOn slash := by decide +kernel
  have not_up : Path.dotDot ∉ stays.bytes.splitOn slash := by decide +kernel
  have resolved : m.resolve stays = .ok (.ofString "/srv/a/b") := by decide +kernel
  have fits : m.Fits stays := ⟨_, resolved, by decide +kernel, by decide +kernel⟩
  have here : m.below stays = place := by decide +kernel
  obtain ⟨refused, -⟩ := requests (.mkdir up 0o755)
  obtain ⟨-, made⟩ := requests (.mkdir stays 0o755)
  obtain ⟨-, listed⟩ := requests (.readDir stays)
  have only {r : Request} {P : Path → Prop} (one : r.paths = [stays]) (h : P stays) :
      ∀ p ∈ r.paths, P p := by
    rw [one]
    exact List.forall_mem_singleton.mpr h
  refine ⟨(refused ⟨up, List.mem_cons_self, goes_up⟩).1, fun fs umask who => ?_,
    fun fs umask who => ?_⟩
  · obtain ⟨-, operations⟩ := made (only rfl not_up)
    rw [(operations fs umask who).1 (only rfl fits), Filesystem.perform, here]
  · obtain ⟨-, operations⟩ := listed (only rfl not_up)
    rw [(operations fs umask who).1 (only rfl fits), Filesystem.perform, here]

end Mount

end Impersonation
