import Impersonation.Proofs.Findings
import Impersonation.Proofs.OnMount

namespace Impersonation

open Program

namespace Path

theorem ancestors_segments {p : Path} (absolute : p.isAbsolute) :
    p.ancestors.map segments = p.segments.inits.reverse := by
  by_cases empty : p.segments = []
  · have alone : p.ancestors = [p] := ancestors_of_no_parent (parent?_eq_none.mpr (.inl empty))
    rw [alone, List.map_singleton, empty]
    rfl
  · exact (ancestors_absolute absolute empty).1

theorem mem_ancestors_segments {p : Path} (absolute : p.isAbsolute) {ss : List Bytes} :
    (∃ q ∈ p.ancestors, q.segments = ss) ↔ ss <+: p.segments := by
  rw [← List.mem_map, ancestors_segments absolute, List.mem_reverse, List.mem_inits]

theorem getLast?_ancestors {p : Path} (absolute : p.isAbsolute) :
    ∃ last, p.ancestors.getLast? = some last ∧ last.segments = [] := by
  have ends : (p.ancestors.map segments).getLast? = some [] := by
    rw [ancestors_segments absolute, List.getLast?_reverse]
    cases p.segments <;> rfl
  rw [List.getLast?_map, Option.map_eq_some_iff] at ends
  exact ends

theorem stays_of_mem_ancestors {p q : Path} (stays : dotDot ∉ p.segments) (h : q ∈ p.ancestors) :
    dotDot ∉ q.segments := by
  induction p using ancestors.induct with
  | case1 p ih =>
    rcases mem_ancestors.mp h with rfl | ⟨above, hp, h⟩
    · exact stays
    · obtain ⟨shorter, -, -⟩ := parent?_segments hp
      exact ih above hp (fun up => stays (shorter.subset up)) h

end Path

namespace Mount

variable (m : Mount)

/-- A step up a request path and the host paths of both its ends: the step drops the last segment,
and the host path drops the component that the segment stands for; `.` stands for none. -/
def StepUp (q above : Path) : Prop :=
  ∃ name host up, q.segments = above.segments ++ [name] ∧
    m.resolve q = .ok host ∧ m.resolve above = .ok up ∧
    if name = Path.dot then host.components = up.components
    else host.components = up.components ++ [.name name]

variable {m}

theorem stepUp_of_parent {q above : Path} (stays : Path.dotDot ∉ q.segments)
    (h : q.parent? = some above) : m.StepUp q above := by
  obtain ⟨⟨name, dropped⟩, -⟩ := Path.parent?_last h
  have stays_above : Path.dotDot ∉ above.segments := fun up => stays (by simp [dropped, up])
  obtain ⟨host, resolved, -⟩ := m.resolve_eq_ok stays
  obtain ⟨up, resolved_above, -⟩ := m.resolve_eq_ok stays_above
  have below := m.resolve_components resolved
  have upper := m.resolve_components resolved_above
  refine ⟨name, host, up, dropped, resolved, resolved_above, ?_⟩
  have names_eq : names q = names above ++ [name].filter (· ≠ Path.dot) := by
    rw [names, dropped, List.filter_append, names]
  split
  next here =>
    have none_added : [name].filter (· ≠ Path.dot) = [] := by simp [here]
    rw [below, upper, names_eq, none_added, List.append_nil]
  next named =>
    have one_added : [name].filter (· ≠ Path.dot) = [name] := by simp [named]
    rw [below, upper, names_eq, one_added, List.map_append, List.append_assoc]
    rfl

/-- The walk up a path that does not go up makes only such steps. -/
theorem ancestors_stepUp {p : Path} (stays : Path.dotDot ∉ p.segments) :
    p.ancestors.IsChain m.StepUp := by
  induction p using Path.ancestors.induct with
  | case1 p ih =>
    cases hp : p.parent? with
    | none =>
      rw [Path.ancestors_of_no_parent hp]
      exact List.IsChain.singleton _
    | some above =>
      have stays_above : Path.dotDot ∉ above.segments :=
        Path.stays_of_mem_ancestors stays (Path.mem_ancestors.mpr (.inr ⟨above, hp,
          Path.mem_ancestors.mpr (.inl rfl)⟩))
      have walk := ih above hp stays_above
      rw [Path.ancestors_of_parent hp]
      rw [Path.ancestors_eq_cons above] at walk ⊢
      exact List.isChain_cons_cons.mpr ⟨stepUp_of_parent stays hp, walk⟩

/-- The host paths of the walk are those between the root of the mount and the host path of the
target. -/
theorem mem_walk {p target : Path} (absolute : p.isAbsolute) (resolved : m.resolve p = .ok target)
    (cs : List Component) :
    (∃ q ∈ p.ancestors, ∃ host, m.resolve q = .ok host ∧ host.components = cs) ↔
      m.root.components <+: cs ∧ cs <+: target.components := by
  have stays : Path.dotDot ∉ p.segments := fun up => by
    rw [m.resolve_eq_error.mpr up] at resolved
    cases resolved
  have whole := m.resolve_components resolved
  constructor
  · rintro ⟨q, mem, host, at_q, rfl⟩
    have shorter : q.segments <+: p.segments := (Path.mem_ancestors_segments absolute).mp ⟨q, mem, rfl⟩
    have part := m.resolve_components at_q
    rw [part, whole]
    refine ⟨List.prefix_append _ _, (List.prefix_append_right_inj _).mpr ?_⟩
    exact (shorter.filter _).map _
  · rintro ⟨⟨rest, rfl⟩, within⟩
    rw [whole, List.prefix_append_right_inj] at within
    obtain ⟨ns, first, rfl⟩ := List.prefix_map_iff.mp within
    obtain ⟨ss, cut, rfl⟩ := List.prefix_filter_iff.mp first
    obtain ⟨q, mem, at_q⟩ := (Path.mem_ancestors_segments absolute).mpr cut
    obtain ⟨host, resolved_q, -⟩ := m.resolve_eq_ok (Path.stays_of_mem_ancestors stays mem)
    refine ⟨q, mem, host, resolved_q, ?_⟩
    rw [m.resolve_components resolved_q, names, at_q]

theorem walk_ends {p : Path} (absolute : p.isAbsolute) :
    ∃ last host, p.ancestors.getLast? = some last ∧ m.resolve last = .ok host ∧
      host.same m.root := by
  obtain ⟨last, ends, empty⟩ := Path.getLast?_ancestors absolute
  obtain ⟨host, resolved, -⟩ := m.resolve_eq_ok (p := last) (by simp [empty])
  refine ⟨last, host, ends, resolved, Path.same_iff.mpr ?_⟩
  rw [m.resolve_components resolved, names, empty]
  simp

theorem stat_refused {p : Path} (up : Path.dotDot ∈ p.segments) (fs : Filesystem) (who : Ids) :
    m.stat fs who p = .error (.os .invalidArgument) := by
  rw [stat, place_refused up]
  rfl

def isMissing (m : Mount) (fs : Filesystem) (who : Ids) (p : Path) : Bool :=
  match m.stat fs who p with
  | .ok _ => false
  | .error f => f.isNotFound

end Mount

theorem lookAll_still {σ : Type} {m : Machine σ} {s : σ} (still : ∀ p, (m (.probe p) s).2 = s)
    (ps : List Path) : lookAll m ps s = ps.map fun p => ⟨.probe p, s⟩ := by
  induction ps with
  | nil => rfl
  | cons p ps ih => rw [lookAll, still, ih, List.map_cons]

theorem Station.probe_mount {s : Station × Plan} {m : Mount} {fs : Filesystem}
    (storage : s.1.site.storage = .mount m fs) (p : Path) :
    answer.planned (.probe p) s = (.finished (m.stat fs s.1.hostIds p), s) := by
  rw [planned_of_failure?_eq_none _ rfl]
  simp only [answer, probe, storage]

namespace GroupSearch

variable {σ : Type} {m : Machine σ} {v : View σ} {user : String} {primary : UInt32} {p : Path}
  {s t : σ} {calls : List (Moment σ)} {o : Outcome (Except GroupSearchError GroupMatch)}

/-- What a search asks of the storage: the looks up to the first that does not miss. -/
theorem SearchRun.storage_calls (h : SearchRun m v user primary p s t calls o)
    (switched : (m (.setFsuid 0) s).1.isOk) :
    calls.filter (·.call.isStorage) = (looks m p s).take (missed m (looks m p s) + 1) := by
  cases h with
  | refused failed standing =>
    rw [failed] at switched
    cases switched
  | @searched back asked u w _ switched asRoot looked wentBack standing result =>
    have looking : ∀ e ∈ (looks m p s).take (missed m (looks m p s) + 1), e.call.isStorage := by
      intro e he
      have look : e.call ∈ (looks m p s).map (·.call) :=
        List.mem_map_of_mem (List.mem_of_mem_take he)
      rw [looks, lookAll_calls] at look
      obtain ⟨q, -, at_q⟩ := List.mem_map.mp look
      rw [← at_q]
      rfl
    have returning : back.filter (·.call.isStorage) = [] := by
      refine List.filter_eq_nil_iff.mpr fun e he => ?_
      rcases wentBack.calls e he with at_e | at_e <;> simp [at_e, Call.isStorage]
    have asking : asked.filter (·.call.isStorage) = [] := by
      rcases result.asked_iff with ⟨-, rfl⟩ | ⟨-, rfl⟩ <;> rfl
    rw [List.filter_cons_of_neg (by simp [Call.isStorage]), List.filter_append,
      List.filter_append, returning, asking, List.filter_eq_self.mpr looking, List.append_nil,
      List.append_nil]

theorem SearchRun.storage_calls_refused (h : SearchRun m v user primary p s t calls o)
    (refused : ¬ (m (.setFsuid 0) s).1.isOk) : calls.filter (·.call.isStorage) = [] := by
  rcases h.switched_or_refused with switched | ⟨f, -, -, rfl⟩
  · exact absurd switched refused
  · rfl

/-- The looks of a search at a mount: the walk up to the first node that is there, or that cannot be
looked at, all from the state after the switch. -/
theorem SearchRun.looks_mount {v : View (Station × Plan)} {s t : Station × Plan}
    {calls : List (Moment (Station × Plan))} {o : Outcome (Except GroupSearchError GroupMatch)}
    {mount : Mount} {fs : Filesystem}
    (h : SearchRun Station.answer.planned v user primary p s t calls o)
    (switched : (Station.answer.planned (.setFsuid 0) s).1.isOk)
    (storage : (Station.answer.planned (.setFsuid 0) s).2.1.site.storage = .mount mount fs) :
    let asRoot := (Station.answer.planned (.setFsuid 0) s).2
    let there := fun q => !mount.isMissing fs asRoot.1.hostIds q
    calls.filter (·.call.isStorage) =
      (p.ancestors.take (p.ancestors.findIdx there + 1)).map fun q => ⟨.probe q, asRoot⟩ := by
  intro asRoot there
  have all : looks Station.answer.planned p s = p.ancestors.map fun q => ⟨.probe q, asRoot⟩ :=
    lookAll_still (fun q => by rw [Station.probe_mount storage]) _
  have first : missed Station.answer.planned (looks Station.answer.planned p s) =
      p.ancestors.findIdx there := by
    rw [missed, all, List.findIdx_map]
    congr 1
    funext q
    simp only [Function.comp, Moment.misses, asRoot, Station.probe_mount storage, there,
      Mount.isMissing]
    cases mount.stat fs asRoot.1.hostIds q <;> rfl
  rw [h.storage_calls switched, first, all, List.map_take]

/-- The looks of a search are the first steps of the walk up, and all of them if no node is found. -/
theorem SearchRun.looks_walk (h : SearchRun m v user primary p s t calls o) :
    (calls.filter (·.call.isStorage)).map (·.call) <+: p.ancestors.map .probe ∧
      (o = .finished (.error (.invalidPath p)) →
        (calls.filter (·.call.isStorage)).map (·.call) = p.ancestors.map .probe) := by
  have walk : (looks m p s).map (·.call) = p.ancestors.map .probe := lookAll_calls _ _
  by_cases switched : (m (.setFsuid 0) s).1.isOk
  · rw [h.storage_calls switched, List.map_take, walk]
    refine ⟨List.take_prefix _ _, fun none_found => ?_⟩
    obtain ⟨w, asked, result, -⟩ := h.result switched
    obtain ⟨-, all_miss⟩ := (result.invalidPath p).mp none_found
    have beyond := List.getElem?_eq_none_iff.mp (looks_all_miss.mpr all_miss)
    have length := congrArg List.length walk
    rw [List.length_map] at length
    exact List.take_of_length_le (by omega)
  · rw [h.storage_calls_refused switched]
    refine ⟨List.nil_prefix, fun none_found => ?_⟩
    rcases h.switched_or_refused with switched' | ⟨f, -, rfl, -⟩
    · exact absurd switched' switched
    · simp at none_found

theorem SearchRun.first_fails (h : SearchRun m v user primary p s t calls o)
    (switched : (m (.setFsuid 0) s).1.isOk) {f : Fault} (other : f.isNotFound = false)
    (failed : (m (.probe p) (m (.setFsuid 0) s).2).1 = .finished (.error f)) :
    o = .finished (.error (.probe p f)) ∧
      (calls.filter (·.call.isStorage)).map (·.call) = [.probe p] := by
  have first : looks m p s = ⟨.probe p, (m (.setFsuid 0) s).2⟩ ::
      lookAll m p.ancestors.tail (m (.probe p) (m (.setFsuid 0) s).2).2 := by
    rw [looks, Path.ancestors_eq_cons p]
    rfl
  have none_missed : missed m (looks m p s) = 0 := by
    rw [first, missed_cons]
    simp [Moment.misses, failed, other]
  have saw : Saw m p s p (.finished (.error f)) := by
    refine ⟨switched, _, ?_, failed⟩
    rw [none_missed, first]
    rfl
  obtain ⟨w, asked, result, -⟩ := h.result switched
  refine ⟨(result.probe p f).mpr saw, ?_⟩
  rw [h.storage_calls switched, none_missed, first]
  rfl

end GroupSearch

/-- On a mount the storage is the same before every call of a search, and after it. -/
theorem GroupSearch.run_storage {user : String} {primary : UInt32} {p : Path} {m : Mount}
    {fs : Filesystem} {s t : Station × Plan} {calls : List (Moment (Station × Plan))}
    {o : Outcome (Except GroupSearchError GroupMatch)}
    (h : (GroupSearch.run user primary p).run.Runs Station.answer.planned s calls o t)
    (storage : s.1.site.storage = .mount m fs) :
    t.1.site.storage = .mount m fs ∧ ∀ e ∈ calls, e.state.1.site.storage = .mount m fs := by
  refine h.invariant (I := fun u => u.1.site.storage = .mount m fs) (fun e he before => ?_) storage
  by_cases hc : e.call.isStorage
  · obtain ⟨looks, -⟩ := (run_searchRun Station.honest.planned h).looks_walk
    have look : e.call ∈ p.ancestors.map .probe :=
      looks.subset (List.mem_map_of_mem (List.mem_filter.mpr ⟨he, hc⟩))
    obtain ⟨q, -, at_q⟩ := List.mem_map.mp look
    rw [← at_q, Station.probe_mount before]
    exact before
  · rw [Station.storage_planned (by simpa using hc)]
    exact before

/-- The walk up a path and what a mount makes of it keep step. Of an absolute path that does not go up,
every ancestor comes to a host path, each step up drops the component that its segment stands for, and
the host paths passed are those from the target up to the root of the mount. A search with user id 0
looks at the ancestors in this order, each at the place of its host path, up to the first that it does
not find missing, at all of them if all are missing, and leaves the storage as it was. Of a path that
goes up, the search fails at its first look. -/
theorem Mount.search_climbs (m : Mount) (p : Path) :
    (p.isAbsolute → Path.dotDot ∉ p.bytes.splitOn slash →
      (∀ q ∈ p.ancestors, ∃ host, m.resolve q = .ok host ∧ names host = m.below q) ∧
      p.ancestors.IsChain m.StepUp ∧
      (∃ last host, p.ancestors.getLast? = some last ∧ m.resolve last = .ok host ∧
        host.same m.root) ∧
      (∀ target, m.resolve p = .ok target → ∀ cs,
        (∃ q ∈ p.ancestors, ∃ host, m.resolve q = .ok host ∧ host.components = cs) ↔
          m.root.components <+: cs ∧ cs <+: target.components)) ∧
    ∀ (user : String) (primary : UInt32) (s : Station × Plan) (fs : Filesystem),
      s.1.site.storage = .mount m fs →
      let search := (GroupSearch.run user primary p).run
      let calls := search.trace Station.answer.planned s
      let outcome := (search.run Station.answer.planned s).1
      let looks := (calls.filter (·.call.isStorage)).map (·.call)
      let root := (Station.answer.planned (.setFsuid 0) s).2.1.hostIds
      (∀ e ∈ calls, e.state.1.site.storage = .mount m fs) ∧
      (search.run Station.answer.planned s).2.1.site.storage = .mount m fs ∧
      looks <+: p.ancestors.map .probe ∧
      (outcome = .finished (.error (.invalidPath p)) → looks = p.ancestors.map .probe) ∧
      (¬ (Station.answer.planned (.setFsuid 0) s).1.isOk → looks = []) ∧
      ((Station.answer.planned (.setFsuid 0) s).1.isOk →
        looks = (p.ancestors.take
          (p.ancestors.findIdx (fun q => !m.isMissing fs root q) + 1)).map .probe ∧
        ((∀ q ∈ p.ancestors, m.isMissing fs root q) → looks = p.ancestors.map .probe) ∧
        (∀ q u, ⟨.probe q, u⟩ ∈ calls →
          (Station.answer.planned (.probe q) u).1 = .finished (m.stat fs root q) ∧
          (m.Fits q → m.stat fs root q = fs.stat root (m.below q))) ∧
        (Path.dotDot ∈ p.bytes.splitOn slash →
          looks = [.probe p] ∧
          outcome = .finished (.error (.probe p (.os .invalidArgument))))) := by
  constructor
  · intro absolute stays
    rw [← Path.dotDot_mem_segments] at stays
    refine ⟨fun q mem => ?_, ancestors_stepUp stays, walk_ends absolute,
      fun target resolved cs => mem_walk absolute resolved cs⟩
    obtain ⟨host, resolved, -⟩ := m.resolve_eq_ok (Path.stays_of_mem_ancestors stays mem)
    exact ⟨host, resolved, names_resolve resolved⟩
  · intro user primary s fs storage search calls outcome looks root
    have run : search.Runs Station.answer.planned s calls outcome _ := runs_self _ _ _
    obtain ⟨after, during⟩ := GroupSearch.run_storage run storage
    have searched := GroupSearch.run_searchRun Station.honest.planned run
    obtain ⟨walk, whole⟩ := searched.looks_walk
    have mounted : (Station.answer.planned (.setFsuid 0) s).2.1.site.storage = .mount m fs :=
      (Station.storage_planned rfl s).trans storage
    refine ⟨during, after, walk, whole, fun refused => ?_, fun switched => ?_⟩
    · simp only [looks, searched.storage_calls_refused refused, List.map_nil]
    -- Looks change nothing, so all of them are made in the state after the switch.
    have seen := searched.looks_mount switched mounted
    have looked : looks = (p.ancestors.take
        (p.ancestors.findIdx (fun q => !m.isMissing fs root q) + 1)).map .probe := by
      simp only [looks, seen, List.map_map]
      rfl
    refine ⟨looked, fun missing => ?_, fun q u mem => ?_, fun up => ?_⟩
    · have none_there : p.ancestors.findIdx (fun q => !m.isMissing fs root q) =
          p.ancestors.length := List.findIdx_eq_length.mpr fun q mem => by simp [missing q mem]
      rw [looked, none_there, List.take_of_length_le (Nat.le_succ _)]
    · have look : ⟨.probe q, u⟩ ∈ calls.filter (·.call.isStorage) :=
        List.mem_filter.mpr ⟨mem, rfl⟩
      rw [seen] at look
      obtain ⟨q', -, same⟩ := List.mem_map.mp look
      obtain ⟨rfl, rfl⟩ : q' = q ∧ _ = u := by simpa using same
      rw [Station.probe_mount mounted]
      exact ⟨rfl, stat_fits⟩
    · obtain ⟨fails, once⟩ := searched.first_fails switched (f := .os .invalidArgument) rfl (by
        rw [Station.probe_mount mounted, stat_refused (Path.dotDot_mem_segments.mpr up)])
      exact ⟨once, fails⟩

/-- The walk up `/a//./b/` passes three host paths in four steps. Where only `/srv` is there, the search
looks at all of them, last at `/srv`; a search for `/a/../b` is over after one look. -/
theorem Mount.search_climbs_srv :
    let m : Mount := ⟨.ofString "/srv"⟩
    let p := Path.ofString "/a//./b/"
    let up := Path.ofString "/a/../b"
    let fs := Filesystem.ofDirectories true [Bytes.ofString "srv"]
    let s : Station × Plan := ({ site := { storage := .mount m fs } }, [])
    let calls := ((GroupSearch.run "alice" 1000 p).run).trace Station.answer.planned s
    p.ancestors.length = 4 ∧ p.ancestors.IsChain m.StepUp ∧
    (∃ q ∈ p.ancestors, ∃ host, m.resolve q = .ok host ∧
      host.components = (Path.ofString "/srv/a").components) ∧
    (calls.filter (·.call.isStorage)).map (·.call) =
      [.probe p, .probe (.ofString "/a//."), .probe (.ofString "/a"), .probe .root] ∧
    ((GroupSearch.run "alice" 1000 up).run.run Station.answer.planned s).1 =
      .finished (.error (.probe up (.os .invalidArgument))) := by
  intro m p up fs s calls
  obtain ⟨climbs, searched⟩ := m.search_climbs p
  obtain ⟨-, steps, -, walk⟩ := climbs (by decide +kernel) (by decide +kernel)
  have target : m.resolve p = .ok (.ofString "/srv/a/b") := by decide +kernel
  obtain ⟨-, -, -, -, -, looks⟩ := searched "alice" 1000 s fs rfl
  obtain ⟨-, searched_up⟩ := m.search_climbs up
  obtain ⟨-, -, -, -, -, refused⟩ := searched_up "alice" 1000 s fs rfl
  refine ⟨by decide +kernel, steps, (walk _ target _).mpr ⟨?_, ?_⟩, ?_, ?_⟩
  · exact ⟨[.name (Bytes.ofString "a")], by decide +kernel⟩
  · exact ⟨[.name (Bytes.ofString "b")], by decide +kernel⟩
  · rw [(looks rfl).1]
    decide +kernel
  · obtain ⟨-, -, -, fails⟩ := refused rfl
    exact (fails (by decide +kernel)).2

end Impersonation
