import Impersonation.Proofs.Looks
import Impersonation.Proofs.Service

namespace Impersonation

open Program

namespace GroupSearch

variable {σ : Type} {m : Machine σ} {v : View σ} {user : String} {primary : UInt32} {p : Path}
  {s t w : σ} {calls : List (Moment σ)} {o : Outcome (Except GroupSearchError GroupMatch)}

theorem looks_all_miss :
    (looks m p s)[missed m (looks m p s)]? = none ↔ ∀ e ∈ looks m p s, e.misses m := by
  rw [List.getElem?_eq_none_iff, missed]
  have bound : (looks m p s).findIdx (fun e => !e.misses m) ≤ (looks m p s).length :=
    List.findIdx_le_length
  constructor
  · intro h
    have all := List.findIdx_eq_length.mp (Nat.le_antisymm bound h)
    exact fun e he => by simpa using all e he
  · intro h
    have all : ∀ e ∈ looks m p s, (!e.misses m) = false := fun e he => by simp [h e he]
    exact Nat.le_of_eq (List.findIdx_eq_length.mpr all).symm

def Asked (m : Machine σ) (user : String) (primary : UInt32) (calls : List (Moment σ))
    (reply : Except Fault (List UInt32)) : Prop :=
  ∃ w, ⟨.listGroups user primary, w⟩ ∈ calls ∧ (m (.listGroups user primary) w).1 = reply

theorem Saw.some {q : Path} {reply : Outcome (Except Fault FileStat)} (saw : Saw m p s q reply) :
    (looks m p s)[missed m (looks m p s)]? ≠ none := by
  obtain ⟨-, u, first, -⟩ := saw
  simp [first]

/-- If the groups were asked for, it was in the state that the result goes by. -/
theorem SearchRun.result (h : SearchRun m v user primary p s t calls o)
    (switched : (m (.setFsuid 0) s).1.isOk) :
    ∃ w asked, Result m user primary p s w asked o ∧
      ∀ w', ⟨.listGroups user primary, w'⟩ ∈ calls ↔ ⟨.listGroups user primary, w'⟩ ∈ asked := by
  cases h with
  | refused failed standing =>
    rw [failed] at switched
    cases switched
  | @searched back asked u w _ switched asRoot looked wentBack standing result =>
    refine ⟨w, asked, result, fun w' => ?_⟩
    have looking : ⟨.listGroups user primary, w'⟩ ∉
        (looks m p s).take (missed m (looks m p s) + 1) := by
      intro h
      have := List.mem_map_of_mem (f := (·.call)) (List.mem_of_mem_take h)
      rw [looks, lookAll_calls] at this
      simp at this
    have returning : ⟨.listGroups user primary, w'⟩ ∉ back := by
      intro h
      have := wentBack.calls _ h
      simp at this
    simp [looking, returning]

/-- Whatever the result, there was one, unless user id 0 could not be taken on. -/
theorem SearchRun.switched_or_refused (h : SearchRun m v user primary p s t calls o) :
    (m (.setFsuid 0) s).1.isOk ∨ ∃ f, (m (.setFsuid 0) s).1 = .error f ∧
      o = .finished (.error (.rootSwitch f)) ∧ calls = [⟨.setFsuid 0, s⟩] := by
  cases h with
  | refused failed standing => exact .inr ⟨_, failed, rfl, rfl⟩
  | searched switched => exact .inl switched

theorem SearchRun.rootSwitch (h : SearchRun m v user primary p s t calls o) (f : Fault) :
    o = .finished (.error (.rootSwitch f)) ↔ (m (.setFsuid 0) s).1 = .error f := by
  rcases h.switched_or_refused with switched | ⟨f', failed, rfl, -⟩
  · obtain ⟨w, asked, result, -⟩ := h.result switched
    refine iff_of_false (fun ho => ?_) fun failed => ?_
    · cases result <;> cases ho
    · rw [failed] at switched
      cases switched
  · simp [failed, eq_comm]

theorem Result.invalidPath {w : σ} {asked : List (Moment σ)}
    (h : Result m user primary p s w asked o) (q : Path) :
    o = .finished (.error (.invalidPath q)) ↔ q = p ∧ ∀ e ∈ looks m p s, e.misses m := by
  rw [← looks_all_miss]
  cases h with
  | nothing none => simp [none, eq_comm]
  | failed saw | crashed saw | unlisted saw | found saw | other saw => simp [saw.some]

theorem Result.probe {w : σ} {asked : List (Moment σ)} (h : Result m user primary p s w asked o)
    (q : Path) (f : Fault) :
    o = .finished (.error (.probe q f)) ↔ Saw m p s q (.finished (.error f)) := by
  cases h with
  | nothing none => exact iff_of_false (by simp) fun saw => saw.some none
  | failed saw =>
    constructor
    · rintro ⟨⟩
      exact saw
    · intro saw'
      obtain ⟨rfl, eq⟩ := saw.unique saw'
      cases eq
      rfl
  | crashed saw | unlisted saw | found saw | other saw =>
    exact iff_of_false (by simp) fun saw' => by simpa using (saw.unique saw').2

theorem Result.crash {w : σ} {asked : List (Moment σ)} (h : Result m user primary p s w asked o)
    (reason : String) : o = .crashed reason ↔ ∃ q, Saw m p s q (.crashed reason) := by
  cases h with
  | nothing none => exact iff_of_false (by simp) fun ⟨_, saw⟩ => saw.some none
  | crashed saw =>
    constructor
    · rintro ⟨⟩
      exact ⟨_, saw⟩
    · rintro ⟨q, saw'⟩
      cases (saw.unique saw').2
      rfl
  | failed saw | unlisted saw | found saw | other saw =>
    exact iff_of_false (by simp) fun ⟨_, saw'⟩ => by simpa using (saw.unique saw').2

theorem asked_singleton {reply : Except Fault (List UInt32)} :
    Asked m user primary [⟨.listGroups user primary, w⟩] reply ↔
      (m (.listGroups user primary) w).1 = reply := by
  simp [Asked]

theorem Result.groupLookup {w : σ} {asked : List (Moment σ)}
    (h : Result m user primary p s w asked o) (name : String) (f : Fault) :
    o = .finished (.error (.groupLookup name f)) ↔
      name = user ∧ Asked m user primary asked (.error f) := by
  cases h with
  | nothing _ | failed _ | crashed _ => simp [Asked]
  | unlisted saw listed => simp [asked_singleton, listed, eq_comm]
  | found saw listed | other saw listed => simp [asked_singleton, listed]

theorem Result.noMatch {w : σ} {asked : List (Moment σ)} (h : Result m user primary p s w asked o)
    (q : Path) (gid : UInt32) :
    o = .finished (.error (.noMatch q gid)) ↔
      ∃ stat groups, Saw m p s q (.finished (.ok stat)) ∧
        Asked m user primary asked (.ok groups) ∧ gid = stat.gid ∧ gid ∉ groups := by
  cases h with
  | nothing _ | failed _ | crashed _ => simp [Asked]
  | unlisted saw listed => simp [asked_singleton, listed]
  | found saw listed member =>
    refine iff_of_false (by simp) ?_
    rintro ⟨stat, groups, saw', listed', rfl, other⟩
    cases (saw.unique saw').2
    cases listed.symm.trans (asked_singleton.mp listed')
    exact other member
  | other saw listed other =>
    constructor
    · rintro ⟨⟩
      exact ⟨_, _, saw, asked_singleton.mpr listed, rfl, other⟩
    · rintro ⟨stat, groups, saw', -, rfl, -⟩
      obtain ⟨rfl, eq⟩ := saw.unique saw'
      cases eq
      rfl

theorem Result.found_iff {w : σ} {asked : List (Moment σ)}
    (h : Result m user primary p s w asked o) (g : GroupMatch) :
    o = .finished (.ok g) ↔
      ∃ stat groups, Saw m p s g.governing (.finished (.ok stat)) ∧
        Asked m user primary asked (.ok groups) ∧ g.gid = stat.gid ∧ g.gid ∈ groups ∧
        g.stickyGid = stat.isSetgid ∧ g.steps = missed m (looks m p s) := by
  cases h with
  | nothing _ | failed _ | crashed _ => simp [Asked]
  | unlisted saw listed => simp [asked_singleton, listed]
  | found saw listed member =>
    constructor
    · rintro ⟨⟩
      exact ⟨_, _, saw, asked_singleton.mpr listed, rfl, member, rfl, rfl⟩
    · obtain ⟨gid, sticky, governing, steps⟩ := g
      rintro ⟨stat, groups, saw', -, rfl, -, rfl, rfl⟩
      obtain ⟨rfl, eq⟩ := saw.unique saw'
      cases eq
      rfl
  | other saw listed other =>
    refine iff_of_false (by simp) ?_
    rintro ⟨stat, groups, saw', listed', gid, member, -⟩
    cases (saw.unique saw').2
    cases listed.symm.trans (asked_singleton.mp listed')
    exact other (gid ▸ member)

/-- The groups were asked for if, and only if, a node was seen. -/
theorem Result.asked_iff {w : σ} {asked : List (Moment σ)} (h : Result m user primary p s w asked o) :
    (∃ q stat, Saw m p s q (.finished (.ok stat))) ∧ asked = [⟨.listGroups user primary, w⟩] ∨
      (¬ ∃ q stat, Saw m p s q (.finished (.ok stat))) ∧ asked = [] := by
  cases h with
  | nothing none => exact .inr ⟨fun ⟨_, _, saw⟩ => saw.some none, rfl⟩
  | failed saw | crashed saw =>
    exact .inr ⟨fun ⟨_, _, saw'⟩ => by simpa using (saw.unique saw').2, rfl⟩
  | unlisted saw | found saw | other saw => exact .inl ⟨⟨_, _, saw⟩, rfl⟩

/-- What the thread runs with during a search, and after it. -/
theorem SearchRun.standing (hm : Honest m v) (h : SearchRun m v user primary p s t calls o) :
    (∀ e ∈ calls, e.call.isStorage → (v.standing e.state).ids.fsuid = 0) ∧
    (∀ e ∈ calls, (v.standing e.state).ids.fsgid = (v.standing s).ids.fsgid ∧
      (v.standing e.state).ids.groups = (v.standing s).ids.groups ∧
      (e.call.isSwitch → e.call = .setFsuid 0 ∨ e.call = .setFsuid (v.standing s).ids.fsuid)) ∧
    (v.standing t = v.standing s ∨
      v.standing t = ((v.standing s).withFsuid 0).withPoison ∧
        ∃ w f, ⟨.setFsuid (v.standing s).ids.fsuid, w⟩ ∈ calls ∧
          (m (.setFsuid (v.standing s).ids.fsuid) w).1 = .error f) := by
  cases h with
  | refused failed standing => exact ⟨by simp [Call.isStorage], by simp, .inl standing⟩
  | @searched back asked u w _ switched asRoot looked wentBack standing result =>
    have going : ∀ e ∈ back, v.standing e.state = (v.standing s).withFsuid 0 :=
      fun e he => (wentBack.during hm e he).trans looked
    have back_end : v.standing w = v.standing s ∨
        v.standing w = ((v.standing s).withFsuid 0).withPoison ∧
          ∃ f, ⟨.setFsuid (v.standing s).ids.fsuid, u⟩ ∈ back ∧
            (m (.setFsuid (v.standing s).ids.fsuid) u).1 = .error f := by
      have back_end := wentBack.after
      rw [looked] at back_end
      exact back_end
    have last : ∀ e ∈ asked, e = ⟨.listGroups user primary, w⟩ := by
      rcases result.asked_iff with ⟨-, rfl⟩ | ⟨-, rfl⟩ <;> simp
    have places : ∀ e ∈ ⟨.setFsuid 0, s⟩ ::
        ((looks m p s).take (missed m (looks m p s) + 1) ++ (back ++ asked)),
        e = ⟨.setFsuid 0, s⟩ ∨ e ∈ looks m p s ∨ e ∈ back ∨ e = ⟨.listGroups user primary, w⟩ := by
      intro e he
      rcases List.mem_cons.mp he with rfl | he
      · exact .inl rfl
      · rcases List.mem_append.mp he with he | he
        · exact .inr (.inl (List.mem_of_mem_take he))
        · rcases List.mem_append.mp he with he | he
          · exact .inr (.inr (.inl he))
          · exact .inr (.inr (.inr (last e he)))
    refine ⟨fun e he hc => ?_, fun e he => ?_, ?_⟩
    · rcases places e he with rfl | he | he | rfl
      · cases hc
      · rw [asRoot e he]
        rfl
      · rw [going e he]
        rfl
      · cases hc
    · rcases places e he with rfl | he | he | rfl
      · exact ⟨rfl, rfl, fun _ => .inl rfl⟩
      · have look : e.call ∈ p.ancestors.map .probe := by
          rw [← lookAll_calls (m := m) p.ancestors (m (.setFsuid 0) s).2]
          exact List.mem_map_of_mem he
        obtain ⟨q, -, hq⟩ := List.mem_map.mp look
        rw [asRoot e he, ← hq]
        exact ⟨rfl, rfl, fun h => by cases h⟩
      · rw [going e he]
        refine ⟨rfl, rfl, fun h => .inr ?_⟩
        rcases wentBack.calls e he with hc | hc
        · exact hc
        · rw [hc] at h
          cases h
      · rcases back_end with same | ⟨same, -⟩
        · rw [same]
          exact ⟨rfl, rfl, fun h => by cases h⟩
        · rw [same]
          exact ⟨rfl, rfl, fun h => by cases h⟩
    · rw [standing]
      refine back_end.imp id ?_
      rintro ⟨same, f, mem, failed⟩
      exact ⟨same, u, f, by simp [mem], failed⟩

/-- The exact outcome of a search, what it calls for, and what the thread runs with. -/
structure Exact (m : Machine σ) (v : View σ) (user : String) (primary : UInt32) (p : Path) (s t : σ)
    (calls : List (Moment σ)) (o : Outcome (Except GroupSearchError GroupMatch)) : Prop where
  paths : (looks m p s).map (·.call) = p.ancestors.map .probe
  rootSwitch : ∀ f, o = .finished (.error (.rootSwitch f)) ↔ (m (.setFsuid 0) s).1 = .error f
  invalidPath : ∀ q, o = .finished (.error (.invalidPath q)) ↔
    (m (.setFsuid 0) s).1.isOk ∧ q = p ∧ ∀ e ∈ looks m p s, e.misses m
  probe : ∀ q f, o = .finished (.error (.probe q f)) ↔ Saw m p s q (.finished (.error f))
  crash : ∀ reason, o = .crashed reason ↔ ∃ q, Saw m p s q (.crashed reason)
  groupLookup : ∀ name f, o = .finished (.error (.groupLookup name f)) ↔
    name = user ∧ Asked m user primary calls (.error f)
  noMatch : ∀ q gid, o = .finished (.error (.noMatch q gid)) ↔
    ∃ stat groups, Saw m p s q (.finished (.ok stat)) ∧ Asked m user primary calls (.ok groups) ∧
      gid = stat.gid ∧ gid ∉ groups
  found : ∀ g, o = .finished (.ok g) ↔
    ∃ stat groups, Saw m p s g.governing (.finished (.ok stat)) ∧
      Asked m user primary calls (.ok groups) ∧ g.gid = stat.gid ∧ g.gid ∈ groups ∧
      g.stickyGid = stat.isSetgid ∧ g.steps = missed m (looks m p s)
  refused : ∀ f, (m (.setFsuid 0) s).1 = .error f → calls = [⟨.setFsuid 0, s⟩]
  searched : (m (.setFsuid 0) s).1.isOk → ∃ u w back asked,
    calls = ⟨.setFsuid 0, s⟩ ::
      ((looks m p s).take (missed m (looks m p s) + 1) ++ (back ++ asked)) ∧
    RootScope.WentBack m v (v.standing s).ids.fsuid u back w ∧
    ((∃ q stat, Saw m p s q (.finished (.ok stat))) ∧ asked = [⟨.listGroups user primary, w⟩] ∨
      (¬ ∃ q stat, Saw m p s q (.finished (.ok stat))) ∧ asked = [])
  asRoot : ∀ e ∈ calls, e.call.isStorage → (v.standing e.state).ids.fsuid = 0
  kept : ∀ e ∈ calls, (v.standing e.state).ids.fsgid = (v.standing s).ids.fsgid ∧
    (v.standing e.state).ids.groups = (v.standing s).ids.groups ∧
    (e.call.isSwitch → e.call = .setFsuid 0 ∨ e.call = .setFsuid (v.standing s).ids.fsuid)
  restored : v.standing t = v.standing s ∨
    v.standing t = ((v.standing s).withFsuid 0).withPoison ∧
      ∃ w f, ⟨.setFsuid (v.standing s).ids.fsuid, w⟩ ∈ calls ∧
        (m (.setFsuid (v.standing s).ids.fsuid) w).1 = .error f

/-- A search comes to one of its outcomes exactly if what decides for that outcome holds; it looks at
the paths up to the first that does not miss, with user id 0 and in order, asks for the groups at
most once and after it went back, and leaves the thread as it was, unless it could not go back. -/
theorem run_exact (hm : Honest m v)
    (h : (GroupSearch.run user primary p).run.Runs m s calls o t) :
    Exact m v user primary p s t calls o := by
  have run := run_searchRun hm h
  obtain ⟨asRoot, kept, restored⟩ := run.standing hm
  have paths : (looks m p s).map (·.call) = p.ancestors.map .probe := lookAll_calls _ _
  rcases run.switched_or_refused with switched | ⟨f, failed, rfl, rfl⟩
  · obtain ⟨w, asked, result, same⟩ := run.result switched
    have asked_calls (reply : Except Fault (List UInt32)) :
        Asked m user primary calls reply ↔ Asked m user primary asked reply := by
      simp only [Asked, same]
    refine ⟨paths, run.rootSwitch, fun q => ?_, result.probe, result.crash, fun name f => ?_,
      fun q gid => ?_, fun g => ?_, fun f failed => ?_, fun _ => ?_, asRoot, kept, restored⟩
    · rw [result.invalidPath]
      simp [switched]
    · rw [asked_calls]
      exact result.groupLookup name f
    · simp only [asked_calls]
      exact result.noMatch q gid
    · simp only [asked_calls]
      exact result.found_iff g
    · rw [failed] at switched
      cases switched
    · cases run with
      | refused failed standing =>
        rw [failed] at switched
        cases switched
      | searched _ _ _ wentBack _ result => exact ⟨_, _, _, _, rfl, wentBack, result.asked_iff⟩
  · have unswitched : ¬ (m (.setFsuid 0) s).1.isOk := by
      rw [failed]
      simp [Except.isOk, Except.toBool]
    have unsaw {q : Path} {reply : Outcome (Except Fault FileStat)} : ¬ Saw m p s q reply :=
      fun saw => unswitched saw.1
    have unasked {reply : Except Fault (List UInt32)} :
        ¬ Asked m user primary [⟨.setFsuid 0, s⟩] reply := by
      simp [Asked]
    exact ⟨paths, run.rootSwitch, by simp [unswitched], by simp [unsaw], by simp [unsaw],
      by simp [unasked], by simp [unsaw], by simp [unsaw], fun _ _ => rfl,
      fun switched => absurd switched unswitched, asRoot, kept, restored⟩

/-- The path itself is not there, its directory is, with a group of the user. -/
theorem run_exact_shared :
    let m := Station.answer.planned
    let start : Station × Plan := (⟨{}, sharedSite⟩, [])
    let x := (GroupSearch.run "alice" 900 (.ofString "/data/out")).run
    (x.run m start).1 = .finished (.ok ⟨800, false, .ofString "/data", 1⟩) ∧
    ∃ stat groups, Saw m (.ofString "/data/out") start (.ofString "/data") (.finished (.ok stat)) ∧
      Asked m "alice" 900 (x.trace m start) (.ok groups) ∧ stat.gid = 800 ∧ 800 ∈ groups ∧
      ((Station.view.ofFst Plan).standing (x.run m start).2).ids = {} := by
  intro m start x
  have found : (x.run m start).1 = .finished (.ok ⟨800, false, .ofString "/data", 1⟩) := by
    have value : (x.run m start).1.map Except.toOption =
        .finished (some ⟨800, false, .ofString "/data", 1⟩) := by decide +kernel
    rcases result : (x.run m start).1 with (e | g) | reason <;> rw [result] at value
    · simp [Outcome.map, Except.toOption] at value
    · simpa [Outcome.map, Except.toOption] using value
    · simp [Outcome.map] at value
  have exact_run := run_exact Station.honest.planned (runs_self m x start)
  obtain ⟨stat, groups, saw, asked, gid, member, -⟩ := (exact_run.found _).mp found
  exact ⟨found, stat, groups, saw, asked, gid.symm, member, by decide +kernel⟩

end GroupSearch

end Impersonation
