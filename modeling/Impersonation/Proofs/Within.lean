import Impersonation.Proofs.Enter
import Impersonation.Session

namespace Impersonation

open Program

namespace Standing

/-- The standing `w` is `v` again, unless the thread is poisoned; groups may have been cleared. -/
structure Intact (v w : Standing) : Prop where
  active : w.flags.active = v.flags.active
  poisoned : v.flags.poisoned → w.flags.poisoned
  back : w.flags.poisoned ∨ w = v ∨ w = v.withGroups []

theorem Intact.refl (v : Standing) : v.Intact v :=
  ⟨rfl, id, .inr (.inl rfl)⟩

theorem Intact.trans {u v w : Standing} (h : u.Intact v) (h' : v.Intact w) : u.Intact w := by
  refine ⟨h'.active.trans h.active, fun hu => h'.poisoned (h.poisoned hu), ?_⟩
  rcases h'.back with hw | rfl | rfl
  · exact .inl hw
  · exact h.back
  · rcases h.back with hv | rfl | rfl
    · exact .inl (h'.poisoned hv)
    · exact .inr (.inr rfl)
    · exact .inr (.inr rfl)

theorem Intact.of_eq {v w : Standing} (h : w = v) : v.Intact w :=
  h ▸ .refl v

end Standing

def OpenScope.after : OpenScope → Standing → Standing
  | identity (.switched uid gid), v => ⟨⟨uid, gid, []⟩, { v.flags with active := false }⟩
  | identity .unswitched, v => v.withActive false
  | root ⟨uid⟩, v => v.withFsuid uid

variable {σ : Type} {m : Machine σ} {v : View σ}

def Outcome.map {α β : Type} (f : α → β) : Outcome α → Outcome β
  | .finished a => .finished (f a)
  | .crashed r => .crashed r

/-- A run inside a scope: the scope is refused, or it is entered and left around the run. -/
theorem runs_within {α ε S : Type} {entering : Attempt ε S} {leave : S → Program Unit}
    {body : Program α} {p q : Call → Prop} (hentering : entering.run.Only p False)
    (hleave : ∀ scope, (leave scope).Only q False) {s t : σ} {calls : List (Moment σ)}
    {o : Outcome (Except ε α)}
    (h : ((do let scope ← entering; liftM (body.closing (leave scope)) : Attempt ε α).run).Runs
      m s calls o t) :
    (∃ e, entering.run.Runs m s calls (.finished (.error e)) t ∧ o = .finished (.error e)) ∨
    ∃ scope s₁ s₂ front mid back inner, entering.run.Runs m s front (.finished (.ok scope)) s₁ ∧
      body.Runs m s₁ mid inner s₂ ∧ (leave scope).Runs m s₂ back (.finished ()) t ∧
      calls = front ++ (mid ++ back) ∧ o = inner.map .ok := by
  rcases runs_attempt.mp h with ⟨scope, s₁, front, rest, hfront, hrest, rfl⟩ | refused | ⟨r, hr, -⟩
  · right
    have hclosing : ∃ inner', (body.closing (leave scope)).Runs m s₁ rest inner' t ∧
        o = inner'.map .ok := by
      rcases runs_lift.mp hrest with ⟨a, ha, rfl⟩ | ⟨r, hr, rfl⟩
      · exact ⟨_, ha, rfl⟩
      · exact ⟨_, hr, rfl⟩
    obtain ⟨inner', hclosing, rfl⟩ := hclosing
    obtain ⟨inner, s₂, mid, back, hmid, rfl, ⟨hback, rfl⟩ | ⟨r, hback, -⟩⟩ :=
      runs_closing.mp hclosing
    · exact ⟨scope, s₁, s₂, front, mid, back, _, hfront, hmid, hback, rfl, rfl⟩
    · obtain ⟨_, ha⟩ := hback.finished (hleave scope)
      simp at ha
  · exact .inl refused
  · obtain ⟨_, ha⟩ := hr.finished hentering
    simp at ha

/-- The ids that leaving a scope puts back were replaced by earlier calls. -/
def OpenScope.Kept (m : Machine σ) (before : List (Moment σ)) : OpenScope → Prop
  | identity (.switched uid gid) => ReplacedUid m before uid ∧ ReplacedGid m before gid
  | identity .unswitched => True
  | root ⟨uid⟩ => ReplacedUid m before uid

theorem OpenScope.Kept.mono {scope : OpenScope} {before later : List (Moment σ)}
    (h : scope.Kept m before) (sub : before ⊆ later) : scope.Kept m later := by
  rcases scope with ⟨_ | _⟩ | _
  · exact ⟨h.1.mono sub, h.2.mono sub⟩
  · trivial
  · exact ReplacedUid.mono h sub

/-- A scope that was opened, and whose leaving would bring the standing back. -/
structure Opened (m : Machine σ) (v : View σ) (s : σ) (calls : List (Moment σ))
    (scope : OpenScope) (t : σ) : Prop where
  kept : scope.Kept m calls
  after : (v.standing s).Intact (scope.after (v.standing t))
  unpoisoned : ∀ e ∈ calls, e.call ≠ .poison

/-- A run that leaves the standing intact and poisons the thread with reason only. -/
structure Tidy (m : Machine σ) (v : View σ) (s : σ) (calls : List (Moment σ)) (t : σ) : Prop where
  intact : (v.standing s).Intact (v.standing t)
  justified : Justified m [] calls

theorem Tidy.trans {s s₁ t : σ} {calls more : List (Moment σ)} (h : Tidy m v s calls s₁)
    (h' : Tidy m v s₁ more t) : Tidy m v s (calls ++ more) t :=
  ⟨h.intact.trans h'.intact, h.justified.append (by simpa using h'.justified.after calls)⟩

theorem OpenScope.intact_after {scope : OpenScope} {v w : Standing} (h : v.Intact w) :
    (scope.after v).Intact (scope.after w) := by
  rcases scope with ⟨uid, gid⟩ | ⟨uid⟩
  · refine ⟨rfl, h.poisoned, h.back.imp id ?_⟩
    rintro (rfl | rfl) <;> exact .inl rfl
  · refine ⟨rfl, h.poisoned, h.back.imp id ?_⟩
    rintro (rfl | rfl)
    · exact .inl rfl
    · exact .inr rfl
  · refine ⟨h.active, h.poisoned, h.back.imp id ?_⟩
    rintro (rfl | rfl)
    · exact .inl rfl
    · exact .inr rfl

theorem IdentityScope.leave_switched (hm : Honest m v) {uid gid : UInt32} {s t : σ}
    {before calls : List (Moment σ)} {o : Outcome Unit} (kept : ReplacedUid m before uid)
    (kept' : ReplacedGid m before gid) (h : (switched uid gid).leave.Runs m s calls o t) :
    ((OpenScope.identity (.switched uid gid)).after (v.standing s)).Intact (v.standing t) ∧
      Justified m before calls := by
  rcases runs_bind.mp h with ⟨_, s₁, front, back, hrestore, hmark, rfl⟩ | ⟨r, hrestore, -⟩
  · obtain ⟨rfl, rfl, rfl⟩ := runs_ask.mp hmark
    have run := (restore_run hm hrestore).2
    have hmarked := hm.obeys (.setActive false) s₁
    constructor
    · cases run with
      | restored eq standing =>
        rw [hmarked, standing]
        exact .refl _
      | poisoned block eq failed flags =>
        rw [hmarked]
        refine ⟨rfl, fun _ => ?_, .inl ?_⟩
        · simp [Standing.withActive, flags]
        · simp [Standing.withActive, flags]
    · refine (run.justified kept' ?_).append (.of_unpoisoned (by simp))
      rintro u ⟨⟩
      exact kept
  · exact absurd (restore_run hm hrestore).1 (by simp)

theorem RootScope.leave_run (hm : Honest m v) {uid : UInt32} {s t : σ}
    {before calls : List (Moment σ)} {o : Outcome Unit} (kept : ReplacedUid m before uid)
    (h : (RootScope.mk uid).leave.Runs m s calls o t) :
    ((v.standing s).withFsuid uid).Intact (v.standing t) ∧ Justified m before calls := by
  obtain ⟨_, rfl, h₁⟩ := runs_call.mp h
  rcases hm.obeys (.setFsuid uid) s with ⟨f, hr, hs⟩ | ⟨hr, hs⟩
  · rw [hr] at h₁
    obtain ⟨rfl, rfl, rfl⟩ := runs_ask.mp h₁
    have hpoison := hm.obeys .poison (m (.setFsuid uid) s).2
    constructor
    · rw [hpoison, hs]
      exact ⟨rfl, fun _ => rfl, .inl rfl⟩
    · have tried : Justified m before [⟨.setFsuid uid, s⟩] := .of_unpoisoned (by simp)
      show Justified m before ([⟨.setFsuid uid, s⟩] ++ [⟨.poison, _⟩])
      refine tried.append (.single fun _ => ⟨before, _, rfl, ?_, ?_⟩)
      · intro e he
        rw [List.mem_singleton.mp he]
        exact kept
      · refine ⟨_, List.mem_singleton_self _, ?_⟩
        simp [Moment.succeeds, hr, Except.isOk, Except.toBool]
  · rw [hr] at h₁
    obtain ⟨rfl, rfl, rfl⟩ := runs_done.mp h₁
    exact ⟨.of_eq hs, .of_unpoisoned (by simp)⟩

/-- Leaving a scope brings back the standing of before, or poisons the thread with reason. -/
theorem OpenScope.leave_run (hm : Honest m v) {scope : OpenScope} {s t : σ}
    {before calls : List (Moment σ)} {o : Outcome Unit} (kept : scope.Kept m before)
    (h : scope.leave.Runs m s calls o t) :
    (scope.after (v.standing s)).Intact (v.standing t) ∧ Justified m before calls := by
  rcases scope with ⟨uid, gid⟩ | ⟨uid⟩
  · exact IdentityScope.leave_switched hm kept.1 kept.2 h
  · obtain ⟨rfl, rfl, rfl⟩ := runs_ask.mp h
    exact ⟨.of_eq (hm.obeys (.setActive false) s), .of_unpoisoned (by simp)⟩
  · exact RootScope.leave_run hm kept h

/-- A scope that is left as it was opened, with a tidy run inside, makes a tidy run. -/
theorem Opened.closed (hm : Honest m v) {scope : OpenScope} {s s₁ s₂ t : σ}
    {front mid back : List (Moment σ)} {o : Outcome Unit} (opened : Opened m v s front scope s₁)
    (inside : Tidy m v s₁ mid s₂) (h : scope.leave.Runs m s₂ back o t) :
    Tidy m v s (front ++ (mid ++ back)) t := by
  have kept : scope.Kept m (front ++ mid) := opened.kept.mono (List.subset_append_left _ _)
  obtain ⟨intact, justified⟩ := scope.leave_run hm kept h
  refine ⟨(opened.after.trans (OpenScope.intact_after inside.intact)).trans intact, ?_⟩
  rw [← List.append_assoc]
  refine ((Justified.of_unpoisoned opened.unpoisoned).append ?_).append justified
  simpa using inside.justified.after front

end Impersonation
