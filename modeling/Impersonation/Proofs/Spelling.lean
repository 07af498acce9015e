import Impersonation.Host.Mount
import Impersonation.Proofs.Prefixes
import Mathlib.Data.List.Forall2

namespace Impersonation

namespace Path

/-- Two spellings of one path: both are absolute or both are relative, with the same nonempty pieces
between the slashes. -/
structure Respells (p q : Path) : Prop where
  absolute : q.isAbsolute = p.isAbsolute
  pieces : (q.bytes.splitOn slash).filter (· ≠ []) = (p.bytes.splitOn slash).filter (· ≠ [])

theorem respells_iff {p q : Path} :
    p.Respells q ↔ q.isAbsolute = p.isAbsolute ∧ q.segments = p.segments := by
  rw [segments, segments, segmentsOf_eq_splitOn, segmentsOf_eq_splitOn]
  exact ⟨fun h => ⟨h.absolute, h.pieces⟩, fun h => ⟨h.1, h.2⟩⟩

@[refl] theorem Respells.refl (p : Path) : p.Respells p :=
  ⟨rfl, rfl⟩

namespace Respells

variable {p q p' q' : Path}

theorem segments (h : p.Respells q) : q.segments = p.segments :=
  (respells_iff.mp h).2

theorem components (h : p.Respells q) : q.components = p.components := by
  unfold Path.components lead
  rw [h.absolute, h.segments]

theorem same (h : p.Respells q) (h' : p'.Respells q') : q.same q' = p.same p' := by
  rw [Path.same, Path.same, h.components, h'.components]

theorem le (h : p.Respells q) (h' : p'.Respells q') : q.le q' = p.le p' := by
  rw [Path.le, Path.le, h.components, h'.components]

theorem fileName? (h : p.Respells q) : q.fileName? = p.fileName? := by
  rw [Path.fileName?, Path.fileName?, h.components]

theorem parent?_eq_none (h : p.Respells q) : q.parent? = none ↔ p.parent? = none := by
  rw [Path.parent?_eq_none, Path.parent?_eq_none, h.absolute, h.segments]

/-- The step up cuts the bytes, and what it leaves of two spellings is again spelled in two ways. -/
theorem parent? (h : p.Respells q) :
    p.parent? = none ∧ q.parent? = none ∨
      ∃ above above', p.parent? = some above ∧ q.parent? = some above' ∧ above.Respells above' := by
  cases hp : p.parent? with
  | none => exact .inl ⟨rfl, h.parent?_eq_none.mpr hp⟩
  | some above =>
    obtain ⟨above', hq⟩ := Option.ne_none_iff_exists'.mp fun hq =>
      Option.some_ne_none above (hp ▸ h.parent?_eq_none.mp hq)
    obtain ⟨-, absolute, -⟩ := parent?_segments hp
    obtain ⟨-, absolute', -⟩ := parent?_segments hq
    obtain ⟨⟨name, segments⟩, -⟩ := parent?_last hp
    obtain ⟨⟨name', segments'⟩, -⟩ := parent?_last hq
    have cut : above'.segments ++ [name'] = above.segments ++ [name] := by
      rw [← segments, ← segments', h.segments]
    refine .inr ⟨above, above', rfl, hq, respells_iff.mpr ⟨?_, (List.append_inj' cut rfl).1⟩⟩
    rw [absolute', absolute, h.absolute]

theorem ancestors (h : p.Respells q) : List.Forall₂ Respells p.ancestors q.ancestors := by
  induction p using Path.ancestors.induct generalizing q with
  | case1 p ih =>
    rcases h.parent? with ⟨hp, hq⟩ | ⟨above, above', hp, hq, up⟩
    · rw [ancestors_of_no_parent hp, ancestors_of_no_parent hq]
      exact .cons h .nil
    · rw [ancestors_of_parent hp, ancestors_of_parent hq]
      exact .cons h (ih above hp up)

theorem above (h : p.Respells q) : List.Forall₂ Respells p.above q.above := by
  have walk := h.ancestors
  rw [ancestors_eq_cons p, ancestors_eq_cons q] at walk
  exact List.forall₂_reverse_iff.mpr (List.forall₂_cons.mp walk).2

end Respells

example : (ofString "/data/out").Respells (ofString "//data///out/") :=
  ⟨by decide +kernel, by decide +kernel⟩

end Path

namespace Request

inductive Respells : Request → Request → Prop where
  | stat {p q : Path} (h : p.Respells q) : Respells (.stat p) (.stat q)
  | mkdir {p q : Path} (mode : UInt32) (h : p.Respells q) : Respells (.mkdir p mode) (.mkdir q mode)
  | create {p q : Path} (mode : UInt32) (h : p.Respells q) :
      Respells (.create p mode) (.create q mode)
  | rmdir {p q : Path} (h : p.Respells q) : Respells (.rmdir p) (.rmdir q)
  | unlink {p q : Path} (h : p.Respells q) : Respells (.unlink p) (.unlink q)
  | rename {p q p' q' : Path} (source : p.Respells q) (target : p'.Respells q') :
      Respells (.rename p p') (.rename q q')
  | truncate {p q : Path} (size : UInt64) (h : p.Respells q) :
      Respells (.truncate p size) (.truncate q size)
  | chmod {p q : Path} (mode : UInt32) (h : p.Respells q) : Respells (.chmod p mode) (.chmod q mode)
  | readDir {p q : Path} (h : p.Respells q) : Respells (.readDir p) (.readDir q)
  | read {p q : Path} (offset : UInt64) (size : UInt32) (h : p.Respells q) :
      Respells (.read p offset size) (.read q offset size)
  | write {p q : Path} (offset : UInt64) (data : Bytes) (h : p.Respells q) :
      Respells (.write p offset data) (.write q offset data)

variable {r r' : Request}

theorem Respells.refl (r : Request) : r.Respells r := by
  cases r with
  | rename source target => exact .rename (.refl source) (.refl target)
  | _ => constructor; rfl

theorem Respells.path (h : r.Respells r') : r.path.Respells r'.path := by
  cases h with
  | rename source _ => exact source
  | _ => assumption

theorem Respells.createsNode (h : r.Respells r') : r'.createsNode = r.createsNode := by
  cases h <;> rfl

theorem Respells.isStat (h : r.Respells r') : r'.isStat = r.isStat := by
  cases h <;> rfl

end Request

namespace Mount

variable {m : Mount} {p q : Path}

theorem resolve_respelled (h : p.Respells q) (m : Mount) : m.resolve q = m.resolve p := by
  rw [resolve, resolve, h.components]

theorem place_respelled (h : p.Respells q) (m : Mount) (nul : Fault) :
    m.place q nul = m.place p nul := by
  rw [place, place, resolve_respelled h]

theorem stat_respelled (h : p.Respells q) (m : Mount) (fs : Filesystem) (who : Ids) :
    m.stat fs who q = m.stat fs who p := by
  rw [stat, stat, place_respelled h]

theorem chown_respelled (h : p.Respells q) (m : Mount) (fs : Filesystem) (who : Ids)
    (uid gid : Option UInt32) : m.chown fs who q uid gid = m.chown fs who p uid gid := by
  rw [chown, chown, place_respelled h]

theorem perform_respelled {r r' : Request} (h : r.Respells r') (m : Mount) (fs : Filesystem)
    (umask : UInt32) (who : Ids) : m.perform fs umask who r' = m.perform fs umask who r := by
  cases h with
  | stat h => simp only [perform, stat_respelled h]
  | rename source target =>
    simp only [perform, places, resolve_respelled source, resolve_respelled target]
  | write offset data h => simp only [perform, write, place_respelled h]
  | mkdir mode h | create mode h | chmod mode h | truncate size h =>
    simp only [perform, place_respelled h]
  | rmdir h | unlink h | readDir h => simp only [perform, place_respelled h]
  | read offset size h => simp only [perform, place_respelled h]

end Mount

end Impersonation
