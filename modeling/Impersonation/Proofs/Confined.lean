import Impersonation.Proofs.Effects
import Impersonation.Proofs.Prefixes

namespace Impersonation

def Request.paths : Request → List Path
  | .rename source target => [source, target]
  | r => [r.path]

/-- What a request does to a file system, at the places that its paths stand for. -/
def Filesystem.perform (fs : Filesystem) (umask : UInt32) (who : Ids) (place : Path → Location) :
    Request → Response × Filesystem
  | .stat p => (.ofResult ((fs.stat who (place p)).map .attr), fs)
  | .mkdir p mode =>
    Mount.answered fs
      (fs.make who (place p) Mode.directory (mode &&& Mode.forMkdir &&& ~~~umask))
  | .create p mode =>
    Mount.answered fs
      (fs.make who (place p) Mode.regular (mode &&& Mode.permissions &&& ~~~umask))
  | .rmdir p => Mount.answered fs (fs.rmdir who (place p))
  | .unlink p => Mount.answered fs (fs.unlink who (place p))
  | .rename source target => Mount.answered fs (fs.rename who (place source) (place target))
  | .truncate p size => Mount.answered fs (fs.truncate who (place p) size.toNat)
  | .chmod p mode => Mount.answered fs (fs.chmod who (place p) mode)
  | .readDir p => (.ofResult ((fs.readDir who (place p)).map .entries), fs)
  | .read p offset size =>
    (.ofResult ((fs.read who (place p) offset.toNat size.toNat).map .data), fs)
  | .write p offset data =>
    match fs.write who (place p) offset.toNat data with
    | .ok (count, next) => (.written count, next)
    | .error f => (.ofFault f, fs)

namespace Mount

open Impersonation.Path (segmentsOf mem_segmentsOf)

theorem segmentsOf_join {base name : Bytes} (hne : name ≠ []) (free : slash ∉ name) :
    segmentsOf (join base name) = segmentsOf base ++ [name] := by
  have after (front : Bytes) : segmentsOf (front ++ slash :: name) = segmentsOf front ++ [name] := by
    rw [Path.segmentsOf_append, Path.segmentsOf_name hne free]
  unfold join
  split
  next h =>
    rcases h with rfl | h
    · exact Path.segmentsOf_name hne free
    · obtain ⟨front, rfl⟩ := List.getLast?_eq_some_iff.mp h
      rw [List.append_assoc, List.singleton_append, after, Path.segmentsOf_append]
      simp [segmentsOf]
  next => exact after base

theorem head?_join {base name : Bytes} (hne : name ≠ []) (free : slash ∉ name) :
    (join base name).head? = some slash ↔ base.head? = some slash := by
  obtain ⟨b, rest, rfl⟩ := List.exists_cons_of_ne_nil hne
  have hb : b ≠ slash := fun h => free (h ▸ List.mem_cons_self)
  cases base with
  | nil => simp [join, hb]
  | cons c base =>
    unfold join
    split <;> simp

/-- Names are put behind a host path one by one, unless one of them goes up. -/
theorem extend_names {names : List Bytes} (hnames : ∀ s ∈ names, s ≠ [] ∧ slash ∉ s) (base : Bytes) :
    if Path.dotDot ∈ names then
      extend base (names.map Path.componentOf) = .error (.os .invalidArgument)
    else
      ∃ host, extend base (names.map Path.componentOf) = .ok host ∧
        segmentsOf host = segmentsOf base ++ names ∧
        (host.head? = some slash ↔ base.head? = some slash) := by
  induction names generalizing base with
  | nil => exact ⟨base, rfl, (List.append_nil _).symm, Iff.rfl⟩
  | cons s rest ih =>
    obtain ⟨hne, free⟩ := hnames s List.mem_cons_self
    have next := ih (fun s h => hnames s (List.mem_cons_of_mem _ h)) (join base s)
    by_cases up : s = Path.dotDot
    · rw [if_pos (by simp [up])]
      simp [Path.componentOf, up, extend]
    · have step : extend base ((s :: rest).map Path.componentOf) =
          extend (join base s) (rest.map Path.componentOf) := by
        simp [Path.componentOf, up, extend]
      have mem : Path.dotDot ∈ s :: rest ↔ Path.dotDot ∈ rest := by simp [Ne.symm up]
      simp only [step, mem]
      split
      next later => rwa [if_pos later] at next
      next never =>
        rw [if_neg never] at next
        obtain ⟨host, eq, segments, head⟩ := next
        refine ⟨host, eq, ?_, head.trans (head?_join hne free)⟩
        rw [segments, segmentsOf_join hne free, List.append_assoc, List.singleton_append]

theorem extend_lead (base : Bytes) (p : Path) (cs : List Component) :
    extend base (p.lead ++ cs) = extend base cs := by
  unfold Path.lead
  split
  · rfl
  · split <;> rfl

variable (m : Mount)

def names (p : Path) : List Bytes :=
  p.segments.filter (· ≠ Path.dot)

theorem mem_names {p : Path} {s : Bytes} : s ∈ names p ↔ s ∈ p.segments ∧ s ≠ Path.dot := by
  simp [names]

theorem resolve_cases (p : Path) :
    if Path.dotDot ∈ p.segments then m.resolve p = .error (.os .invalidArgument)
    else ∃ host, m.resolve p = .ok host ∧ host.segments = m.root.segments ++ names p ∧
      host.isAbsolute = m.root.isAbsolute := by
  have hnames : ∀ s ∈ names p, s ≠ [] ∧ slash ∉ s := fun s h =>
    mem_segmentsOf (mem_names.mp h).1
  have cases := extend_names hnames m.root.bytes
  have up : Path.dotDot ∈ names p ↔ Path.dotDot ∈ p.segments := by
    simp [mem_names, show Path.dotDot ≠ Path.dot by decide]
  have resolved : m.resolve p =
      (extend m.root.bytes ((names p).map Path.componentOf)).map Path.mk := by
    rw [resolve, Path.components, extend_lead]
    rfl
  rw [resolved]
  split at cases
  next h =>
    rw [if_pos (up.mp h), cases]
    rfl
  next h =>
    rw [if_neg fun h' => h (up.mpr h')]
    obtain ⟨host, eq, segments, head⟩ := cases
    rw [eq]
    exact ⟨⟨host⟩, rfl, segments, by simp [Path.isAbsolute, head]⟩

/-- A path is refused if it goes up, whatever else it holds. -/
theorem resolve_eq_error {p : Path} :
    m.resolve p = .error (.os .invalidArgument) ↔ Path.dotDot ∈ p.segments := by
  have cases := m.resolve_cases p
  split at cases
  next up => exact ⟨fun _ => up, fun _ => cases⟩
  next stays =>
    obtain ⟨host, eq, -⟩ := cases
    exact ⟨fun h => by simp [eq] at h, fun h => absurd h stays⟩

theorem resolve_eq_ok {p : Path} (stays : Path.dotDot ∉ p.segments) :
    ∃ host, m.resolve p = .ok host ∧ host.segments = m.root.segments ++ names p ∧
      host.isAbsolute = m.root.isAbsolute := by
  have cases := m.resolve_cases p
  rwa [if_neg stays] at cases

/-- The host path has the components of the root, and the names of the request path behind them. -/
theorem resolve_components {p host : Path} (h : m.resolve p = .ok host) :
    host.components = m.root.components ++ (names p).map .name := by
  have stays : Path.dotDot ∉ p.segments := fun up => by
    rw [m.resolve_eq_error.mpr up] at h
    cases h
  obtain ⟨host', eq, segments, absolute⟩ := m.resolve_eq_ok stays
  obtain rfl : host = host' := Except.ok.inj (h.symm.trans eq)
  have kept : (names p).filter (· ≠ Path.dot) = names p := by simp [names]
  have named : (names p).map Path.componentOf = (names p).map .name := by
    refine List.map_congr_left fun s hs => if_neg fun up => stays ?_
    exact up ▸ (mem_names.mp hs).1
  have lead : host.lead = m.root.lead := by
    unfold Path.lead
    rw [absolute, segments]
    cases hroot : m.root.segments with
    | nil =>
      have first : (names p).head? ≠ some Path.dot := fun h => by
        have := List.mem_of_mem_head? h
        exact (mem_names.mp this).2 rfl
      rw [List.nil_append, if_neg first]
      rfl
    | cons s rest => rfl
  rw [Path.components, Path.components, lead, segments, List.filter_append, kept, List.map_append,
    named, List.append_assoc]

example : (mk (.ofString "/srv/")).resolve (.ofString "//a/./..b/") = .ok (.ofString "/srv/a/..b") := by
  decide +kernel

def top : Location :=
  names m.root

/-- The place that a request path comes to. -/
def below (p : Path) : Location :=
  m.top ++ names p

/-- Whether the system takes the host path that a request path comes to. -/
def Fits (p : Path) : Prop :=
  ∃ host, m.resolve p = .ok host ∧ 0 ∉ host.bytes ∧ host.bytes.length < maxPath

variable {m} {fs next : Filesystem} {umask : UInt32} {who : Ids}

theorem stays_of_resolve {p host : Path} (h : m.resolve p = .ok host) :
    Path.dotDot ∉ p.segments := fun up => by
  rw [m.resolve_eq_error.mpr up] at h
  cases h

theorem names_resolve {p host : Path} (h : m.resolve p = .ok host) : names host = m.below p := by
  obtain ⟨host', eq, segments, -⟩ := m.resolve_eq_ok (stays_of_resolve h)
  obtain rfl : host = host' := Except.ok.inj (h.symm.trans eq)
  have kept : (names p).filter (· ≠ Path.dot) = names p := by simp [names]
  rw [names, segments, List.filter_append, kept]
  rfl

theorem locate_cases (nul : Fault) (host : Path) :
    if 0 ∉ host.bytes ∧ host.bytes.length < maxPath then locate nul host = .ok (names host)
    else ∃ f ∈ [nul, .os .nameTooLong], locate nul host = .error f := by
  unfold locate
  by_cases zero : 0 ∈ host.bytes
  · rw [if_neg (fun fits => fits.1 zero), if_pos zero]
    exact ⟨nul, by simp, rfl⟩
  · rw [if_neg zero]
    by_cases long : maxPath ≤ host.bytes.length
    · rw [if_neg (fun fits => by omega), if_pos long]
      exact ⟨_, by simp, rfl⟩
    · rw [if_pos ⟨zero, by omega⟩, if_neg long]
      rfl

/-- A path that stays is placed below the root, or the system does not take it. -/
theorem place_cases {p : Path} (stays : Path.dotDot ∉ p.segments) (nul : Fault) :
    m.Fits p ∧ m.place p nul = .ok (m.below p) ∨
      ¬ m.Fits p ∧ ∃ f ∈ [nul, .os .nameTooLong], m.place p nul = .error f := by
  obtain ⟨host, resolved, -⟩ := m.resolve_eq_ok stays
  have placed : m.place p nul = locate nul host := by
    rw [place, resolved]
    rfl
  have located := locate_cases nul host
  rw [placed]
  split at located
  next fits => exact .inl ⟨⟨host, resolved, fits⟩, located.trans (by rw [names_resolve resolved])⟩
  next unfit =>
    refine .inr ⟨?_, located⟩
    rintro ⟨host', eq, fits⟩
    obtain rfl : host = host' := Except.ok.inj (resolved.symm.trans eq)
    exact unfit fits

theorem Fits.stays {p : Path} (fits : m.Fits p) : Path.dotDot ∉ p.segments := by
  obtain ⟨host, resolved, -⟩ := fits
  exact stays_of_resolve resolved

theorem Fits.place {p : Path} (fits : m.Fits p) (nul : Fault) : m.place p nul = .ok (m.below p) := by
  rcases place_cases fits.stays nul with ⟨-, placed⟩ | ⟨unfit, -⟩
  · exact placed
  · exact absurd fits unfit

theorem place_refused {p : Path} (up : Path.dotDot ∈ p.segments) (nul : Fault) :
    m.place p nul = .error (.os .invalidArgument) := by
  rw [place, m.resolve_eq_error.mpr up]
  rfl

theorem place_eq_ok {p : Path} {nul : Fault} {l : Location} (h : m.place p nul = .ok l) :
    l = m.below p := by
  by_cases up : Path.dotDot ∈ p.segments
  · simp [place_refused up] at h
  · rcases place_cases up nul with ⟨-, placed⟩ | ⟨-, f, -, failed⟩
    · exact (Except.ok.inj (placed.symm.trans h)).symm
    · simp [failed] at h

theorem place_below {p : Path} {nul : Fault} {l : Location} (h : m.place p nul = .ok l) :
    m.top <+: l :=
  place_eq_ok h ▸ List.prefix_append _ _

theorem places_refused {source target p : Path} (mem : p ∈ [source, target])
    (up : Path.dotDot ∈ p.segments) : m.places source target = .error (.os .invalidArgument) := by
  unfold places
  by_cases first : Path.dotDot ∈ source.segments
  · rw [m.resolve_eq_error.mpr first]
    rfl
  · obtain ⟨host, eq, -⟩ := m.resolve_eq_ok first
    have second : Path.dotDot ∈ target.segments := by
      rcases List.mem_pair.mp mem with rfl | rfl
      · exact absurd up first
      · exact up
    rw [eq, m.resolve_eq_error.mpr second]
    rfl

theorem places_eq {source target : Path} (stays : Path.dotDot ∉ target.segments) :
    m.places source target =
      (do return (← m.place source, ← m.place target) : Except Fault _) := by
  obtain ⟨host', resolved', -⟩ := m.resolve_eq_ok stays
  cases resolved : m.resolve source with
  | error f =>
    simp only [places, place, resolved]
    rfl
  | ok host =>
    simp only [places, place, resolved, resolved']
    rfl

theorem places_below {source target : Path} {l l' : Location}
    (h : m.places source target = .ok (l, l')) : m.top <+: l ∧ m.top <+: l' := by
  have stays : Path.dotDot ∉ target.segments := fun up => by
    rw [places_refused (p := target) (by simp) up] at h
    cases h
  rw [places_eq stays] at h
  obtain ⟨l₁, placed, h⟩ := Tree.bind_eq_ok h
  obtain ⟨l₂, placed', h⟩ := Tree.bind_eq_ok h
  cases h
  exact ⟨place_below placed, place_below placed'⟩

theorem perform_refused {r : Request} {p : Path} (mem : p ∈ r.paths)
    (up : Path.dotDot ∈ p.segments) :
    m.perform fs umask who r = (.error .invalidArgument, fs) := by
  cases r with
  | rename source target =>
    rw [perform, places_refused mem up]
    rfl
  | _ =>
    obtain rfl := List.mem_singleton.mp mem
    simp only [perform, stat, write, place_refused up]
    rfl

/-- A request whose paths the system takes is carried out below the root, where its paths come to. -/
theorem perform_fits {r : Request} (fits : ∀ p ∈ r.paths, m.Fits p) :
    m.perform fs umask who r = fs.perform umask who m.below r := by
  cases r with
  | rename source target =>
    have first : m.Fits source := fits source (by simp [Request.paths])
    have second : m.Fits target := fits target (by simp [Request.paths])
    simp only [perform, places_eq second.stays, first.place, second.place]
    rfl
  | _ p =>
    have placed := (fits p List.mem_cons_self).place
    simp only [perform, stat, write, placed]
    rfl

theorem perform_unfit {r : Request} (stay : ∀ p ∈ r.paths, Path.dotDot ∉ p.segments)
    (unfit : ¬ ∀ p ∈ r.paths, m.Fits p) :
    ∃ f ∈ [nulFault, .os .nameTooLong], m.perform fs umask who r = (.ofFault f, fs) := by
  cases r with
  | rename source target =>
    have second : Path.dotDot ∉ target.segments := stay target (by simp [Request.paths])
    simp only [perform, places_eq second]
    rcases place_cases (m := m) (stay source List.mem_cons_self) nulFault with
      ⟨fits, placed⟩ | ⟨-, f, reason, failed⟩
    · rcases place_cases (m := m) second nulFault with ⟨fits', -⟩ | ⟨-, f, reason, failed⟩
      · exact absurd (by simp [Request.paths, fits, fits']) unfit
      · exact ⟨f, reason, by rw [placed, failed]; rfl⟩
    · exact ⟨f, reason, by rw [failed]; rfl⟩
  | _ p =>
    rcases place_cases (m := m) (stay p List.mem_cons_self) nulFault with
      ⟨fits, -⟩ | ⟨-, f, reason, failed⟩
    · exact absurd (List.forall_mem_singleton.mpr fits) unfit
    · refine ⟨f, reason, ?_⟩
      simp only [perform, stat, write, failed]
      rfl

theorem stat_fits {p : Path} (fits : m.Fits p) : m.stat fs who p = fs.stat who (m.below p) := by
  rw [stat, fits.place]
  rfl

theorem chown_fits {p : Path} (fits : m.Fits p) (uid gid : Option UInt32) :
    m.chown fs who p uid gid =
      fs.chown who (m.below p) (uid.filter (· ≠ 4294967295)) (gid.filter (· ≠ 4294967295)) := by
  rw [chown, fits.place]
  rfl

/-- An operation at the place of a path changes nothing outside of the root, if it changes nothing
outside of what is below that place. -/
theorem answered_below {p : Path} {op : Location → Except Fault Filesystem}
    (h : ∀ l next, m.top <+: l → op l = .ok next → fs.SameOutside m.top next) :
    fs.SameOutside m.top (answered fs (do op (← m.place p))).2 := by
  cases result : (do op (← m.place p) : Except Fault Filesystem) with
  | error f => exact .refl _ _
  | ok next =>
    obtain ⟨l, placed, done⟩ := Tree.bind_eq_ok result
    exact h l next (place_below placed) done

theorem answered_both_below {source target : Path}
    {op : Location × Location → Except Fault Filesystem}
    (h : ∀ l l' next, m.top <+: l → m.top <+: l' → op (l, l') = .ok next → fs.SameOutside m.top next) :
    fs.SameOutside m.top (answered fs (m.places source target >>= op)).2 := by
  cases result : m.places source target >>= op with
  | error f => exact .refl _ _
  | ok next =>
    obtain ⟨⟨l, l'⟩, placed, done⟩ := Tree.bind_eq_ok result
    obtain ⟨below, below'⟩ := places_below placed
    exact h l l' next below below' done

/-- What is neither the root nor below it is not changed by any request. -/
theorem perform_below (r : Request) : fs.SameOutside m.top (m.perform fs umask who r).2 := by
  cases r with
  | stat p => exact .refl _ _
  | readDir p => exact .refl _ _
  | read p offset size => exact .refl _ _
  | mkdir p mode =>
    refine answered_below fun l next below h => ?_
    obtain ⟨n, rfl⟩ := Filesystem.make_eq_ok h
    exact .put below n
  | create p mode =>
    refine answered_below fun l next below h => ?_
    obtain ⟨n, rfl⟩ := Filesystem.make_eq_ok h
    exact .put below n
  | rmdir p =>
    refine answered_below fun l next below h => ?_
    rw [Filesystem.rmdir_eq_ok h]
    exact .erase below
  | unlink p =>
    refine answered_below fun l next below h => ?_
    rw [Filesystem.unlink_eq_ok h]
    exact .erase below
  | rename source target =>
    refine answered_both_below fun l l' next below below' h => ?_
    rcases Filesystem.rename_eq_ok h with rfl | rfl
    · exact .refl _ _
    · exact .move below below'
  | truncate p size =>
    refine answered_below fun l next below h => ?_
    obtain ⟨n, rfl⟩ := Filesystem.truncate_eq_ok h
    exact .put below n
  | chmod p mode =>
    refine answered_below fun l next below h => ?_
    obtain ⟨n, rfl⟩ := Filesystem.chmod_eq_ok h
    exact .put below n
  | write p offset data =>
    rw [perform]
    split
    next count next h =>
      obtain ⟨l, placed, h⟩ := Tree.bind_eq_ok h
      rcases Filesystem.write_eq_ok h with rfl | ⟨n, rfl⟩
      · exact .refl _ _
      · exact .put (place_below placed) n
    next => exact .refl _ _

theorem chown_below {p : Path} {uid gid : Option UInt32} (h : m.chown fs who p uid gid = .ok next) :
    fs.SameOutside m.top next := by
  obtain ⟨l, placed, h⟩ := Tree.bind_eq_ok h
  obtain ⟨n, rfl⟩ := Filesystem.chown_eq_ok h
  exact .put (place_below placed) n

end Mount

end Impersonation
