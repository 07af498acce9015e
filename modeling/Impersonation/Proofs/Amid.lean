import Impersonation.Proofs.OneTurn

namespace Impersonation

open Program

/-- What other threads do to a site between two calls of a thread. -/
structure Interference where
  apply : Site → Site
  settled : ∀ site, (apply site).settled = site.settled

namespace Interference

def Quiet (f : Interference) : Prop :=
  ∀ site, (f.apply site).storage = site.storage

def nothing : Interference :=
  ⟨id, fun _ => rfl⟩

theorem quiet_nothing : nothing.Quiet :=
  fun _ => rfl

def andThen (f f' : Interference) : Interference :=
  ⟨fun site => f'.apply (f.apply site), fun site => (f'.settled _).trans (f.settled site)⟩

theorem Quiet.andThen {f f' : Interference} (h : f.Quiet) (h' : f'.Quiet) : (f.andThen f').Quiet :=
  fun site => (h' _).trans (h site)

/-- Any change of a site that spares what no call changes is an interference, and a quiet one if it
spares the storage too. -/
theorem exists_between {a b : Site} (settled : b.settled = a.settled) :
    ∃ f : Interference, f.apply a = b ∧ (b.storage = a.storage → f.Quiet) := by
  obtain ⟨hc, hr, hu, hl, hg⟩ : _ ∧ _ ∧ _ ∧ _ ∧ _ := by simpa [Site.settled] using settled
  have rest : b = { a with
      storage := b.storage, lookups := b.lookups, visits := b.visits, umask := b.umask
      switchingDisabled := b.switchingDisabled } := by
    rw [← hc, ← hr, ← hu, ← hl, ← hg]
  by_cases same : b.storage = a.storage
  · refine ⟨⟨fun site => { site with
      lookups := b.lookups, visits := b.visits, umask := b.umask
      switchingDisabled := b.switchingDisabled }, fun _ => rfl⟩, ?_, fun _ _ => rfl⟩
    conv => rhs; rw [rest, same]
  · exact ⟨⟨fun site => { site with
      storage := b.storage, lookups := b.lookups, visits := b.visits, umask := b.umask
      switchingDisabled := b.switchingDisabled }, fun _ => rfl⟩, rest.symm, fun h => absurd h same⟩

def meddle (f : Interference) (s : Station × Plan) : Station × Plan :=
  (⟨s.1.thread, f.apply s.1.site⟩, s.2)

theorem credentials_apply (f : Interference) (site : Site) :
    (f.apply site).credentials = site.credentials :=
  congrArg Prod.fst (f.settled site)

theorem standing_meddle (f : Interference) (s : Station × Plan) :
    (Station.view.ofFst Plan).standing (f.meddle s) = (Station.view.ofFst Plan).standing s :=
  Station.standing_congr rfl (f.credentials_apply s.1.site)

theorem keep_meddle (f : Interference) (s : Station × Plan) :
    (Station.view.ofFst Plan).keep (f.meddle s) = (Station.view.ofFst Plan).keep s :=
  congrArg Credentials.keep (f.credentials_apply s.1.site)

theorem Quiet.bears {f : Interference} (quiet : f.Quiet) {site : Site} {t : Tree}
    {s : Station × Plan} (h : Station.Bears site t s) : Station.Bears site t (f.meddle s) :=
  ⟨(f.settled _).trans h.1, (quiet _).trans h.2⟩

end Interference

/-- A thread among others: the first of the interferences comes after the next call, and so on. -/
def Station.amid : Machine ((Station × Plan) × List Interference) := fun c s =>
  match s.2 with
  | [] => ((answer.planned c s.1).1, (answer.planned c s.1).2, [])
  | f :: rest => ((answer.planned c s.1).1, f.meddle (answer.planned c s.1).2, rest)

def Station.amidView : View ((Station × Plan) × List Interference) :=
  (Station.view.ofFst Plan).ofFst (List Interference)

namespace Station

theorem amid_reply (c : Call) (s : (Station × Plan) × List Interference) :
    (amid c s).1 = (answer.planned c s.1).1 := by
  unfold amid
  split <;> rfl

theorem amid_next (c : Call) (s : (Station × Plan) × List Interference) :
    ∃ f : Interference, (amid c s).2 = (f.meddle (answer.planned c s.1).2, s.2.tail) ∧
      ((∀ f ∈ s.2, f.Quiet) → f.Quiet) := by
  unfold amid
  split
  next none => exact ⟨.nothing, by rw [none]; rfl, fun _ => Interference.quiet_nothing⟩
  next f rest some =>
    refine ⟨f, by rw [some]; rfl, fun h => h f ?_⟩
    rw [some]
    exact List.mem_cons_self

theorem amid_honest : Honest amid amidView where
  keep_nil s := honest.planned.keep_nil s.1
  keep_call c s := by
    obtain ⟨f, next, -⟩ := amid_next c s
    change (view.ofFst Plan).keep (amid c s).2.1 = (view.ofFst Plan).keep s.1
    rw [next, f.keep_meddle, honest.planned.keep_call]
  obeys c s := by
    obtain ⟨f, next, -⟩ := amid_next c s
    change c.Obeys _ _ (amid c s).1 ((view.ofFst Plan).standing (amid c s).2.1)
    rw [next, amid_reply, f.standing_meddle]
    exact honest.planned.obeys c s.1

/-- Among quiet others, the tree of a thread changes by the thread's own calls only. -/
theorem amid_onTree {site : Site} (simulated : site.credentials = .simulated) :
    OnTree amid amidView site fun t s => Bears site t s.1 ∧ ∀ f ∈ s.2, f.Quiet := by
  have alone := onTree simulated
  -- What a call does to the tree stays when the others have had their turn.
  have after {c : Call} {s : (Station × Plan) × List Interference} {t : Tree}
      (quiet : ∀ f ∈ s.2, f.Quiet) (h : Bears site t (answer.planned c s.1).2) :
      Bears site t (amid c s).2.1 ∧ ∀ f ∈ (amid c s).2.2, f.Quiet := by
    obtain ⟨f, next, still⟩ := amid_next c s
    rw [next]
    exact ⟨(still quiet).bears h, fun f' h' => quiet f' (List.mem_of_mem_tail h')⟩
  exact {
    keep := fun h => alone.keep h.1
    idle := fun hc h => after h.2 (alone.idle hc h.1)
    findUser := fun user h => (amid_reply _ _).trans (alone.findUser user h.1)
    listGroups := fun user primary h => (amid_reply _ _).trans (alone.listGroups user primary h.1)
    perform := fun r h =>
      ⟨(amid_reply _ _).trans (alone.perform r h.1).1, after h.2 (alone.perform r h.1).2⟩
    probe := fun p h =>
      ⟨(amid_reply _ _).trans (alone.probe p h.1).1, after h.2 (alone.probe p h.1).2⟩
    setOwner := fun p uid gid h => by
      obtain ⟨⟨result, reply⟩, next⟩ := alone.setOwner p uid gid h.1
      exact ⟨⟨result, (amid_reply _ _).trans reply⟩, after h.2 next⟩ }

end Station

end Impersonation
