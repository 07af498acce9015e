import Impersonation.Proofs.Credentials

namespace Impersonation

/-- The part of a site that no call changes. -/
def Site.settled (s : Site) :
    Credentials × List CapabilityRule × Users × List (String × Errno) × List (String × Errno) :=
  (s.credentials, s.rules, s.users, s.lookupFailures, s.groupFailures)

namespace Station

def view : View Station :=
  ⟨fun s => ⟨s.ids, s.thread.flags⟩, fun s => s.site.credentials.keep⟩

/-- What a call may change of a site: its storage, what is counted, the umask, and whether switching
was given up. -/
theorem site_answer (c : Call) (s : Station) :
    ∃ storage visits lookups umask, (answer c s).2.site =
      { s.site with
        storage, visits, lookups, umask
        switchingDisabled := c = .disableSwitching || s.site.switchingDisabled } := by
  cases c with
  | ids | hasCapability _ _ | scopeFlags | setActive _ | poison | switchingDisabled
  | disableSwitching | setUmask _ | findUser _ => exact ⟨_, _, _, _, rfl⟩
  | setFsuid _ | setFsgid _ | setGroups _ =>
    simp only [answer, setFsuid, setFsgid, setGroups]
    split <;> exact ⟨_, _, _, _, rfl⟩
  | raiseCapability _ =>
    simp only [answer, raise]
    split
    · exact ⟨_, _, _, _, rfl⟩
    · split <;> exact ⟨_, _, _, _, rfl⟩
  | listGroups _ _ =>
    simp only [answer, listGroups]
    split
    · exact ⟨_, _, _, _, rfl⟩
    · split <;> exact ⟨_, _, _, _, rfl⟩
  | perform r =>
    simp only [answer, perform]
    split
    · exact ⟨_, _, _, _, rfl⟩
    · split <;> exact ⟨_, _, _, _, rfl⟩
    · exact ⟨_, _, _, _, rfl⟩
  | probe _ =>
    simp only [answer, probe]
    split <;> exact ⟨_, _, _, _, rfl⟩
  | setOwner _ _ _ =>
    simp only [answer, setOwner]
    split
    · split <;> exact ⟨_, _, _, _, rfl⟩
    · exact ⟨_, _, _, _, rfl⟩
    · split <;> exact ⟨_, _, _, _, rfl⟩

theorem settled_answer (c : Call) (s : Station) :
    (answer c s).2.site.settled = s.site.settled := by
  obtain ⟨storage, visits, lookups, umask, eq⟩ := s.site_answer c
  rw [eq]
  rfl

theorem credentials_answer (c : Call) (s : Station) :
    (answer c s).2.site.credentials = s.site.credentials :=
  congrArg Prod.fst (settled_answer c s)

theorem thread_answer_storage {c : Call} (hc : c.isStorage) (s : Station) :
    (answer c s).2.thread = s.thread := by
  cases c with
  | perform r =>
    simp only [answer, perform]
    split
    · rfl
    · split <;> rfl
    · rfl
  | probe _ =>
    simp only [answer, probe]
    split <;> rfl
  | setOwner _ _ _ =>
    simp only [answer, setOwner]
    split
    · split <;> rfl
    · rfl
    · split <;> rfl
  | _ => simp [Call.isStorage] at hc

theorem storage_of_not_isStorage {c : Call} (hc : c.isStorage = false) (s : Station) :
    (answer c s).2.site.storage = s.site.storage := by
  cases c with
  | perform _ | probe _ | setOwner _ _ _ => cases hc
  | setFsuid _ | setFsgid _ | setGroups _ =>
    simp only [answer, setFsuid, setFsgid, setGroups]
    split <;> rfl
  | raiseCapability _ =>
    simp only [answer, raise]
    split
    · rfl
    · split <;> rfl
  | listGroups _ _ =>
    simp only [answer, listGroups]
    split
    · rfl
    · split <;> rfl
  | _ => rfl

/-- The standing goes by the thread and the credentials alone. -/
theorem standing_congr {s t : Station} (hthread : t.thread = s.thread)
    (hcred : t.site.credentials = s.site.credentials) :
    view.standing t = view.standing s := by
  simp [view, ids, hthread, hcred]

theorem honest : Honest answer view where
  keep_nil s := by
    simp only [view]
    cases s.site.credentials <;> simp [Credentials.keep]
  keep_call c s := congrArg Credentials.keep (credentials_answer c s)
  obeys c s := by
    cases c with
    | ids | scopeFlags => exact ⟨rfl, rfl⟩
    | hasCapability _ _ | setActive _ | poison | switchingDisabled | disableSwitching | setUmask _
    | findUser _ => rfl
    | perform r => exact standing_congr (thread_answer_storage rfl s) (credentials_answer _ s)
    | probe p => exact standing_congr (thread_answer_storage rfl s) (credentials_answer _ s)
    | setOwner p uid gid =>
      exact standing_congr (thread_answer_storage rfl s) (credentials_answer _ s)
    | listGroups name primary =>
      refine standing_congr ?_ (credentials_answer _ s)
      simp only [answer, listGroups]
      split
      · rfl
      · split <;> rfl
    | setFsuid uid =>
      simp only [Call.Obeys, view, answer, setFsuid, ids, Thread.ids]
      cases hc : s.site.credentials with
      | simulated =>
        have cases := s.thread.simulated.setFsuid_cases uid
        simpa [AllOrNothing, setSimulated, hc, Standing.withFsuid] using cases
      | kernel =>
        have cases := s.thread.kernel.setFsuid_cases uid
        simpa [AllOrNothing, setKernel, hc, Standing.withFsuid] using cases
    | setFsgid gid =>
      simp only [Call.Obeys, view, answer, setFsgid, ids, Thread.ids]
      cases hc : s.site.credentials with
      | simulated =>
        have cases := s.thread.simulated.setFsgid_cases gid
        simpa [AllOrNothing, setSimulated, hc, Standing.withFsgid] using cases
      | kernel =>
        have cases := s.thread.kernel.setFsgid_cases gid
        simpa [AllOrNothing, setKernel, hc, Standing.withFsgid] using cases
    | setGroups gids =>
      simp only [Call.Obeys, view, answer, setGroups, ids, Thread.ids]
      cases hc : s.site.credentials with
      | simulated =>
        have cases := s.thread.simulated.setGroups_cases gids
        simpa [AllOrNothing, setSimulated, hc, Standing.withGroups] using cases
      | kernel =>
        have cases := s.thread.kernel.setGroups_cases gids
        simpa [AllOrNothing, setKernel, hc, Standing.withGroups] using cases
    | raiseCapability cap =>
      change view.standing (s.raise cap).2 = view.standing s
      unfold raise
      split
      · rfl
      · cases hc : s.site.credentials with
        | simulated => simp [view, ids, Thread.ids, setSimulated, hc, SimulatedThread.ids_raise]
        | kernel => simp [view, ids, Thread.ids, setKernel, hc, KernelThread.ids_raise]

end Station

end Impersonation
