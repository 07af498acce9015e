import Impersonation.Proofs.Honest
import Impersonation.World

namespace Impersonation

/-- What a thread holds of a group list. The kernel puts it in order. -/
def Credentials.keep : Credentials → List UInt32 → List UInt32
  | simulated => id
  | kernel => (·.mergeSort (· ≤ ·))

@[simp] theorem Ids.get_put (i : Ids) (id : UInt32) (kind : IdKind) :
    (i.put id kind).get kind = id := by
  cases kind <;> rfl

@[simp] theorem Ids.put_get (i : Ids) (kind : IdKind) : i.put (i.get kind) kind = i := by
  cases kind <;> rfl

/-- What is documented of a kernel's calls for ids. No thread has `noId`. A call for an id answers with
the one before, and takes effect only for an id other than `noId`; a call for a group list takes it as
a whole, or fails and takes nothing of it. -/
structure Kernel.Lawful {σ : Type} (k : Kernel σ) : Prop where
  ne_noId : ∀ kind t, (k.ids t).get kind ≠ noId
  previous : ∀ kind id t, (k.ask kind id t).1 = (k.ids t).get kind
  ids_ask : ∀ kind id t, k.ids (k.ask kind id t).2 = k.ids t ∨
    id ≠ noId ∧ k.ids (k.ask kind id t).2 = (k.ids t).put id kind
  keep_perm : ∀ gids, (k.keep gids).Perm gids
  ids_askGroups : ∀ gids t, k.ids (k.askGroups gids t).2 =
    if (k.askGroups gids t).1.isSome then k.ids t else { k.ids t with groups := k.keep gids }

namespace Kernel.Lawful

variable {σ : Type} {k : Kernel σ} (lawful : k.Lawful)
include lawful

/-- Asking for no id leaves all ids as they are, so it tells which one is in force. -/
theorem ids_ask_noId (kind : IdKind) (t : σ) : k.ids (k.ask kind noId t).2 = k.ids t :=
  (lawful.ids_ask kind noId t).resolve_right fun h => h.1 rfl

theorem ids_ask_get (kind : IdKind) (t : σ) :
    k.ids (k.ask kind ((k.ids t).get kind) t).2 = k.ids t := by
  rcases lawful.ids_ask kind ((k.ids t).get kind) t with same | ⟨-, put⟩
  · exact same
  · rw [put, Ids.put_get]

theorem current (kind : IdKind) (id : UInt32) (t : σ) :
    (k.ask kind noId (k.ask kind id t).2).1 = (k.ids (k.ask kind id t).2).get kind :=
  lawful.previous kind noId (k.ask kind id t).2

theorem switch_of_eq {kind : IdKind} {id : UInt32} {t : σ}
    (eq : (k.ids (k.ask kind id t).2).get kind = id) :
    (k.switch kind id t).1 = .ok ((k.ids t).get kind) ∧
      k.ids (k.switch kind id t).2 = (k.ids t).put id kind := by
  have after : k.ids (k.ask kind id t).2 = (k.ids t).put id kind := by
    rcases lawful.ids_ask kind id t with same | ⟨-, put⟩
    · rw [same] at eq ⊢
      rw [← eq, Ids.put_get]
    · exact put
  have readBack := (lawful.current kind id t).trans eq
  simp only [switch, readBack, ne_eq, not_true_eq_false, if_false]
  exact ⟨congrArg _ (lawful.previous kind id t), (lawful.ids_ask_noId ..).trans after⟩

/-- A call that did not leave its id in force did nothing, and so does going back. -/
theorem switch_of_ne {kind : IdKind} {id : UInt32} {t : σ}
    (ne : (k.ids (k.ask kind id t).2).get kind ≠ id) :
    (k.switch kind id t).1 = .error (.os .notPermitted) ∧
      k.ids (k.switch kind id t).2 = k.ids t := by
  have after : k.ids (k.ask kind id t).2 = k.ids t := by
    rcases lawful.ids_ask kind id t with same | ⟨-, put⟩
    · exact same
    · exact absurd (by rw [put, Ids.get_put]) ne
  have asked : k.ids (k.ask kind noId (k.ask kind id t).2).2 = k.ids t :=
    (lawful.ids_ask_noId ..).trans after
  have previous : (k.ask kind id t).1 =
      (k.ids (k.ask kind noId (k.ask kind id t).2).2).get kind := by
    rw [asked, lawful.previous]
  have readBack : (k.ask kind noId (k.ask kind id t).2).1 ≠ id := by
    rwa [lawful.current]
  simp only [switch, ne_eq, readBack, not_false_eq_true, if_true, true_and]
  rw [previous, lawful.ids_ask_get, asked]

theorem switch_cases (kind : IdKind) (id : UInt32) (t : σ) :
    AllOrNothing (k.switch kind id t).1 ((k.ids t).get kind) (k.ids t) ((k.ids t).put id kind)
      (k.ids (k.switch kind id t).2) := by
  by_cases eq : (k.ids (k.ask kind id t).2).get kind = id
  · exact .inr (lawful.switch_of_eq eq)
  · exact .inl ⟨_, lawful.switch_of_ne eq⟩

theorem isOk_switch_iff (kind : IdKind) (id : UInt32) (t : σ) :
    (k.switch kind id t).1.isOk ↔ (k.ids (k.ask kind id t).2).get kind = id := by
  by_cases eq : (k.ids (k.ask kind id t).2).get kind = id
  · simp [(lawful.switch_of_eq eq).1, eq, Except.isOk, Except.toBool]
  · simp [(lawful.switch_of_ne eq).1, eq, Except.isOk, Except.toBool]

/-- A thread cannot be given `noId`. -/
theorem switch_noId (kind : IdKind) (t : σ) :
    (k.switch kind noId t).1 = .error (.os .notPermitted) ∧
      k.ids (k.switch kind noId t).2 = k.ids t :=
  lawful.switch_of_ne (by rw [lawful.ids_ask_noId]; exact lawful.ne_noId kind t)

theorem switchGroups_cases (gids : List UInt32) (t : σ) :
    AllOrNothing (k.switchGroups gids t).1 () (k.ids t) { k.ids t with groups := k.keep gids }
      (k.ids (k.switchGroups gids t).2) := by
  have after := lawful.ids_askGroups gids t
  unfold switchGroups
  split
  next asked =>
    rw [asked] at after
    exact .inl ⟨_, rfl, after⟩
  next asked =>
    rw [asked] at after
    exact .inr ⟨rfl, after⟩

end Kernel.Lawful

namespace KernelThread

theorem kernel_lawful : kernel.Lawful where
  ne_noId
    | .user, t => t.fsuid_ne
    | .group, t => t.fsgid_ne
  previous
    | .user, _, _ => rfl
    | .group, _, _ => rfl
  ids_ask
    | .user, uid, t => by
      simp only [kernel, rawSetFsuid]
      split
      next granted => exact .inr ⟨granted.1, rfl⟩
      next => exact .inl rfl
    | .group, gid, t => by
      simp only [kernel, rawSetFsgid]
      split
      next granted => exact .inr ⟨granted.1, rfl⟩
      next => exact .inl rfl
  keep_perm gids := gids.mergeSort_perm _
  ids_askGroups gids t := by
    simp only [kernel, rawSetGroups]
    split
    · rfl
    · split <;> rfl

variable (t : KernelThread)

theorem setFsuid_cases (uid : UInt32) :
    AllOrNothing (t.setFsuid uid).1 t.ids.fsuid t.ids { t.ids with fsuid := uid }
      (t.setFsuid uid).2.ids :=
  kernel_lawful.switch_cases .user uid t

theorem setFsgid_cases (gid : UInt32) :
    AllOrNothing (t.setFsgid gid).1 t.ids.fsgid t.ids { t.ids with fsgid := gid }
      (t.setFsgid gid).2.ids :=
  kernel_lawful.switch_cases .group gid t

theorem setGroups_cases (gids : List UInt32) :
    AllOrNothing (t.setGroups gids).1 () t.ids
      { t.ids with groups := Credentials.kernel.keep gids } (t.setGroups gids).2.ids :=
  kernel_lawful.switchGroups_cases gids t

theorem ids_raise (cap : Capability) : (t.raise cap).2.ids = t.ids := by
  unfold raise
  split <;> rfl

end KernelThread

namespace SimulatedThread

variable (t : SimulatedThread)

theorem setFsuid_cases (uid : UInt32) :
    AllOrNothing (t.setFsuid uid).1 t.ids.fsuid t.ids { t.ids with fsuid := uid }
      (t.setFsuid uid).2.ids := by
  unfold setFsuid
  dsimp only
  split
  · exact .inl ⟨_, rfl, rfl⟩
  · exact .inr ⟨rfl, rfl⟩

theorem setFsgid_cases (gid : UInt32) :
    AllOrNothing (t.setFsgid gid).1 t.ids.fsgid t.ids { t.ids with fsgid := gid }
      (t.setFsgid gid).2.ids := by
  unfold setFsgid
  dsimp only
  split
  · exact .inl ⟨_, rfl, rfl⟩
  · exact .inr ⟨rfl, rfl⟩

theorem setGroups_cases (gids : List UInt32) :
    AllOrNothing (t.setGroups gids).1 () t.ids
      { t.ids with groups := Credentials.simulated.keep gids } (t.setGroups gids).2.ids := by
  unfold setGroups
  dsimp only
  split
  · exact .inl ⟨_, rfl, rfl⟩
  · exact .inr ⟨rfl, rfl⟩

theorem ids_raise : t.raise.2.ids = t.ids := by
  unfold raise
  split <;> rfl

end SimulatedThread

/-- The calls by which the ids of a thread are changed. What is kept of a thread is a `σ`. -/
structure IdCalls (σ : Type) where
  ids : σ → Ids
  setFsuid : UInt32 → σ → Except Fault UInt32 × σ
  setFsgid : UInt32 → σ → Except Fault UInt32 × σ
  setGroups : List UInt32 → σ → Except Fault Unit × σ

def SimulatedThread.calls : IdCalls SimulatedThread where
  ids := ids
  setFsuid uid t := t.setFsuid uid
  setFsgid gid t := t.setFsgid gid
  setGroups gids t := t.setGroups gids

def Kernel.calls {σ : Type} (k : Kernel σ) : IdCalls σ where
  ids := k.ids
  setFsuid := k.switch .user
  setFsgid := k.switch .group
  setGroups := k.switchGroups

/-- A change takes effect, answers what was in force before and changes nothing else, or it fails and
leaves all ids as they were. A group list may be kept in another order. -/
structure IdCalls.Contract {σ : Type} (c : IdCalls σ) (keep : List UInt32 → List UInt32) : Prop where
  keep_perm : ∀ gids, (keep gids).Perm gids
  setFsuid : ∀ uid t, AllOrNothing (c.setFsuid uid t).1 (c.ids t).fsuid (c.ids t)
    { c.ids t with fsuid := uid } (c.ids (c.setFsuid uid t).2)
  setFsgid : ∀ gid t, AllOrNothing (c.setFsgid gid t).1 (c.ids t).fsgid (c.ids t)
    { c.ids t with fsgid := gid } (c.ids (c.setFsgid gid t).2)
  setGroups : ∀ gids t, AllOrNothing (c.setGroups gids t).1 () (c.ids t)
    { c.ids t with groups := keep gids } (c.ids (c.setGroups gids t).2)

theorem SimulatedThread.calls_contract : calls.Contract id where
  keep_perm := List.Perm.refl
  setFsuid uid t := t.setFsuid_cases uid
  setFsgid gid t := t.setFsgid_cases gid
  setGroups gids t := t.setGroups_cases gids

theorem Kernel.Lawful.calls_contract {σ : Type} {k : Kernel σ} (lawful : k.Lawful) :
    k.calls.Contract k.keep where
  keep_perm := lawful.keep_perm
  setFsuid := lawful.switch_cases .user
  setFsgid := lawful.switch_cases .group
  setGroups := lawful.switchGroups_cases

/-- A simulated thread and a thread of a kernel change their ids as a whole or not at all. On a kernel,
which reports no failure of its own, a single id is answered well exactly if the kernel's call left it
in force, and `noId` is refused and changes nothing. -/
theorem ids_changed_or_kept {σ : Type} {k : Kernel σ} (lawful : k.Lawful) :
    SimulatedThread.calls.Contract id ∧ k.calls.Contract k.keep ∧
    ∀ t,
      (∀ uid, (k.calls.setFsuid uid t).1.isOk ↔ (k.ids (k.ask .user uid t).2).fsuid = uid) ∧
      (∀ gid, (k.calls.setFsgid gid t).1.isOk ↔ (k.ids (k.ask .group gid t).2).fsgid = gid) ∧
      ((k.calls.setFsuid noId t).1 = .error (.os .notPermitted) ∧
        k.ids (k.calls.setFsuid noId t).2 = k.ids t) ∧
      ((k.calls.setFsgid noId t).1 = .error (.os .notPermitted) ∧
        k.ids (k.calls.setFsgid noId t).2 = k.ids t) := by
  refine ⟨SimulatedThread.calls_contract, lawful.calls_contract, fun t => ⟨?_, ?_, ?_, ?_⟩⟩
  · exact fun uid => lawful.isOk_switch_iff .user uid t
  · exact fun gid => lawful.isOk_switch_iff .group gid t
  · exact lawful.switch_noId .user t
  · exact lawful.switch_noId .group t

/-- A thread without privileges takes on its own user id again, and is refused the superuser's. -/
theorem ids_changed_or_kept_unprivileged :
    let t : KernelThread :=
      { fsuid := 1002, fsgid := 900, groups := [800], ownUids := [1001], ownGids := [900]
        holds := fun _ _ => false }
    KernelThread.kernel.Lawful ∧
    ((t.setFsuid 1001).1 = .ok 1002 ∧ (t.setFsuid 1001).2.ids = ⟨1001, 900, [800]⟩) ∧
    ((t.setFsuid 0).1 = .error (.os .notPermitted) ∧ (t.setFsuid 0).2.ids = t.ids) ∧
    ((t.setFsuid noId).1 = .error (.os .notPermitted) ∧ (t.setFsuid noId).2.ids = t.ids) := by
  intro t
  have lawful := KernelThread.kernel_lawful
  obtain ⟨-, changes, refuses⟩ := ids_changed_or_kept lawful
  obtain ⟨ok_iff, -, none, -⟩ := refuses t
  have own : (t.setFsuid 1001).1.isOk := (ok_iff 1001).2 rfl
  have root : ¬ (t.setFsuid 0).1.isOk := fun ok => absurd ((ok_iff 0).1 ok) (by decide)
  refine ⟨lawful, (changes.setFsuid 1001 t).of_isOk own, ?_, none⟩
  rcases changes.setFsuid 0 t with ⟨f, failed, kept⟩ | ⟨ok, -⟩
  · exact ⟨rfl, kept⟩
  · exact absurd (by rw [show (t.setFsuid 0).1 = _ from ok]; rfl) root

end Impersonation
