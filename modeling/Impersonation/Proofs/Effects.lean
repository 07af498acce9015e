import Impersonation.Host.Mount
import Impersonation.Proofs.Turn

namespace Impersonation

namespace Filesystem

open Impersonation.Tree (bind_eq_ok)

variable {fs next : Filesystem} {who : Ids} {l : Location}

/-- What is not at or below `top` is the same in both file systems. -/
def SameOutside (top : Location) (fs next : Filesystem) : Prop :=
  ∀ l, ¬ top <+: l → next.find? l = fs.find? l

theorem SameOutside.refl (top : Location) (fs : Filesystem) : SameOutside top fs fs :=
  fun _ _ => rfl

theorem SameOutside.trans {top : Location} {fs₁ : Filesystem} (h : SameOutside top fs fs₁)
    (h' : SameOutside top fs₁ next) : SameOutside top fs next :=
  fun l outside => (h' l outside).trans (h l outside)

theorem lookup_filter_ne {nodes : List (Location × Node)} {l q : Location} (h : q ≠ l) :
    (nodes.filter (·.1 ≠ l)).lookup q = nodes.lookup q := by
  induction nodes with
  | nil => rfl
  | cons n rest ih =>
    obtain ⟨k, n⟩ := n
    by_cases hk : k = l
    · have miss : (q == k) = false := by simpa [hk] using h
      rw [List.filter_cons_of_neg (by simp [hk]), List.lookup_cons, miss, ih]
    · rw [List.filter_cons_of_pos (by simp [hk]), List.lookup_cons, List.lookup_cons, ih]

theorem find?_put_of_ne {q : Location} (h : q ≠ l) (n : Node) : (fs.put l n).find? q = fs.find? q := by
  have miss : (q == l) = false := by simpa using h
  rw [find?, put, List.lookup_cons, miss]
  exact lookup_filter_ne h

theorem SameOutside.put {top : Location} (h : top <+: l) (n : Node) :
    SameOutside top fs (fs.put l n) := by
  intro q outside
  have apart : q ≠ l := fun eq => outside (eq ▸ h)
  exact find?_put_of_ne apart n

theorem SameOutside.erase {top : Location} (h : top <+: l) : SameOutside top fs (fs.erase l) := by
  intro q outside
  have apart : q ≠ l := fun eq => outside (eq ▸ h)
  exact lookup_filter_ne apart

/-- A node that is moved was below the source and comes to be below the target. -/
theorem SameOutside.move {top source target : Location} (hs : top <+: source)
    (ht : top <+: target) : SameOutside top fs (fs.move source target) := by
  intro q outside
  have apart : q ≠ target := fun eq => outside (eq ▸ ht)
  have kept : fs.find? q = (fs.nodes.filter (·.1 ≠ target)).lookup q :=
    (lookup_filter_ne apart).symm
  rw [kept, find?, Filesystem.move]
  generalize fs.nodes.filter (·.1 ≠ target) = nodes
  induction nodes with
  | nil => rfl
  | cons n rest ih =>
    obtain ⟨k, n⟩ := n
    rw [List.map_cons, List.lookup_cons]
    by_cases moved : source.isPrefixOf k
    · have below : top <+: k := hs.trans (List.isPrefixOf_iff_prefix.mp moved)
      have old : (q == k) = false := by
        simpa using fun eq : q = k => outside (eq ▸ below)
      have new : (q == target ++ k.drop source.length) = false := by
        simpa using fun eq : q = _ => outside (eq ▸ ht.trans (List.prefix_append _ _))
      simp only [if_pos moved, List.lookup_cons, new, old, ih]
    · simp only [if_neg moved, List.lookup_cons, ih]

theorem of_guard {α β : Type} {c : Prop} [Decidable c] {f : Fault} {k : β → Except Fault α}
    {x : Except Fault α} {a : α} (h : (if c then .error f >>= k else x) = .ok a) : x = .ok a := by
  split at h
  next => cases h
  next => exact h

theorem make_eq_ok {kind mode : UInt32} (h : fs.make who l kind mode = .ok next) :
    ∃ n, next = fs.put l n := by
  obtain ⟨⟨above, existing⟩, -, h⟩ := bind_eq_ok (of_guard h)
  cases of_guard (of_guard h)
  exact ⟨_, rfl⟩

theorem rmdir_eq_ok (h : fs.rmdir who l = .ok next) : next = fs.erase l := by
  obtain ⟨⟨_, n⟩, -, h⟩ := bind_eq_ok h
  cases of_guard (of_guard h)
  rfl

theorem unlink_eq_ok (h : fs.unlink who l = .ok next) : next = fs.erase l := by
  obtain ⟨⟨_, n⟩, -, h⟩ := bind_eq_ok h
  cases of_guard h
  rfl

theorem rename_eq_ok {source target : Location} (h : fs.rename who source target = .ok next) :
    next = fs ∨ next = fs.move source target := by
  obtain ⟨⟨_, moving⟩, -, h⟩ := bind_eq_ok h
  obtain ⟨⟨above, existing⟩, -, h⟩ := bind_eq_ok h
  cases moving with
  | none => cases h
  | some n =>
    dsimp only at h
    split at h
    next =>
      cases h
      exact .inl rfl
    next =>
      obtain ⟨_, -, h⟩ := bind_eq_ok (of_guard (of_guard h))
      cases existing with
      | none =>
        cases of_guard (of_guard h)
        exact .inr rfl
      | some there =>
        obtain ⟨_, -, h⟩ := bind_eq_ok h
        obtain ⟨_, -, h⟩ := bind_eq_ok h
        cases of_guard h
        exact .inr rfl

theorem truncate_eq_ok {size : Nat} (h : fs.truncate who l size = .ok next) :
    ∃ n, next = fs.put l n := by
  obtain ⟨n, -, h⟩ := bind_eq_ok h
  cases of_guard (of_guard h)
  exact ⟨_, rfl⟩

theorem chmod_eq_ok {mode : UInt32} (h : fs.chmod who l mode = .ok next) :
    ∃ n, next = fs.put l n := by
  obtain ⟨n, -, h⟩ := bind_eq_ok h
  cases of_guard h
  exact ⟨_, rfl⟩

theorem chown_eq_ok {uid gid : Option UInt32} (h : fs.chown who l uid gid = .ok next) :
    ∃ n, next = fs.put l n := by
  obtain ⟨n, -, h⟩ := bind_eq_ok h
  cases of_guard h
  exact ⟨_, rfl⟩

theorem write_eq_ok {offset count : Nat} {data : Bytes}
    (h : fs.write who l offset data = .ok (count, next)) : next = fs ∨ ∃ n, next = fs.put l n := by
  obtain ⟨n, -, h⟩ := bind_eq_ok h
  have h := of_guard h
  split at h
  next =>
    cases h
    exact .inl rfl
  next =>
    cases of_guard h
    exact .inr ⟨_, rfl⟩

end Filesystem

end Impersonation
