namespace Impersonation

variable {ι : Type} [DecidableEq ι] {β : ι → Type}

def assign (r : (i : ι) → β i) (e : (i : ι) × β i) : (i : ι) → β i :=
  fun i => if h : e.1 = i then h ▸ e.2 else r i

/-- A family of values with what is told in their place. -/
def fill (r : (i : ι) → β i) (told : List ((i : ι) × β i)) : (i : ι) → β i :=
  told.foldl assign r

variable {r : (i : ι) → β i} {e : (i : ι) × β i} {told : List ((i : ι) × β i)} {i : ι}

@[simp] theorem assign_same (b : β i) : assign r ⟨i, b⟩ i = b :=
  dif_pos rfl

theorem assign_other (h : e.1 ≠ i) : assign r e i = r i :=
  dif_neg h

@[simp] theorem fill_nil : fill r [] = r := rfl

@[simp] theorem fill_cons : fill r (e :: told) = fill (assign r e) told := rfl

theorem fill_append {told' : List ((i : ι) × β i)} :
    fill r (told ++ told') = fill (fill r told) told' :=
  List.foldl_append

theorem fill_congr {r' : (i : ι) → β i} (h : r i = r' i) : fill r told i = fill r' told i := by
  induction told generalizing r r' with
  | nil => exact h
  | cons e told ih =>
    refine ih ?_
    by_cases same : e.1 = i
    · subst same
      rw [assign_same, assign_same]
    · rw [assign_other same, assign_other same, h]

theorem fill_of_not_mem (h : i ∉ told.map Sigma.fst) : fill r told i = r i := by
  induction told generalizing r with
  | nil => rfl
  | cons e told ih =>
    have apart : e.1 ≠ i := fun same => h (same ▸ List.mem_cons_self)
    rw [fill_cons, ih fun later => h (List.mem_cons_of_mem _ later), assign_other apart]

theorem assign_fill (h : e.1 ∉ told.map Sigma.fst) :
    assign (fill r told) e = fill (assign r e) told := by
  funext i
  by_cases same : e.1 = i
  · subst same
    rw [assign_same, fill_of_not_mem h, assign_same]
  · rw [assign_other same]
    exact fill_congr (assign_other same).symm

end Impersonation
