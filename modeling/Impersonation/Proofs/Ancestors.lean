import Impersonation.Path.Components

namespace Impersonation

namespace Path

theorem segmentsOf_slash (bs : Bytes) : segmentsOf (slash :: bs) = segmentsOf bs := by
  simp [segmentsOf]

theorem segmentsOf_ne_nil {b : UInt8} (hb : b ≠ slash) (bs : Bytes) :
    segmentsOf (b :: bs) ≠ [] := by
  unfold segmentsOf
  rw [if_neg hb]
  split
  · simp
  · split
    · simp
    · split <;> simp

/-- A slash parts the segments before it from those behind it. -/
theorem segmentsOf_append (bs cs : Bytes) :
    segmentsOf (bs ++ slash :: cs) = segmentsOf bs ++ segmentsOf cs := by
  induction bs with
  | nil => exact segmentsOf_slash cs
  | cons b rest ih =>
    by_cases hb : b = slash
    · subst hb
      rw [List.cons_append, segmentsOf_slash, segmentsOf_slash, ih]
    · cases rest with
      | nil => simp [segmentsOf, hb]
      | cons c rest =>
        rw [List.cons_append] at ih
        by_cases hc : c = slash
        · simp [segmentsOf, hb, hc] at ih ⊢
          exact ih
        · obtain ⟨s, more, hs⟩ := List.exists_cons_of_ne_nil (segmentsOf_ne_nil hc rest)
          rw [hs] at ih
          rw [List.cons_append, List.cons_append, segmentsOf, segmentsOf]
          simp only [if_neg hb, if_neg hc, ih, hs, List.cons_append]

theorem segmentsOf_slashes {tail : Bytes} (h : ∀ b ∈ tail, b = slash) (bs : Bytes) :
    segmentsOf (bs ++ tail) = segmentsOf bs := by
  induction tail generalizing bs with
  | nil => rw [List.append_nil]
  | cons b tail ih =>
    obtain rfl : b = slash := h b List.mem_cons_self
    rw [segmentsOf_append, ← List.nil_append tail, ih fun b hb => h b (List.mem_cons_of_mem _ hb)]
    simp [segmentsOf]

theorem append_takeWhile_reverse (f : UInt8 → Bool) (bs : Bytes) :
    bs = (bs.reverse.dropWhile f).reverse ++ (bs.reverse.takeWhile f).reverse := by
  rw [← List.reverse_append, List.takeWhile_append_dropWhile, List.reverse_reverse]

theorem trimSlashes_append (bs : Bytes) :
    ∃ tail, bs = trimSlashes bs ++ tail ∧ ∀ b ∈ tail, b = slash := by
  refine ⟨_, append_takeWhile_reverse (· = slash) bs, fun b hb => ?_⟩
  have all := List.all_eq_true.mp (List.all_takeWhile (p := (· = slash)) (l := bs.reverse))
  simpa using all b (List.mem_reverse.mp hb)

theorem segmentsOf_trimSlashes (bs : Bytes) : segmentsOf (trimSlashes bs) = segmentsOf bs := by
  obtain ⟨tail, eq, all⟩ := trimSlashes_append bs
  calc segmentsOf (trimSlashes bs)
      = segmentsOf (trimSlashes bs ++ tail) := (segmentsOf_slashes all _).symm
    _ = segmentsOf bs := by rw [← eq]

/-- What stands before the last segment ends with a slash, unless it is nothing. -/
theorem beforeName_append {bs : Bytes} (h : beforeName bs ≠ []) :
    ∃ front name, beforeName bs = front ++ [slash] ∧ bs = front ++ slash :: name := by
  obtain ⟨last, rest, eq⟩ := List.exists_cons_of_ne_nil fun h' => h (List.reverse_eq_nil_iff.mpr h')
  have hlast : last = slash := by
    have := List.head?_dropWhile_not (· ≠ slash) bs.reverse
    rw [eq] at this
    simpa using this
  subst hlast
  have before : beforeName bs = rest.reverse ++ [slash] := by
    rw [beforeName, eq, List.reverse_cons]
  refine ⟨rest.reverse, (bs.reverse.takeWhile (· ≠ slash)).reverse, before, ?_⟩
  calc bs = beforeName bs ++ (bs.reverse.takeWhile (· ≠ slash)).reverse :=
        append_takeWhile_reverse (· ≠ slash) bs
    _ = _ := by rw [before, List.append_assoc]; rfl

/-- A step up takes segments away from the end and does not change where a path starts. -/
theorem parent?_segments {p q : Path} (h : p.parent? = some q) :
    q.segments <+: p.segments ∧ q.isAbsolute = p.isAbsolute ∧
      (q.isAbsolute = false → q.segments ≠ []) := by
  have front_ne : beforeName (trimSlashes p.bytes) ≠ [] := by
    intro h0
    simp [parent?, h0] at h
  obtain ⟨front, name, before, trimmed⟩ := beforeName_append front_ne
  obtain ⟨tail, bytes, -⟩ := trimSlashes_append p.bytes
  have segments : segmentsOf (trimSlashes (beforeName (trimSlashes p.bytes))) <+: p.segments := by
    rw [segmentsOf_trimSlashes, before, segmentsOf_append, segments, ← segmentsOf_trimSlashes p.bytes,
      trimmed, segmentsOf_append]
    simp [segmentsOf]
  obtain ⟨slashes, above, all⟩ := trimSlashes_append (beforeName (trimSlashes p.bytes))
  have start : p.bytes = beforeName (trimSlashes p.bytes) ++ (name ++ tail) := by
    rw [before]
    conv => lhs; rw [bytes, trimmed]
    simp
  simp only [parent?, if_neg front_ne, Option.some.injEq] at h
  generalize beforeName (trimSlashes p.bytes) = upTo at *
  obtain ⟨b, rest, hb⟩ := List.exists_cons_of_ne_nil front_ne
  have head : p.bytes.head? = some b := by rw [start, hb]; rfl
  split at h
  next empty =>
    -- Only slashes are left, and so the path starts with one.
    subst h
    refine ⟨List.nil_prefix, ?_, by simp [isAbsolute, root]⟩
    rw [empty, List.nil_append] at above
    have : b = slash := all b (above ▸ hb ▸ List.mem_cons_self)
    simp [isAbsolute, head, this, root]
  next hne =>
    subst h
    obtain ⟨c, more, hc⟩ := List.exists_cons_of_ne_nil hne
    have same : b = c := by
      rw [hc, hb] at above
      exact (List.cons.inj above).1
    refine ⟨segments, by simp [isAbsolute, head, hc, same], fun relative => ?_⟩
    rw [Path.segments, hc]
    refine segmentsOf_ne_nil (fun h => ?_) more
    simp [isAbsolute, hc, h] at relative

theorem parent?_components {p q : Path} (h : p.parent? = some q) :
    q.components <+: p.components := by
  obtain ⟨segments, absolute, some_segment⟩ := parent?_segments h
  have lead : q.lead = p.lead := by
    unfold Path.lead
    rw [absolute]
    split
    · rfl
    next relative =>
      have ne := some_segment (by simpa [absolute] using relative)
      obtain ⟨s, more, hs⟩ := List.exists_cons_of_ne_nil ne
      obtain ⟨rest, hp⟩ := segments
      rw [← hp, hs]
      rfl
  rw [components, components, lead]
  exact (List.prefix_append_right_inj _).mpr ((segments.filter _).map _)

theorem mem_ancestors {p q : Path} :
    q ∈ p.ancestors ↔ q = p ∨ ∃ above, p.parent? = some above ∧ q ∈ above.ancestors := by
  cases hp : p.parent? with
  | none => simp [ancestors_of_no_parent hp]
  | some above => simp [ancestors_of_parent hp]

/-- Whatever is at or above a path has components that those of the path start with. -/
theorem components_of_mem_ancestors {p q : Path} (h : q ∈ p.ancestors) :
    q.components <+: p.components := by
  induction p using ancestors.induct with
  | case1 p ih =>
    rcases mem_ancestors.mp h with rfl | ⟨above, hp, h⟩
    · exact List.prefix_refl _
    · exact (ih above hp h).trans (parent?_components hp)

/-- The paths at or above an ancestor come last among those at or above the path. -/
theorem ancestors_of_mem {p q : Path} (h : q ∈ p.ancestors) : q.ancestors <:+ p.ancestors := by
  induction p using ancestors.induct with
  | case1 p ih =>
    rcases mem_ancestors.mp h with rfl | ⟨above, hp, h⟩
    · exact List.suffix_refl _
    · rw [ancestors_of_parent hp]
      exact (ih above hp h).trans (List.suffix_cons _ _)

theorem ancestors_eq_cons (p : Path) : p.ancestors = p :: p.ancestors.tail := by
  rw [ancestors]
  rfl

theorem above_of_parent {p above : Path} (h : p.parent? = some above) :
    p.above = above.above ++ [above] := by
  rw [Path.above, ancestors_of_parent h, List.tail_cons, ancestors_eq_cons above, List.reverse_cons]
  rfl

/-- What is above an ancestor comes first among what is above the path, and the ancestor follows. -/
theorem above_of_mem {p q : Path} (h : q ∈ p.above) : ∃ below, p.above = q.above ++ q :: below := by
  have mem : q ∈ p.ancestors.tail := List.mem_reverse.mp h
  cases hp : p.parent? with
  | none => simp [ancestors_of_no_parent hp] at mem
  | some parent =>
    rw [ancestors_of_parent hp, List.tail_cons] at mem
    obtain ⟨below, eq⟩ := ancestors_of_mem mem
    refine ⟨below.reverse, ?_⟩
    rw [above, ancestors_of_parent hp, List.tail_cons, ← eq, ancestors_eq_cons q]
    simp [above]

end Path

end Impersonation
