import Impersonation.Proofs.Ancestors
import Mathlib.Data.List.Infix
import Mathlib.Data.List.TakeWhile

namespace Impersonation

namespace Path

theorem segmentsOf_name {name : Bytes} (hne : name ≠ []) (free : slash ∉ name) :
    segmentsOf name = [name] := by
  induction name with
  | nil => exact absurd rfl hne
  | cons b rest ih =>
    have hb : b ≠ slash := fun h => free (h ▸ List.mem_cons_self)
    cases rest with
    | nil => simp [segmentsOf, hb]
    | cons c rest =>
      have hc : c ≠ slash := fun h => free (h ▸ List.mem_cons_of_mem _ List.mem_cons_self)
      have tail := ih (List.cons_ne_nil _ _) fun h => free (List.mem_cons_of_mem _ h)
      rw [segmentsOf, if_neg hb]
      simp only [if_neg hc, tail]

/-- Bytes are a piece without a slash, or such a piece, a slash and what follows it. -/
theorem pieces_induction {P : Bytes → Prop} (piece : ∀ bs, slash ∉ bs → P bs)
    (cut : ∀ front rest, slash ∉ front → P rest → P (front ++ slash :: rest)) (bs : Bytes) : P bs := by
  by_cases h : slash ∈ bs
  · obtain ⟨front, rest, eq, free⟩ := List.eq_append_cons_of_mem h
    have shorter : rest.length < bs.length := by
      have := congrArg List.length eq
      simp only [List.length_append, List.length_cons] at this
      omega
    rw [eq]
    exact cut front rest free (pieces_induction piece cut rest)
  · exact piece bs h
termination_by bs.length

theorem segmentsOf_piece {bs : Bytes} (free : slash ∉ bs) :
    segmentsOf bs = [bs].filter (· ≠ []) := by
  by_cases hne : bs = []
  · simp [hne, segmentsOf]
  · simp [segmentsOf_name hne free, hne]

/-- The segments are the nonempty pieces between the slashes. -/
theorem segmentsOf_eq_splitOn (bs : Bytes) :
    segmentsOf bs = (bs.splitOn slash).filter (· ≠ []) := by
  induction bs using pieces_induction with
  | piece bs free => rw [segmentsOf_piece free, List.splitOn_eq_singleton free]
  | cut front rest free ih =>
    rw [segmentsOf_append, List.splitOn_append_cons_self, List.filter_append, ih,
      segmentsOf_piece free, List.splitOn_eq_singleton free]

theorem dotDot_mem_segments {p : Path} : dotDot ∈ p.segments ↔ dotDot ∈ p.bytes.splitOn slash := by
  rw [segments, segmentsOf_eq_splitOn]
  simp [show dotDot ≠ [] by decide]

theorem mem_segmentsOf {bs s : Bytes} (h : s ∈ segmentsOf bs) : s ≠ [] ∧ slash ∉ s := by
  induction bs using pieces_induction with
  | piece bs free =>
    rw [segmentsOf_piece free, List.mem_filter, List.mem_singleton] at h
    obtain ⟨rfl, hne⟩ := h
    exact ⟨by simpa using hne, free⟩
  | cut front rest free ih =>
    rw [segmentsOf_append, segmentsOf_piece free, List.mem_append, List.mem_filter,
      List.mem_singleton] at h
    rcases h with ⟨rfl, hne⟩ | h
    · exact ⟨by simpa using hne, free⟩
    · exact ih h

theorem segmentsOf_eq_nil {bs : Bytes} : segmentsOf bs = [] ↔ ∀ b ∈ bs, b = slash := by
  induction bs with
  | nil => simp [segmentsOf]
  | cons b rest ih =>
    by_cases hb : b = slash
    · subst hb
      rw [segmentsOf_slash, ih]
      simp
    · simp [segmentsOf_ne_nil hb, hb]

theorem trimSlashes_eq_nil {bs : Bytes} : trimSlashes bs = [] ↔ segmentsOf bs = [] := by
  rw [segmentsOf_eq_nil, trimSlashes, List.reverse_eq_nil_iff, List.dropWhile_eq_nil_iff]
  simp

theorem getLast?_trimSlashes (bs : Bytes) : (trimSlashes bs).getLast? ≠ some slash := by
  intro h
  have stop := List.head?_dropWhile_not (· = slash) bs.reverse
  rw [trimSlashes, List.getLast?_reverse] at h
  rw [h] at stop
  simp at stop

/-- What follows the last slash is a name, if the bytes do not end with a slash. -/
theorem beforeName_name {bs : Bytes} (hne : bs ≠ []) (hlast : bs.getLast? ≠ some slash) :
    ∃ name, bs = beforeName bs ++ name ∧ name ≠ [] ∧ slash ∉ name := by
  refine ⟨_, append_takeWhile_reverse (· ≠ slash) bs, ?_, ?_⟩
  · obtain ⟨b, rest, eq⟩ := List.exists_cons_of_ne_nil fun h => hne (List.reverse_eq_nil_iff.mp h)
    have hb : b ≠ slash := by
      rintro rfl
      rw [← List.head?_reverse, eq] at hlast
      exact hlast rfl
    simp [eq, hb]
  · intro h
    have all := List.all_eq_true.mp (List.all_takeWhile (p := (· ≠ slash)) (l := bs.reverse))
    simpa using all slash (List.mem_reverse.mp h)

theorem segments_eq_concat {p : Path} (h : p.segments ≠ []) :
    ∃ name, p.segments = segmentsOf (beforeName (trimSlashes p.bytes)) ++ [name] := by
  have hne : trimSlashes p.bytes ≠ [] := fun h0 => h (trimSlashes_eq_nil.mp h0)
  obtain ⟨name, eq, name_ne, free⟩ := beforeName_name hne (getLast?_trimSlashes p.bytes)
  refine ⟨name, ?_⟩
  have segments : p.segments = segmentsOf (beforeName (trimSlashes p.bytes) ++ name) := by
    rw [← eq, segmentsOf_trimSlashes]
    rfl
  rw [segments]
  by_cases front_ne : beforeName (trimSlashes p.bytes) = []
  · rw [front_ne, List.nil_append, segmentsOf_name name_ne free]
    rfl
  · obtain ⟨front, -, before, -⟩ := beforeName_append front_ne
    rw [before, List.append_assoc, List.singleton_append, segmentsOf_append, segmentsOf_append,
      segmentsOf_name name_ne free]
    simp [segmentsOf]

/-- A step up takes away the last segment, and comes to the root or to a path that has a segment
and does not end with a slash. -/
theorem parent?_last {p q : Path} (h : p.parent? = some q) :
    (∃ name, p.segments = q.segments ++ [name]) ∧
      (q = root ∨ q.segments ≠ [] ∧ q.bytes.getLast? ≠ some slash) := by
  have front_ne : beforeName (trimSlashes p.bytes) ≠ [] := by
    intro h0
    simp [parent?, h0] at h
  have p_ne : p.segments ≠ [] := by
    intro h0
    rw [trimSlashes_eq_nil.mpr h0] at front_ne
    exact front_ne rfl
  obtain ⟨name, segments⟩ := segments_eq_concat p_ne
  simp only [parent?, if_neg front_ne, Option.some.injEq] at h
  have trimmed : segmentsOf (trimSlashes (beforeName (trimSlashes p.bytes))) =
      segmentsOf (beforeName (trimSlashes p.bytes)) := segmentsOf_trimSlashes _
  subst h
  split
  next empty =>
    refine ⟨⟨name, ?_⟩, .inl rfl⟩
    rw [segments, ← trimmed, empty]
    rfl
  next hne =>
    refine ⟨⟨name, ?_⟩, .inr ⟨?_, getLast?_trimSlashes _⟩⟩
    · rw [segments, ← trimmed]
      rfl
    · intro h0
      exact hne (trimSlashes_eq_nil.mpr (trimmed.symm.trans h0))

/-- Nothing is above a path without segments, nor above a single relative segment. -/
theorem parent?_eq_none {p : Path} :
    p.parent? = none ↔ p.segments = [] ∨ p.isAbsolute = false ∧ p.segments.length = 1 := by
  constructor
  · intro h
    have empty : beforeName (trimSlashes p.bytes) = [] := by
      by_contra hne
      simp [parent?, hne] at h
    by_cases hs : p.segments = []
    · exact .inl hs
    · obtain ⟨name, segments⟩ := segments_eq_concat hs
      have hne : trimSlashes p.bytes ≠ [] := fun h0 => hs (trimSlashes_eq_nil.mp h0)
      obtain ⟨tail, bytes, -⟩ := trimSlashes_append p.bytes
      obtain ⟨base, eq, base_ne, free⟩ := beforeName_name hne (getLast?_trimSlashes p.bytes)
      obtain ⟨b, rest, hb⟩ := List.exists_cons_of_ne_nil base_ne
      refine .inr ⟨?_, by rw [segments, empty]; rfl⟩
      have first : b ≠ slash := fun h => free (hb ▸ h ▸ List.mem_cons_self)
      rw [isAbsolute, bytes, eq, empty, hb]
      simp [first]
  · intro h
    by_contra hsome
    obtain ⟨q, hq⟩ := Option.ne_none_iff_exists'.mp hsome
    obtain ⟨-, absolute, -⟩ := parent?_segments hq
    obtain ⟨⟨name, segments⟩, reached⟩ := parent?_last hq
    rcases h with none_left | ⟨relative, single⟩
    · simp [segments] at none_left
    · rcases reached with rfl | ⟨hne, -⟩
      · rw [relative] at absolute
        exact absurd absolute (by decide)
      · have : q.segments = [] := by simpa [segments] using single
        exact hne this

theorem isAbsolute_of_mem_ancestors {p q : Path} (h : q ∈ p.ancestors) :
    q.isAbsolute = p.isAbsolute := by
  induction p using ancestors.induct with
  | case1 p ih =>
    rcases mem_ancestors.mp h with rfl | ⟨above, hp, h⟩
    · rfl
    · obtain ⟨-, absolute, -⟩ := parent?_segments hp
      exact (ih above hp h).trans absolute

theorem root_ancestors : root.ancestors = [root] :=
  ancestors_of_no_parent (parent?_eq_none.mpr (.inl (by decide)))

/-- The walk up an absolute path goes through all prefixes of its segments, down to none. -/
theorem ancestors_absolute {p : Path} (absolute : p.isAbsolute) (hne : p.segments ≠ []) :
    p.ancestors.map segments = p.segments.inits.reverse ∧ p.ancestors.getLast? = some root := by
  induction p using ancestors.induct with
  | case1 p ih =>
    have some_parent : p.parent? ≠ none := by
      intro h
      rcases parent?_eq_none.mp h with h | ⟨relative, -⟩
      · exact hne h
      · simp [absolute] at relative
    obtain ⟨q, hq⟩ := Option.ne_none_iff_exists'.mp some_parent
    obtain ⟨-, same, -⟩ := parent?_segments hq
    obtain ⟨⟨name, segments⟩, reached⟩ := parent?_last hq
    have inits : p.segments.inits = q.segments.inits ++ [p.segments] := by
      rw [segments, List.inits_append]
      simp
    rw [ancestors_of_parent hq, List.map_cons, inits, List.reverse_concat]
    rcases reached with rfl | ⟨hq_ne, -⟩
    · rw [root_ancestors]
      exact ⟨rfl, rfl⟩
    · obtain ⟨walk, last⟩ := ih q hq (same.trans absolute) hq_ne
      rw [walk]
      refine ⟨rfl, ?_⟩
      rw [ancestors_eq_cons q] at last ⊢
      exact last

/-- The walk up a relative path goes through the prefixes of its segments, down to the first. -/
theorem ancestors_relative {p : Path} (relative : p.isAbsolute = false) (hne : p.segments ≠ []) :
    p.ancestors.map segments = p.segments.inits.tail.reverse := by
  induction p using ancestors.induct with
  | case1 p ih =>
    cases hp : p.parent? with
    | none =>
      rcases parent?_eq_none.mp hp with h | ⟨-, single⟩
      · exact absurd h hne
      · obtain ⟨name, segments⟩ := List.length_eq_one_iff.mp single
        rw [ancestors_of_no_parent hp, List.map_singleton, segments]
        rfl
    | some q =>
      obtain ⟨-, same, -⟩ := parent?_segments hp
      obtain ⟨⟨name, segments⟩, reached⟩ := parent?_last hp
      have hq_ne : q.segments ≠ [] := by
        rcases reached with rfl | ⟨h, -⟩
        · rw [relative] at same
          exact absurd same (by decide)
        · exact h
      have inits : p.segments.inits.tail = q.segments.inits.tail ++ [p.segments] := by
        rw [segments, List.inits_append, List.tail_append_of_ne_nil]
        · simp
        · exact fun h => absurd (congrArg List.length h) (by simp)
      have walk := ih q hp (same.trans relative) hq_ne
      rw [ancestors_of_parent hp, List.map_cons, walk, inits, List.reverse_concat]

/-- Each path of the walk is the one above the path before it, and nothing is above the last. -/
theorem ancestors_isChain (p : Path) :
    p.ancestors.IsChain (fun q above => q.parent? = some above) ∧
      ∀ q, p.ancestors.getLast? = some q → q.parent? = none := by
  induction p using ancestors.induct with
  | case1 p ih =>
    cases hp : p.parent? with
    | none =>
      rw [ancestors_of_no_parent hp]
      refine ⟨List.IsChain.singleton _, fun q h => ?_⟩
      obtain rfl := Option.some.inj h
      exact hp
    | some above =>
      obtain ⟨chain, last⟩ := ih above hp
      rw [ancestors_of_parent hp, ancestors_eq_cons above] at *
      refine ⟨List.isChain_cons_cons.mpr ⟨hp, chain⟩, fun q h => last q ?_⟩
      rwa [List.getLast?_cons_cons] at h

theorem getLast?_of_mem_tail {p q : Path} (h : q ∈ p.ancestors.tail) :
    q = root ∨ q.bytes.getLast? ≠ some slash := by
  induction p using ancestors.induct with
  | case1 p ih =>
    cases hp : p.parent? with
    | none => simp [ancestors_of_no_parent hp] at h
    | some above =>
      rw [ancestors_of_parent hp, List.tail_cons, ancestors_eq_cons above] at h
      rcases List.mem_cons.mp h with rfl | h
      · obtain ⟨-, reached⟩ := parent?_last hp
        exact reached.imp id And.right
      · exact ih above hp h

/-- The walk up a path enumerates the prefixes of its segments: for an absolute path all of them,
the root last, for a relative path all but the empty one. -/
theorem ancestors_enumerate (p : Path) :
    p.segments = (p.bytes.splitOn slash).filter (· ≠ []) ∧
    p.ancestors.head? = some p ∧
    (p.isAbsolute → p.segments ≠ [] →
      p.ancestors.map segments = p.segments.inits.reverse ∧
      p.ancestors.length = p.segments.length + 1 ∧
      (∀ q ∈ p.ancestors, q.isAbsolute) ∧ p.ancestors.getLast? = some root) ∧
    (p.isAbsolute = false → p.segments ≠ [] →
      p.ancestors.map segments = p.segments.inits.tail.reverse ∧
      p.ancestors.length = p.segments.length ∧ ∀ q ∈ p.ancestors, q.isAbsolute = false) ∧
    (p.segments = [] → p.ancestors = [p]) ∧
    p.ancestors.IsChain (fun q above =>
      q.parent? = some above ∧ above.bytes.length < q.bytes.length) ∧
    (∀ q ∈ p.ancestors.tail, q = root ∨ q.bytes.getLast? ≠ some slash) ∧
    (p.parent? = none ↔
      p.bytes = [] ∨ (∀ b ∈ p.bytes, b = slash) ∨
        p.isAbsolute = false ∧ p.segments.length = 1) := by
  refine ⟨segmentsOf_eq_splitOn p.bytes, ?_, fun absolute hne => ?_, fun relative hne => ?_,
    fun empty => ?_, ?_, fun q h => getLast?_of_mem_tail h, ?_⟩
  · rw [ancestors_eq_cons]
    rfl
  · obtain ⟨walk, last⟩ := ancestors_absolute absolute hne
    have length := congrArg List.length walk
    rw [List.length_map, List.length_reverse, List.length_inits] at length
    exact ⟨walk, length, fun q h => (isAbsolute_of_mem_ancestors h).trans absolute, last⟩
  · have walk := ancestors_relative relative hne
    have length := congrArg List.length walk
    rw [List.length_map, List.length_reverse, List.length_tail, List.length_inits] at length
    exact ⟨walk, by omega, fun q h => (isAbsolute_of_mem_ancestors h).trans relative⟩
  · exact ancestors_of_no_parent (parent?_eq_none.mpr (.inl empty))
  · obtain ⟨chain, -⟩ := ancestors_isChain p
    exact chain.imp fun _ _ h => ⟨h, parent?_length h⟩
  · rw [parent?_eq_none, Path.segments, segmentsOf_eq_nil]
    constructor
    · exact .inr
    · rintro (empty | h)
      · left
        simp [empty]
      · exact h

example : (ofString "//a//b/").ancestors = [ofString "//a//b/", ofString "//a", root] := by
  decide +kernel

end Path

end Impersonation
