import Impersonation.Bytes

namespace Impersonation

/-- The byte that separates the segments of a path. -/
def slash : UInt8 := 0x2F

/-- A path exactly as it was given. -/
structure Path where
  bytes : Bytes
deriving DecidableEq

namespace Path

def ofString (s : String) : Path :=
  ⟨Bytes.ofString s⟩

def text (p : Path) : String :=
  p.bytes.lossy

def root : Path :=
  ⟨[slash]⟩

def isAbsolute (p : Path) : Bool :=
  p.bytes.head? = some slash

def trimSlashes (bs : Bytes) : Bytes :=
  (bs.reverse.dropWhile (· = slash)).reverse

/-- What stands before the last segment, up to and with the slash that ends it. -/
def beforeName (bs : Bytes) : Bytes :=
  (bs.reverse.dropWhile (· ≠ slash)).reverse

/-- The path one segment up; nothing is above the root, the empty path and a single relative
segment. -/
def parent? (p : Path) : Option Path :=
  let front := beforeName (trimSlashes p.bytes)
  if front = [] then none
  else
    let above := trimSlashes front
    some (if above = [] then root else ⟨above⟩)

theorem trimSlashes_length (bs : Bytes) : (trimSlashes bs).length ≤ bs.length := by
  simpa [trimSlashes] using (List.dropWhile_suffix (l := bs.reverse) (· = slash)).length_le

theorem beforeName_trimSlashes_length (bs : Bytes) :
    beforeName (trimSlashes bs) = [] ∨
      (beforeName (trimSlashes bs)).length < (trimSlashes bs).length := by
  simp only [beforeName, trimSlashes, List.reverse_reverse, List.length_reverse]
  cases h : bs.reverse.dropWhile (· = slash) with
  | nil => left; rfl
  | cons c rest =>
    right
    have hc : c ≠ slash := by
      have := List.head?_dropWhile_not (· = slash) bs.reverse
      simpa [h] using this
    rw [List.dropWhile_cons_of_pos (by simpa using hc)]
    exact Nat.lt_succ_of_le (List.dropWhile_suffix _).length_le

/-- A step up shortens the path. -/
theorem parent?_length {p q : Path} (h : p.parent? = some q) : q.bytes.length < p.bytes.length := by
  have hle := trimSlashes_length p.bytes
  rcases beforeName_trimSlashes_length p.bytes with h0 | hlt
  · simp [parent?, h0] at h
  · have hne : beforeName (trimSlashes p.bytes) ≠ [] := by
      intro h0
      simp [parent?, h0] at h
    simp only [parent?, if_neg hne, Option.some.injEq] at h
    have hpos := List.length_pos_iff.mpr hne
    have hab := trimSlashes_length (beforeName (trimSlashes p.bytes))
    subst h
    split
    next => simp only [root, List.length_singleton]; omega
    next => simp only; omega

/-- A path and everything above it, nearest first. -/
def ancestors (p : Path) : List Path :=
  p :: match _h : p.parent? with
    | none => []
    | some q => ancestors q
termination_by p.bytes.length
decreasing_by exact parent?_length ‹_›

theorem ancestors_of_parent {p q : Path} (h : p.parent? = some q) :
    p.ancestors = p :: q.ancestors := by
  rw [ancestors]
  split <;> simp_all

theorem ancestors_of_no_parent {p : Path} (h : p.parent? = none) : p.ancestors = [p] := by
  rw [ancestors]
  split <;> simp_all

def above (p : Path) : List Path :=
  p.ancestors.tail.reverse

end Path

end Impersonation
