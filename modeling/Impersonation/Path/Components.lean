import Impersonation.Path

namespace Impersonation

inductive Component where
  | root
  | here
  | up
  | name (bytes : Bytes)
deriving DecidableEq

namespace Component

def rank : Component → Nat
  | root => 0
  | here => 1
  | up => 2
  | name _ => 3

/-- The root first, then `.`, then `..`, then names by their bytes. -/
def compare : Component → Component → Ordering
  | name a, name b => Ord.compare a b
  | a, b => Ord.compare a.rank b.rank

end Component

namespace Path

def segmentsOf : Bytes → List Bytes
  | [] => []
  | b :: rest =>
    if b = slash then segmentsOf rest
    else
      match rest with
      | [] => [[b]]
      | c :: _ =>
        if c = slash then [b] :: segmentsOf rest
        else
          match segmentsOf rest with
          | [] => [[b]]
          | s :: more => (b :: s) :: more

def segments (p : Path) : List Bytes :=
  segmentsOf p.bytes

def dot : Bytes := [0x2E]

def dotDot : Bytes := [0x2E, 0x2E]

def componentOf (s : Bytes) : Component :=
  if s = dotDot then .up else .name s

def lead (p : Path) : List Component :=
  if p.isAbsolute then [.root]
  else if p.segments.head? = some dot then [.here]
  else []

/-- The components of a path; two paths are the same path if these agree. -/
def components (p : Path) : List Component :=
  p.lead ++ (p.segments.filter (· ≠ dot)).map componentOf

def same (p q : Path) : Bool :=
  p.components = q.components

/-- Order by components, as directories are listed. -/
def le (p q : Path) : Bool :=
  List.compareLex Component.compare p.components q.components ≠ .gt

def fileName? (p : Path) : Option Bytes :=
  match p.components.getLast? with
  | some (.name s) => some s
  | _ => none

theorem same_iff {p q : Path} : p.same q ↔ p.components = q.components := by
  simp [same]

@[simp] theorem same_refl (p : Path) : p.same p := by
  simp [same]

end Path

end Impersonation
