import Impersonation.CommandLine
import Impersonation.Proofs.Parsed

namespace Impersonation

open Arguments

namespace Command

def name : Command → CommandLine.CommandName
  | caps _ => .caps
  | identity _ _ => .identity
  | resolve _ _ _ _ => .resolve
  | stat _ _ _ _ => .stat

def json : Command → Bool
  | caps json | identity _ json | resolve _ _ _ json | stat _ _ _ json => json

def user? : Command → Option String
  | caps _ => none
  | identity user _ | resolve user _ _ _ | stat user _ _ _ => some user

def path? : Command → Option Path
  | caps _ | identity _ _ => none
  | resolve _ path _ _ | stat _ path _ _ => some path

def gid? : Command → Option UInt32
  | resolve _ _ gid _ => gid
  | caps _ | identity _ _ | stat _ _ _ _ => none

def root? : Command → Option Path
  | stat _ _ root _ => some root
  | caps _ | identity _ _ | resolve _ _ _ _ => none

end Command

namespace CommandLine

def value (line : CommandLine) : declaration.Values
  | .minUid => some line.minUid
  | .minGid => some line.minGid
  | .gid => line.command.gid?
  | .root => line.command.root?
  | .json => some line.command.json
  | .user => line.command.user?
  | .path => line.command.path?

def toMatches (line : CommandLine) : declaration.Matches where
  command := line.command.name
  values := line.value

theorem ofMatches_toMatches (line : CommandLine) : ofMatches line.toMatches = .ok line := by
  obtain ⟨minUid, minGid, command⟩ := line
  cases command <;> rfl

/-- Every argument vector that spells a command line reads as it, and makes the settings that have
its lowest ids. -/
theorem readBy_spelled {parse : List Bytes → Except UsageError declaration.Matches}
    (documented : declaration.Documented parse) {line : CommandLine}
    {before after : List (Item Argument)}
    (spelled : declaration.Spells line.toMatches before after) :
    readBy parse (before.flatMap declaration.itemWords ++
        Bytes.ofString line.command.name.text :: after.flatMap declaration.itemWords) =
          .ok line ∧
      line.config = { minUid := line.minUid, minGid := line.minGid } := by
  have parsed : parse (before.flatMap declaration.itemWords ++
      Bytes.ofString line.command.name.text :: after.flatMap declaration.itemWords) =
        .ok line.toMatches := documented.parse_eq spelled
  refine ⟨?_, rfl⟩
  rw [readBy, parsed]
  exact ofMatches_toMatches line

/-- The user is called like a command, and the path holds an equals sign. -/
theorem readBy_spelled_interleaved :
    read ["--min-uid", "1000", "resolve", "--gid=+07", "caps", "--json", "a=b"] =
        .ok { minUid := 1000, command := .resolve "caps" (.ofString "a=b") (some 7) true } ∧
      ({ minUid := 1000, command := .resolve "caps" (.ofString "a=b") (some 7) true } :
        CommandLine).config = { minUid := 1000 } := by
  let line : CommandLine :=
    { minUid := 1000, command := .resolve "caps" (.ofString "a=b") (some 7) true }
  let before : List (Item Argument) := [.option .minUid (Bytes.ofString "1000") false]
  let after : List (Item Argument) :=
    [.option .gid (Bytes.ofString "+07") true, .operand .user (Bytes.ofString "caps"),
      .switch .json, .operand .path (Bytes.ofString "a=b")]
  have spelled : declaration.Spells line.toMatches before after := by
    refine ⟨?_, ?_, rfl, ?_, by decide, by decide, ?_⟩
    · exact List.forall_mem_singleton.mpr ⟨.minUid, by decide, rfl⟩
    · decide
    · simp only [before, after, List.cons_append, List.nil_append, List.forall_mem_cons]
      refine ⟨⟨(1000 : UInt32), rfl, by decide, false, 0, by decide⟩,
        ⟨(7 : UInt32), rfl, by decide, true, 1, by decide⟩, ⟨"caps", rfl, by decide, rfl⟩,
        ⟨true, rfl, rfl⟩, ⟨.ofString "a=b", rfl, by decide, by decide, rfl⟩, nofun⟩
    · intro a absent
      cases a <;> first | rfl | exact absurd (by decide) absent
  exact readBy_spelled declaration.parse_documented spelled

end CommandLine

end Impersonation
