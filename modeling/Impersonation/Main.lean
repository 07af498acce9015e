import Impersonation.Report

namespace Impersonation

def UsageError.message : UsageError → String
  | unknownArgument => "unexpected argument"
  | unknownCommand => "unrecognized subcommand"
  | missingCommand => "a subcommand is required"
  | missingArgument => "required arguments were not provided"
  | emptyValue => "a value is required but none was supplied"
  | badValue => "invalid value"
  | surplusValue => "unexpected value for a flag"
  | repeatedOption => "an option was used more than once"
  | helpRequested | nothingGiven =>
    "usage: [--min-uid N] [--min-gid N] caps | identity USER | resolve USER PATH [--gid N]" ++
      " | stat USER PATH --root DIR, each with [--json]"
  | versionRequested => "0.1.0"

def UsageError.isAnswer : UsageError → Bool
  | helpRequested | versionRequested => true
  | _ => false

def Report.plainHost : Report.Host :=
  { filesystem := Filesystem.ofDirectories true [] }

end Impersonation

open Impersonation in
def main (args : List String) : IO UInt32 := do
  match CommandLine.read args with
  | .error e =>
    if e.isAnswer then
      IO.println e.message
      return 0
    else
      IO.eprintln ("error: " ++ e.message)
      return 2
  | .ok c =>
    match Report.ofCommand Report.plainHost c with
    | .ok text =>
      IO.print text
      return 0
    | .error causes =>
      IO.eprintln ("Error: " ++ causes.message)
      return 1
