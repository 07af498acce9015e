import Impersonation.Config.Reader
import Impersonation.Host.Scratch
import Impersonation.Main
import Impersonation.Report
import Impersonation.Session
import Impersonation.Proofs.Calls
import Impersonation.Proofs.Honest
import Impersonation.Proofs.Credentials
import Impersonation.Proofs.Station
import Impersonation.Proofs.Plan
import Impersonation.Proofs.Enter
import Impersonation.Proofs.Within
import Impersonation.Proofs.Opening
import Impersonation.Proofs.Orderly
import Impersonation.Proofs.Scoped
import Impersonation.Proofs.Restoration
import Impersonation.Proofs.Entrance
import Impersonation.Proofs.OneScope
import Impersonation.Proofs.Smooth
import Impersonation.Proofs.Search
import Impersonation.Proofs.Attempts
import Impersonation.Proofs.Service
import Impersonation.Proofs.Admission
import Impersonation.Proofs.FailClosed
import Impersonation.Proofs.Ancestors
import Impersonation.Proofs.Barrier
import Impersonation.Proofs.Hidden
import Impersonation.Proofs.Turn
import Impersonation.Proofs.OnTree
import Impersonation.Proofs.OneTurn
import Impersonation.Proofs.Once
import Impersonation.Proofs.Membership
import Impersonation.Proofs.Creation
import Impersonation.Proofs.Maker
import Impersonation.Proofs.Reference
import Impersonation.Proofs.Threads
import Impersonation.Proofs.Check
import Impersonation.Proofs.Latch
import Impersonation.Proofs.Daemon
import Impersonation.Proofs.Gated
import Impersonation.Proofs.Prefixes
import Impersonation.Proofs.Effects
import Impersonation.Proofs.Confined
import Impersonation.Proofs.OnMount
import Impersonation.Proofs.Looks
import Impersonation.Proofs.Findings
import Impersonation.Proofs.Amid
import Impersonation.Proofs.Shift
import Impersonation.Proofs.Pursuit
import Impersonation.Proofs.Contest
import Impersonation.Proofs.Climb
import Impersonation.Proofs.Startup
import Impersonation.Proofs.Widening
import Impersonation.Proofs.Spelling
import Impersonation.Proofs.Accord
import Impersonation.Proofs.SpelledTree
import Impersonation.Proofs.SpelledCalls
import Impersonation.Proofs.Respelled
import Impersonation.Proofs.Ordered
import Impersonation.Proofs.Rooted
import Impersonation.Proofs.Writes
import Impersonation.Proofs.Text
import Impersonation.Proofs.Invocation
import Impersonation.Proofs.Parsed
import Impersonation.Proofs.RoundTrip
import Impersonation.Proofs.Grammar
import Impersonation.Proofs.Lexing
import Impersonation.Proofs.Skipping
import Impersonation.Proofs.Decimal
import Impersonation.Proofs.Values
import Impersonation.Proofs.Records
import Impersonation.Proofs.Configured
