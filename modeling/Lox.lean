import Lox.Console.Memory
import Lox.Main
import Lox.Proofs.Session.Pieces
import Lox.Proofs.Grammar.Boundaries
import Lox.Proofs.Execution.Deadline
import Lox.Proofs.Decimal.ReadBack
import Lox.Proofs.Execution.Counting
import Lox.Proofs.Execution.Limits
import Lox.Proofs.Format.Tokens
import Lox.Proofs.Execution.Transcript
import Lox.Proofs.Execution.Scoping
import Lox.Proofs.Execution.Presence
import Lox.Proofs.Trace.Summary
import Lox.Proofs.Session.Blame
import Lox.Proofs.Session.PlainLines
import Lox.Proofs.Execution.CutShort
import Lox.Proofs.Console.Reporting
import Lox.Proofs.Lexing.Comments
import Lox.Proofs.Format.Branches
import Lox.Proofs.Execution.Blocks
import Lox.Proofs.Scope.Shadowing
import Lox.Proofs.Format.Spacing
import Lox.Proofs.Settings.TimeLimit
