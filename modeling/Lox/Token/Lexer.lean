import Lox.Diagnostic
import Lox.Token.Segment

/-! The tokens of a source text, and what is wrong with its spelling. -/
namespace Lox

structure Scan where
  tokens : List Token
  diagnostics : List Diagnostic
  deriving DecidableEq, Repr

namespace Scan

def token? : Int × Segment → Option Token
  | (line, .lexeme kind text) => some (Token.read kind text line)
  | _ => none

/-- What is wrong with a segment, if anything. -/
def diagnostic? : Int × Segment → Option Diagnostic
  | (line, .unexpected text) => some ⟨.lex, "unexpected character", line, .lexeme text⟩
  | (line, .unterminated text _) => some ⟨.lex, "unterminated string", line, .lexeme text⟩
  | _ => none

def lastLine (source : Text) : Int := 1 + source.count Text.newline

/-- Reads a source to its end. Bad segments are reported and skipped, and the last token is the
end of the input. -/
def ofSource (source : Text) : Scan :=
  let segments := Segment.located 1 (Segment.ofText source)
  { tokens := segments.filterMap token? ++ [Token.endOfInput (lastLine source)]
    diagnostics := segments.filterMap diagnostic? }

end Scan
end Lox
