import Lox.Proofs.Grammar.Program
import Lox.Proofs.Lexing.Newline
import Lox.Proofs.Lexing.Words

/-! Programs read from two sources with a newline between them. If nothing is wrong with the first
one and the second one does not begin with `else`, the statements of both are read one after the
other, and what is wrong with the second one is reported as before, on later lines. -/
namespace Lox

/-- A problem on another line is reported on that line. -/
theorem Problem.diagnostic_relined (f : Int → Int) (last : Int) (problem : Problem) :
    (problem.relined f).diagnostic (f last) = (problem.diagnostic last).relined f := by
  obtain ⟨complaint, token⟩ := problem
  cases token <;> rfl

/-- No lexeme is the end of the input. -/
theorem Segment.Lexeme.kind_ne_eof {k : Kind} {t : Text} (h : Lexeme k t) : k ≠ .eof := by
  have hSigns : ∀ entry ∈ Kind.signs, entry.1 ≠ .eof := by decide
  have hKeywords : ∀ entry ∈ Kind.keywords, entry.2 ≠ .eof := by decide
  cases h with
  | sign h => exact hSigns _ h
  | string => exact Kind.noConfusion
  | number => exact Kind.noConfusion
  | @word g gs =>
      rcases Kind.ofWord_spec (Text.ofGlyphs (g :: gs)) with ⟨entry, hEntry, _, hKind⟩ | hName
      · rw [hKind]
        exact hKeywords entry hEntry
      · rw [hName]
        exact Kind.noConfusion

namespace Program

/-- The statements of a source are those that attempts have read. -/
theorem statements_ofSource (source : Text) : (ofSource source).program.statements =
    (attempts (Scan.lexemes source)).filterMap Except.toOption := by
  rw [ofSource, statements_ofTokens, Scan.tokens_ofSource, splitEnd_append rfl]

/-- Scanning is reported first, then each attempt that has failed. -/
theorem diagnostics_ofSource (source : Text) : (ofSource source).diagnostics =
    (Scan.ofSource source).diagnostics ++
      (attempts (Scan.lexemes source)).filterMap (report? (Scan.lastLine source)) := by
  rw [ofSource, diagnostics_ofTokens, Scan.tokens_ofSource, splitEnd_append rfl]
  rfl

theorem toOption_relined (f : Int → Int) (result : Except Problem Stmt) :
    (relinedResult f result).toOption = result.toOption.map (Stmt.rewrite (.relined f)) := by
  cases result <;> rfl

theorem report?_relined (f : Int → Int) (last : Int) (result : Except Problem Stmt) :
    report? (f last) (relinedResult f result) = (report? last result).map (Diagnostic.relined f) := by
  cases result with
  | ok s => rfl
  | error problem => exact congrArg some (problem.diagnostic_relined f last)

/-- No lexeme of a source is the end of the input. -/
theorem kind_ne_eof_of_mem_lexemes {source : Text} {t : Token} (h : t ∈ Scan.lexemes source) :
    t.kind ≠ .eof :=
  (Scan.isScanned_of_mem h).lexeme.kind_ne_eof

/-- The statements of a source with which nothing is wrong are derived from its tokens. -/
theorem derives_of_ofSource {source : Text} (h : (ofSource source).diagnostics = []) :
    (Scan.ofSource source).diagnostics = [] ∧
      Stmt.Derives true .declarations (Scan.lexemes source) (ofSource source).program.statements := by
  obtain ⟨hScan, hParse⟩ := List.append_eq_nil_iff.mp h
  refine ⟨hScan, derives_of_attempts (fun t ht => kind_ne_eof_of_mem_lexemes ht) ?_⟩
  exact (ofTokens_eq_iff_attempts rfl _).mp ⟨hParse, rfl⟩

/-- The attempts at a declaration in two sources with a newline between them. -/
theorem attempts_newline {a b : Text} (h : (ofSource a).diagnostics = [])
    (hElse : Reading.ahead (Scan.ofSource b).tokens ≠ .elseWord) :
    attempts (Scan.lexemes (a ++ Text.newline :: b)) = (ofSource a).program.statements.map .ok ++
      (attempts (Scan.lexemes b)).map (relinedResult (· + Scan.lastLine a)) := by
  have hNext : Reading.ahead ((Scan.lexemes b).map (Token.relined (· + Scan.lastLine a))) ≠
      .elseWord := by
    rw [Scan.tokens_ofSource] at hElse
    cases hTokens : Scan.lexemes b with
    | nil => exact Kind.noConfusion
    | cons t rest =>
        rw [hTokens] at hElse
        exact hElse
  rw [Scan.lexemes_newline, attempts_append (derives_of_ofSource h).2 hNext, attempts_relined]

/-- Two sources with a newline between them are read one after the other. -/
theorem ofSource_newline {a b : Text} (h : (ofSource a).diagnostics = [])
    (hElse : Reading.ahead (Scan.ofSource b).tokens ≠ .elseWord) :
    (ofSource (a ++ Text.newline :: b)).program.statements =
        (ofSource a).program.statements ++
          (ofSource b).program.statements.map (Stmt.rewrite (.relined (· + Scan.lastLine a))) ∧
      (ofSource (a ++ Text.newline :: b)).diagnostics =
        (ofSource b).diagnostics.map (Diagnostic.relined (· + Scan.lastLine a)) := by
  have hAttempts := attempts_newline h hElse
  have hRead (ss : List Stmt) :
      (ss.map Except.ok : List (Except Problem Stmt)).filterMap Except.toOption = ss := by
    rw [List.filterMap_map]
    exact List.filterMap_some
  have hSilent (ss : List Stmt) (last : Int) : (ss.map Except.ok).filterMap (report? last) = [] := by
    rw [List.filterMap_map]
    exact List.filterMap_none ss
  constructor
  · rw [statements_ofSource, hAttempts, List.filterMap_append, hRead, List.filterMap_map,
      statements_ofSource b, List.map_filterMap]
    congr 2
    funext result
    exact toOption_relined _ result
  · rw [diagnostics_ofSource, Scan.diagnostics_newline, (derives_of_ofSource h).1, hAttempts,
      List.filterMap_append, hSilent, List.filterMap_map, Scan.lastLine_newline,
      diagnostics_ofSource b, List.map_append, List.map_filterMap, List.nil_append, List.nil_append]
    congr 2
    funext result
    exact report?_relined (· + Scan.lastLine a) _ result

end Program
end Lox
