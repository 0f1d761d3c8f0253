import Lox.Proofs.Grammar.Joining
import Lox.Proofs.Grammar.Provenance
import Lox.Proofs.Grammar.Recovery
import Lox.Proofs.Trace.Summary

/-! What diagnostics point at. A diagnostic of the grammar is at a token of the source or at its end, and
the diagnostic of a failed statement is at a token of the source that can fail in this way. -/
namespace Lox

/-- The diagnostic is at a token that is not the end of the input. -/
structure Diagnostic.IsAt (d : Diagnostic) (t : Token) : Prop where
  kind : t.kind ≠ .eof
  line : d.line = t.line
  place : d.place = .lexeme t.lexeme

/-- The diagnostic is at the end of the input, on the line of a token that marks it. -/
structure Diagnostic.IsAtEnd (d : Diagnostic) (t : Token) : Prop where
  kind : t.kind = .eof
  line : d.line = t.line
  place : d.place = .endOfInput

/-- A token of a kind can be blamed for a failure with this code. -/
def Code.Fits : Code → Kind → Prop
  | .undefined, k => k = .identifier
  | .type, k => k.IsOperator
  | .io, k => k = .printWord
  | .budget, k => k.IsLoop
  | _, _ => False

namespace Program

/-- A problem is blamed on one of the tokens. -/
theorem token_mem_of_mem_attempts {ts : List Token} {problem : Problem} {t : Token}
    (hTokens : ∀ t ∈ ts, t.kind ≠ .eof) (h : .error problem ∈ attempts ts)
    (hToken : problem.token = some t) : t ∈ ts := by
  obtain ⟨as, -, hResults⟩ := exists_course hTokens (Nat.zero_le _)
  rw [List.drop_zero] at hResults
  rw [hResults] at h
  obtain ⟨a, -, hResult⟩ := List.mem_map.mp h
  cases a with
  | read s => cases hResult
  | failed complaint position =>
      cases hResult
      exact List.mem_of_getElem? hToken

/-- What is wrong with some tokens is reported at one of them or at the end. -/
theorem isAt_of_mem_diagnostics {w : List Token} {last : Token} (hTokens : ∀ t ∈ w, t.kind ≠ .eof)
    (hLast : last.kind = .eof) {d : Diagnostic} (h : d ∈ (ofTokens (w ++ [last])).diagnostics) :
    d.code = .parse ∧ (d.IsAtEnd last ∨ ∃ t ∈ w, d.IsAt t) := by
  rw [diagnostics_ofTokens, splitEnd_append hLast, List.mem_filterMap] at h
  obtain ⟨result, hMem, hReport⟩ := h
  cases result with
  | ok s => cases hReport
  | error problem =>
      cases hReport
      obtain ⟨complaint, token⟩ := problem
      cases token with
      | none => exact ⟨rfl, Or.inl ⟨hLast, rfl, rfl⟩⟩
      | some t =>
          have ht := token_mem_of_mem_attempts hTokens hMem rfl
          exact ⟨rfl, Or.inr ⟨t, ht, hTokens t ht, rfl, if_neg (hTokens t ht)⟩⟩

end Program

/-- Faults of tokens of a list, each of a kind that can be blamed for it. -/
def Policy.blaming (tokens : List Token) : Policy where
  value _ := True
  printed _ := True
  fault f := f.token ∈ tokens ∧ f.code.Fits f.token.kind
  nil := trivial
  binary _ _ _ := trivial
  unary _ _ := trivial
  printed_of_value _ := trivial

/-- A token may be blamed for all that can go wrong at its kind. -/
theorem Token.obeys_blaming {tokens : List Token} {t : Token} (h : t ∈ tokens) :
    t.Obeys (.blaming tokens) where
  literal _ := trivial
  name hKind := ⟨h, hKind⟩
  operator hKind _ := ⟨h, hKind⟩
  print hKind _ := ⟨h, hKind⟩
  iterations hKind _ := ⟨h, hKind⟩
  time hKind _ := ⟨h, hKind⟩

theorem Machine.obeys_blaming (tokens : List Token) (m : Machine) : m.Obeys (.blaming tokens) :=
  ⟨fun _ _ _ _ => trivial, fun _ _ => trivial⟩

/-- A fault is reported at its token. -/
theorem Fault.isAt {f : Fault} (h : f.token.kind ≠ .eof) : f.diagnostic.IsAt f.token :=
  ⟨h, rfl, if_neg h⟩

namespace Session

/-- The statements of a source fail at tokens of the source that can fail in this way. -/
theorem isAt_of_mem_execution (s : Session) (source file : Text) {d : Diagnostic}
    (h : d ∈ (s.execution source file).1.diagnostics) :
    ∃ t ∈ Scan.lexemes source, d.IsAt t ∧ d.code.Fits t.kind := by
  have hTokens : ∀ t ∈ (Program.splitEnd (Scan.ofSource source).tokens).1,
      t.Obeys (.blaming (Scan.lexemes source)) := by
    rw [Scan.tokens_ofSource, Program.splitEnd_append rfl]
    exact fun t ht => Token.obeys_blaming ht
  obtain ⟨f, ⟨hMem, hFits⟩, rfl⟩ := (Machine.execute_obeys (Program.obeys_ofTokens hTokens)
    (Machine.obeys_blaming _ _)).2.reports d h
  exact ⟨f.token, hMem, Fault.isAt (Program.kind_ne_eof_of_mem_lexemes hMem), hFits⟩

/-- Diagnostics point at tokens of the source. After those of scanning, a run reports the problems of
the grammar, each at a token of the source or at its end, and then the failures of statements, each at a
token of the source: a name that is undefined, an operator that refuses its operands, the word `print`
if a write fails, and the word of a loop if the budget is exhausted. -/
theorem run_blames (s : Session) (source file : Text) :
    let scan := Scan.ofSource source
    let problems := (Program.ofTokens scan.tokens).diagnostics
    let result := (s.run source file).1
    result.diagnostics = scan.diagnostics ++ problems ++ result.failures ∧
      (∀ d ∈ problems, d.code = .parse ∧
        ((∃ t, scan.tokens.getLast? = some t ∧ d.IsAtEnd t) ∨ ∃ t ∈ scan.tokens, d.IsAt t)) ∧
      ∀ d ∈ result.failures, ∃ t ∈ scan.tokens, d.IsAt t ∧ d.code.Fits t.kind := by
  intro scan problems result
  have hSplit : scan.tokens = Scan.lexemes source ++ [.endOfInput (Scan.lastLine source)] :=
    Scan.tokens_ofSource source
  have hLexemes : ∀ t ∈ Scan.lexemes source, t ∈ scan.tokens :=
    fun t ht => hSplit ▸ List.mem_append_left _ ht
  have hResult : ∃ ran : RunResult, result = .ofRun (scan.diagnostics ++ problems) ran ∧
      ∀ d ∈ ran.diagnostics, ∃ t ∈ Scan.lexemes source, d.IsAt t ∧ d.code.Fits t.kind := by
    rcases s.run_eq_or source file with hRan | hRan
    · exact ⟨⟨0, [], none⟩, congrArg Prod.fst hRan, List.forall_mem_nil _⟩
    · exact ⟨_, congrArg Prod.fst hRan, fun d => s.isAt_of_mem_execution source file⟩
  obtain ⟨ran, hResult, hFailures⟩ := hResult
  rw [hResult, SourceResult.failures_ofRun]
  refine ⟨rfl, fun d hMem => ?_, fun d hMem => ?_⟩
  · obtain ⟨hCode, hPlace⟩ := Program.isAt_of_mem_diagnostics (w := Scan.lexemes source)
      (fun _ => Program.kind_ne_eof_of_mem_lexemes) rfl hMem
    refine ⟨hCode, hPlace.imp (fun hEnd => ⟨_, ?_, hEnd⟩) fun ⟨t, ht, hAt⟩ => ⟨t, hLexemes t ht, hAt⟩⟩
    rw [hSplit, List.getLast?_concat]
  · obtain ⟨t, ht, hAt⟩ := hFailures d hMem
    exact ⟨t, hLexemes t ht, hAt⟩

/-- A source with one problem and a failure of each code, in a session whose output sink is full and
which allows a single iteration. -/
theorem run_blames_each :
    let s := Session.start ⟨fun _ => some "full", fun _ _ _ => none⟩ ⟨⟨1, 0⟩, true, [], 2⟩
    let source : Text := ");\na;\n-nil;\nprint 1;\nwhile (true) 1;"
    let result := (s.run source []).1
    result.diagnostics.map (fun d => (d.code, d.line, d.place)) =
        [(.parse, 1, .lexeme ")"), (.undefined, 2, .lexeme "a"), (.type, 3, .lexeme "-"),
          (.io, 4, .lexeme "print"), (.budget, 5, .lexeme "while")] ∧
      ∀ d ∈ result.failures, ∃ t ∈ (Scan.ofSource source).tokens, d.IsAt t ∧ d.code.Fits t.kind := by
  intro s source result
  exact ⟨by decide +kernel, (run_blames s source []).2.2⟩

end Session
end Lox
