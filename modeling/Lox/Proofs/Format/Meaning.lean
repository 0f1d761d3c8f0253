import Lox.Proofs.Execution.Simulation
import Lox.Proofs.Format.Program

/-! Formatting keeps the meaning of a program. Running what a source is read as, and running what
its formatted text is read as, differ only in lines and in the word of loops written with `for`. -/
namespace Lox

def Token.IsLoopWord (t : Token) : Prop :=
  (t.kind = .whileWord ∧ t.lexeme = "while") ∨ (t.kind = .forWord ∧ t.lexeme = "for")

/-- The word of a scanned loop is spelled as its kind. -/
theorem Token.IsScanned.isLoopWord {t : Token} (h : t.IsScanned)
    (hKind : t.kind = .whileWord ∨ t.kind = .forWord) : t.IsLoopWord := by
  rcases hKind with hWhile | hFor
  · exact Or.inl ⟨hWhile, h.lexeme.eq_of_fixed (by rw [hWhile]; decide)⟩
  · exact Or.inr ⟨hFor, h.lexeme.eq_of_fixed (by rw [hFor]; decide)⟩

namespace Stmt

/-- A simple statement has no loop. -/
theorem Simple.loopWords_eq {w : List Token} {s : Stmt} (h : Simple w s) : s.loopWords = [] := by
  cases h
  rw [loopWords]

theorem Variable.loopWords_eq {w : List Token} {s : Stmt} (h : Variable w s) : s.loopWords = [] := by
  cases h <;> rw [loopWords]

/-- A counting loop has its own word and those of its body. -/
theorem loopWords_counting {keyword : Token} {c : List Token} {start : Option Stmt}
    {condition step : Option Expr} {body : Stmt} (h : Clauses c (start, condition, step)) :
    (counting keyword start condition step body).loopWords = keyword :: body.loopWords := by
  have hStart : ∀ s ∈ start, s.loopWords = [] := by
    cases h with
    | mk hOpening hStart =>
        cases hStart with
        | missing => simp
        | declaration hVar hVariable => simpa using hVariable.loopWords_eq
        | expression hSimple => simpa using hSimple.loopWords_eq
  cases start <;> cases step <;> simp_all [counting, loopWords, loopWordsAll]

/-- The loops of a statement are written with tokens that it is derived from. -/
theorem Derives.loopWords {nearest : Bool} {part : Part} {w : List Token} {ss : List Stmt}
    (h : Derives nearest part w ss) : ∀ s ∈ ss, ∀ t ∈ s.loopWords,
      t ∈ w ∧ (t.kind = .whileWord ∨ t.kind = .forWord) := by
  induction h with
  | expr hSimple => simp [hSimple.loopWords_eq]
  | print => simp [Stmt.loopWords]
  | block _ _ _ ih =>
      simp only [List.mem_singleton, forall_eq, Stmt.loopWords, mem_loopWordsAll]
      rintro t ⟨s, hs, ht⟩
      exact ⟨by simp [(ih s hs t ht).1], (ih s hs t ht).2⟩
  | ifThen _ _ _ ih =>
      simp only [List.mem_singleton, forall_eq, Stmt.loopWords] at ih ⊢
      exact fun t ht => ⟨by simp [(ih t ht).1], (ih t ht).2⟩
  | ifElse _ _ _ _ _ _ ihYes ihNo =>
      simp only [List.mem_singleton, forall_eq, Stmt.loopWords] at ihYes ihNo ⊢
      intro t ht
      rcases List.mem_append.mp ht with hYes | hNo
      · exact ⟨by simp [(ihYes t hYes).1], (ihYes t hYes).2⟩
      · exact ⟨by simp [(ihNo t hNo).1], (ihNo t hNo).2⟩
  | whileLoop hKeyword _ _ ih =>
      simp only [List.mem_singleton, forall_eq, Stmt.loopWords] at ih ⊢
      intro t ht
      rcases List.mem_cons.mp ht with rfl | hBody
      · exact ⟨by simp, Or.inl hKeyword⟩
      · exact ⟨by simp [(ih t hBody).1], (ih t hBody).2⟩
  | forLoop hKeyword hClauses _ ih =>
      simp only [List.mem_singleton, forall_eq] at ih ⊢
      intro t ht
      rw [← counting, loopWords_counting hClauses] at ht
      rcases List.mem_cons.mp ht with rfl | hBody
      · exact ⟨by simp, Or.inr hKeyword⟩
      · exact ⟨by simp [(ih t hBody).1], (ih t hBody).2⟩
  | varDecl _ hVariable => simp [hVariable.loopWords_eq]
  | statement _ ih => exact ih
  | nil => simp
  | cons _ _ ihHead ihTail =>
      intro s hs t ht
      rcases List.mem_cons.mp hs with rfl | hTail
      · have hFound := ihHead s List.mem_cons_self t ht
        exact ⟨List.mem_append_left _ hFound.1, hFound.2⟩
      · have hFound := ihTail s hTail t ht
        exact ⟨List.mem_append_right _ hFound.1, hFound.2⟩

end Stmt

/-- The loops of a source are written with words for loops. -/
theorem Program.isLoopWord_of_mem_ofSource {source : Text} {s : Stmt}
    (h : s ∈ (ofSource source).program.statements) {t : Token} (ht : t ∈ s.loopWords) :
    t.IsLoopWord := by
  obtain ⟨w, hScanned, hDerives⟩ := exists_derives_of_mem_ofSource h
  obtain ⟨hMem, hKind⟩ := hDerives.loopWords s List.mem_cons_self t ht
  exact (hScanned t hMem).isLoopWord hKind

namespace Diagnostic

def unlined (d : Diagnostic) : Diagnostic := { d with line := 0 }

/-- The diagnostic without its line as the formatted program has it: an exhausted budget is blamed
on `while` even if the loop was written with `for`. -/
def plain (d : Diagnostic) : Diagnostic :=
  { d with
    line := 0
    place := if d.code = .budget ∧ d.place = .lexeme "for" then .lexeme "while" else d.place }

end Diagnostic

namespace RunResult

def unlined (result : RunResult) : RunResult := result.rewrite .unlined Diagnostic.unlined

/-- The result without lines as the formatted program has it. -/
def plain (result : RunResult) : RunResult := result.rewrite .plain Diagnostic.plain

end RunResult

namespace Rewriting

/-- Lines do not matter to what is computed. -/
theorem keepsMeaning_unlined : unlined.KeepsMeaning :=
  ⟨fun _ => rfl, fun _ => rfl, fun _ _ => rfl⟩

/-- A number that overflowed has the value of the division that it is read back as. -/
theorem keepsMeaning_plain : plain.KeepsMeaning := by
  refine ⟨fun _ => rfl, fun _ => rfl, fun value line => ?_⟩
  rw [literal_plain]
  fun_cases Expr.plainLiteral value with
  | case1 x h =>
      simp only [Bool.and_eq_true, Bool.not_eq_true'] at h
      rw [Decimal.eq_one_div_zero h.1 h.2]
      rfl
  | case2 x h => rfl
  | case3 value h => rfl

theorem movesLines_unlined : unlined.MovesLines := ⟨fun _ => rfl, fun _ => rfl, fun _ _ => rfl⟩

theorem movesLines_plain : plain.MovesLines := by
  refine ⟨fun _ => rfl, fun t => ?_, fun value _ => ?_⟩
  · rw [loopWord_plain, Stmt.plainWord]
    split <;> rfl
  · rw [literal_plain]
    fun_cases Expr.plainLiteral value <;> rfl

/-- Blame on a token without line is a diagnostic without line. -/
theorem diagnostic_unlined (cause : Cause) (t : Token) :
    Fault.diagnostic ⟨cause, t.unlined⟩ = (Fault.diagnostic ⟨cause, t⟩).unlined := by
  cases cause <;> rfl

theorem reports_unlined : unlined.Reports (fun _ => True) Diagnostic.unlined :=
  ⟨fun cause t _ _ => diagnostic_unlined cause t, fun cause t _ => diagnostic_unlined cause t⟩

/-- Without its line a diagnostic is the same, but for the word of a loop. -/
theorem reports_plain : plain.Reports Token.IsLoopWord Diagnostic.plain := by
  constructor
  · intro cause t hCode hWord
    have hMessage : ∀ t', Fault.message ⟨cause, t'⟩ = Fault.message ⟨cause, t⟩ := by
      cases cause with
      | operator => cases hCode
      | _ => exact fun _ => rfl
    have hDiagnostic (t' : Token) : Fault.diagnostic ⟨cause, t'⟩ =
        .atToken .budget (Fault.message ⟨cause, t⟩) t' := by
      rw [Fault.diagnostic, hMessage, show Fault.code ⟨cause, t'⟩ = .budget from hCode]
    rw [hDiagnostic, hDiagnostic, loopWord_plain, Stmt.plainWord]
    rcases hWord with ⟨hKind, hLexeme⟩ | ⟨hKind, hLexeme⟩
    · have hDiffer : Text.ofString "while" ≠ Text.ofString "for" := by decide
      rw [if_neg (by simp [hKind])]
      simp [Diagnostic.plain, Diagnostic.atToken, hKind, hLexeme, hDiffer]
    · rw [if_pos hKind]
      simp [Diagnostic.plain, Diagnostic.atToken, Token.read, hKind, hLexeme]
  · intro cause t hCode
    rw [token_plain, diagnostic_unlined, Diagnostic.unlined, Diagnostic.plain, if_neg]
    exact fun h => hCode h.1

end Rewriting

namespace Program

/-- Formatting a program does not change what it does. Whatever a source is read as, in whatever
state, surroundings and limits it is run, and however long loops are followed: the program that its
formatted text is read as writes the same, leaves the same scopes, completes as many statements and
ends for the same reason with the same diagnostics, apart from lines and from the word that is blamed
when a loop written with `for` exhausts the budget. -/
theorem execute_format (source : Text) (host : Host) (budget : Budget) (runId : Text)
    (horizon : Nat) (m : Machine) :
    let p := (ofSource source).program
    let before := Machine.execute host budget runId horizon p m
    let after := Machine.execute host budget runId horizon (ofSource p.format).program m
    after.1.unlined = before.1.plain ∧
      after.2.outputs = before.2.outputs ∧
      after.2.scopes = before.2.scopes ∧
      after.2.iterations = before.2.iterations ∧
      after.2.progress = before.2.progress := by
  intro p before after
  obtain ⟨w, hPrints, hDerives⟩ :=
    exists_prints_format fun s (hs : s ∈ p.statements) => printed_of_mem_ofSource hs
  obtain ⟨_, hProgram⟩ := ofSource_of_prints hPrints hDerives
  rw [unlined_plain] at hProgram
  obtain ⟨hPlain, hAlike⟩ := Machine.execute_rewrite Rewriting.keepsMeaning_plain
    Rewriting.movesLines_plain Rewriting.reports_plain
    (fun s hs t ht => isLoopWord_of_mem_ofSource hs ht) host budget runId horizon m
  obtain ⟨hUnlined, hAlike'⟩ := Machine.execute_rewrite Rewriting.keepsMeaning_unlined
    Rewriting.movesLines_unlined Rewriting.reports_unlined (p := (ofSource p.format).program)
    (fun _ _ _ _ => trivial) host budget runId horizon m
  -- both runs are compared with a run of the program without lines
  rw [← unlined, hProgram] at hUnlined hAlike'
  exact ⟨hUnlined.symm.trans hPlain, hAlike'.outputs.trans hAlike.outputs.symm,
    hAlike'.scopes.trans hAlike.scopes.symm, hAlike'.iterations.trans hAlike.iterations.symm,
    hAlike'.progress.trans hAlike.progress.symm⟩

end Program
end Lox
