import Lox.Proofs.Execution.Agreement
import Lox.Proofs.Execution.Padding
import Lox.Proofs.Rewriting

/-! Running a rewritten statement in a chain of scopes with empty ones inserted. It goes as the
original does: neither the tokens and lines that are replaced nor the inserted scopes play a part in
what is written, counted and bound, only in where a fault is blamed. -/
namespace Lox

namespace Rewriting

/-- Tokens keep what evaluation looks at, and literals keep their values. -/
structure KeepsMeaning (r : Rewriting) : Prop where
  kind : ∀ t, (r.token t).kind = t.kind
  lexeme : ∀ t, (r.token t).lexeme = t.lexeme
  value : ∀ value line, (r.literal value line).eval = pure value

theorem keepsMeaning_identity : identity.KeepsMeaning := ⟨fun _ => rfl, fun _ => rfl, fun _ _ => rfl⟩

/-- Faults outside loop words are related to those at the replaced token. -/
def Relocates (r : Rewriting) (E : Fault → Fault → Prop) : Prop :=
  ∀ cause t, Fault.code ⟨cause, t⟩ ≠ .budget → E ⟨cause, t⟩ ⟨cause, r.token t⟩

end Rewriting

variable {r : Rewriting} {E : Fault → Fault → Prop}

namespace Expr

/-- A rewritten expression has the same value, also where empty scopes are inserted. -/
theorem agree_eval_rewrite (hr : r.KeepsMeaning) (hE : r.Relocates E) (shape : List Bool)
    (e : Expr) : Agree (Chain.Padded shape) E e.eval (e.rewrite r).eval := by
  have hOperator (op : Token) (result : Except OperandError Value) :
      Agree (Chain.Padded shape) E (Evaluation.ofOperator op result)
        (Evaluation.ofOperator (r.token op) result) :=
    Evaluation.agree_ofOperator (fun e => hE (.operands e) op Code.noConfusion) result
  have hUnknown (op : Token) :
      Agree (Chain.Padded shape) E (Evaluation.fail .operator op : Evaluation Slot)
        (Evaluation.fail .operator (r.token op)) :=
    Evaluation.agree_fail (hE .operator op Code.noConfusion)
  induction e with
  | literal value line =>
      rw [rewrite, hr.value, eval]
      exact agree_pure value
  | name token =>
      exact Evaluation.agree_lookup (hr.lexeme token) (fun _ _ h => h.find? _)
        (hE .undefined token Code.noConfusion)
  | assign target value ih =>
      refine ih.bind fun v => Agree.bind ?_ fun _ => agree_pure v
      exact Evaluation.agree_assign (hr.lexeme target) (fun _ _ h => h.assign? _ v)
        (hE .undefined target Code.noConfusion)
  | binary left op right ihLeft ihRight =>
      refine ihLeft.bind fun a => ihRight.bind fun b => ?_
      rw [hr.kind]
      cases BinaryOp.ofKind? op.kind with
      | some f => exact hOperator op _
      | none => exact hUnknown op
  | logical left op right ihLeft ihRight =>
      refine ihLeft.bind fun a => ?_
      rw [hr.kind]
      cases op.kind.decides? a with
      | none => exact hUnknown op
      | some decided =>
          cases decided with
          | true => exact agree_pure a
          | false => exact ihRight
  | unary op operand ih =>
      refine ih.bind fun a => ?_
      rw [hr.kind]
      cases UnaryOp.ofKind? op.kind with
      | some f => exact hOperator op _
      | none => exact hUnknown op
  | group inner ih => exact ih

/-- Inserted scopes are not noticed. -/
theorem agree_eval (shape : List Bool) (e : Expr) :
    Agree (Chain.Padded shape) Eq e.eval e.eval := by
  have hSame := e.agree_eval_rewrite (E := Eq) Rewriting.keepsMeaning_identity
    (fun _ _ _ => rfl) shape
  rwa [rewrite_identity] at hSame

end Expr

namespace Stmt

/-- Whether running the statement may bind a new name in the scope it is run in. -/
def declaresHere : Stmt → Bool
  | .expr _ => false
  | .print _ _ => false
  | .declare _ _ _ => true
  | .block _ _ => false
  | .branch _ _ yes none => yes.declaresHere
  | .branch _ _ yes (some no) => yes.declaresHere || no.declaresHere
  | .loop _ _ body => body.declaresHere

open Lox.Action

variable {run : Run}

mutual

/-- A rewritten statement goes as the original does in padded scopes. If it declares a name, the
innermost scope must not be one that was inserted. -/
theorem agrees_exec_rewrite (hr : r.KeepsMeaning) (hE : r.Relocates E) {shape : List Bool}
    (hShape : true ∈ shape) : (s : Stmt) → (s.declaresHere = true → shape.head? = some true) →
    (∀ t ∈ s.loopWords, SameBlame E t (r.loopWord t)) →
    Agrees (Chain.Padded shape) E (s.exec run) ((s.rewrite r).exec run)
  | .expr e, _, _ => by
      rw [rewrite, exec, exec]
      refine Agrees.traced ?_ _ _ _ _
      exact (agrees_ofEvaluation (e.agree_eval_rewrite hr hE shape)).bind fun _ => agree_pure ()
  | .print keyword e, _, _ => by
      rw [rewrite, exec, exec]
      refine Agrees.traced ?_ _ _ _ _
      refine (agrees_ofEvaluation (e.agree_eval_rewrite hr hE shape)).bind fun v => ?_
      refine (agrees_present v).bind fun _ => ?_
      exact (agrees_write (fun reason => hE (.write reason) keyword Code.noConfusion) _).bind
        fun _ => agrees_trace _ _
  | .declare name token none, hDeclares, _ => by
      obtain ⟨shape, rfl⟩ := List.head?_eq_some_iff.mp (hDeclares rfl)
      rw [rewrite, Option.map_none, exec, exec]
      refine Agrees.traced ?_ _ _ _ _
      exact agrees_define fun _ _ h => h.define _ _
  | .declare name token (some e), hDeclares, _ => by
      obtain ⟨shape, rfl⟩ := List.head?_eq_some_iff.mp (hDeclares rfl)
      rw [rewrite, Option.map_some, exec, exec]
      refine Agrees.traced ?_ _ _ _ _
      refine (agrees_ofEvaluation (e.agree_eval_rewrite hr hE _)).bind fun v => ?_
      exact agrees_define fun _ _ h => h.define _ _
  | .block line body, _, hWords => by
      rw [rewrite, exec, exec]
      refine Agrees.traced ?_ _ _ _ _
      -- both open the scope of the block, so declarations inside it find one that both have
      exact Agrees.inScope (fun _ _ h => h.push)
        (agrees_execAll_rewrite hr hE (List.mem_cons_of_mem _ hShape) rfl body hWords)
        (fun _ _ h => h.pop hShape) _ _
  | .branch keyword condition yes none, hDeclares, hWords => by
      rw [rewrite, exec, exec]
      refine Agrees.traced ?_ _ _ _ _
      refine (agrees_ofEvaluation (condition.agree_eval_rewrite hr hE shape)).bind fun v => ?_
      split
      · exact agrees_exec_rewrite hr hE hShape yes hDeclares hWords
      · exact agree_pure ()
  | .branch keyword condition yes (some no), hDeclares, hWords => by
      rw [rewrite, exec, exec]
      refine Agrees.traced ?_ _ _ _ _
      refine (agrees_ofEvaluation (condition.agree_eval_rewrite hr hE shape)).bind fun v => ?_
      split
      · exact agrees_exec_rewrite hr hE hShape yes
          (fun h => hDeclares (by rw [declaresHere, h, Bool.true_or]))
          (fun t ht => hWords t (List.mem_append_left _ ht))
      · exact agrees_exec_rewrite hr hE hShape no
          (fun h => hDeclares (by rw [declaresHere, h, Bool.or_true]))
          (fun t ht => hWords t (List.mem_append_right _ ht))
  | .loop keyword condition body, hDeclares, hWords => by
      rw [rewrite, exec, exec]
      refine Agrees.traced ?_ _ _ _ _
      exact Agrees.repeatWhile
        (agrees_test (hWords keyword List.mem_cons_self) (condition.agree_eval_rewrite hr hE shape))
        (agrees_exec_rewrite hr hE hShape body hDeclares
          fun t ht => hWords t (List.mem_cons_of_mem _ ht)) _

/-- Statements in a row agree with their rewritten forms. -/
theorem agrees_execAll_rewrite (hr : r.KeepsMeaning) (hE : r.Relocates E) {shape : List Bool}
    (hShape : true ∈ shape) (hHead : shape.head? = some true) : (ss : List Stmt) →
    (∀ t ∈ loopWordsAll ss, SameBlame E t (r.loopWord t)) →
    Agrees (Chain.Padded shape) E (execAll run ss) (execAll run (rewriteAll r ss))
  | [], _ => by
      rw [rewriteAll]
      exact agree_pure ()
  | s :: ss, hWords => by
      rw [rewriteAll, execAll, execAll]
      refine (agrees_exec_rewrite hr hE hShape s (fun _ => hHead)
        fun t ht => hWords t (List.mem_append_left _ ht)).bind fun _ => ?_
      exact agrees_execAll_rewrite hr hE hShape hHead ss
        fun t ht => hWords t (List.mem_append_right _ ht)

end

/-- Inserted scopes are not noticed, and nothing is bound in them. -/
theorem agrees_exec {shape : List Bool} (hShape : true ∈ shape) (s : Stmt)
    (hDeclares : s.declaresHere = true → shape.head? = some true) :
    Agrees (Chain.Padded shape) Eq (s.exec run) (s.exec run) := by
  have hSame : Agrees (Chain.Padded shape) Eq (s.exec run) ((s.rewrite .identity).exec run) :=
    s.agrees_exec_rewrite Rewriting.keepsMeaning_identity (fun _ _ _ => rfl) hShape hDeclares
      (fun _ _ _ _ => rfl)
  rwa [rewrite_identity] at hSame

end Stmt

def RunError.rewrite (r : Rewriting) : RunError → RunError
  | .budget f => .budget ⟨f.cause, r.loopWord f.token⟩
  | .interruptedBefore line i => .interruptedBefore (r.line line) i
  | .interrupted i => .interrupted i
  | .crashed => .crashed
  | .unfinished => .unfinished

/-- A result with its tokens and lines replaced, and its diagnostics by `report`. -/
def RunResult.rewrite (r : Rewriting) (report : Diagnostic → Diagnostic) (result : RunResult) :
    RunResult :=
  ⟨result.executed, result.diagnostics.map report, result.error.map (RunError.rewrite r)⟩

namespace Rewriting

/-- The lines of all parts are replaced in the same way. -/
structure MovesLines (r : Rewriting) : Prop where
  token : ∀ t, (r.token t).line = r.line t.line
  loopWord : ∀ t, (r.loopWord t).line = r.line t.line
  literal : ∀ value line, (r.literal value line).line = r.line line

/-- What is reported about replaced tokens, if the words of loops are as `IsWord` says. -/
structure Reports (r : Rewriting) (IsWord : Token → Prop) (report : Diagnostic → Diagnostic) :
    Prop where
  loop : ∀ cause t, Fault.code ⟨cause, t⟩ = .budget → IsWord t →
    Fault.diagnostic ⟨cause, r.loopWord t⟩ = report (Fault.diagnostic ⟨cause, t⟩)
  other : ∀ cause t, Fault.code ⟨cause, t⟩ ≠ .budget →
    Fault.diagnostic ⟨cause, r.token t⟩ = report (Fault.diagnostic ⟨cause, t⟩)

end Rewriting

/-- A fault and the one that a rewritten program has in its place. -/
inductive Fault.Rewritten (r : Rewriting) (IsWord : Token → Prop) : Fault → Fault → Prop
  | loop {cause : Cause} {t : Token} (hCode : code ⟨cause, t⟩ = .budget) (hWord : IsWord t) :
      Rewritten r IsWord ⟨cause, t⟩ ⟨cause, r.loopWord t⟩
  | other {cause : Cause} {t : Token} (hCode : code ⟨cause, t⟩ ≠ .budget) :
      Rewritten r IsWord ⟨cause, t⟩ ⟨cause, r.token t⟩

variable {IsWord : Token → Prop} {report : Diagnostic → Diagnostic}

/-- The diagnostic of a replaced fault is the replaced diagnostic. -/
theorem Fault.Rewritten.diagnostic_eq (hReports : r.Reports IsWord report) {f f' : Fault}
    (h : Rewritten r IsWord f f') : f'.diagnostic = report f.diagnostic := by
  cases h with
  | loop hCode hWord => exact hReports.loop _ _ hCode hWord
  | other hCode => exact hReports.other _ _ hCode

/-- A fault keeps its code when its token is replaced. -/
theorem Fault.Rewritten.code_eq {f f' : Fault} (h : Rewritten r IsWord f f') : f'.code = f.code := by
  cases h <;> rfl

/-- An expression is on the replaced line. -/
theorem Expr.line_rewrite (h : r.MovesLines) (e : Expr) : (e.rewrite r).line = r.line e.line := by
  induction e with
  | literal value line => exact h.literal value line
  | group inner ih => exact ih
  | _ => exact h.token _

/-- A statement is on the replaced line. -/
theorem Stmt.line_rewrite (h : r.MovesLines) (s : Stmt) : (s.rewrite r).line = r.line s.line := by
  cases s with
  | expr e => exact e.line_rewrite h
  | block line body =>
      rw [rewrite]
      rfl
  | branch keyword condition yes no => cases no <;> exact h.token keyword
  | loop keyword condition body => exact h.loopWord keyword
  | _ => exact h.token _

namespace Machine

/-- Without gaps padded scopes are equal ones. -/
theorem alike_replicate_iff {k : Nat} {m n : Machine} :
    Alike (Chain.Padded (List.replicate k true)) m n ↔
      Alike Eq m n ∧ m.scopes.scopes.length = k := by
  constructor
  · intro h
    obtain ⟨hScopes, hLength⟩ := Chain.padded_replicate_iff.mp h.scopes
    exact ⟨⟨hScopes, h.iterations, h.progress, h.outputs⟩, hLength⟩
  · rintro ⟨h, hLength⟩
    exact ⟨Chain.padded_replicate_iff.mpr ⟨h.scopes, hLength⟩, h.iterations, h.progress, h.outputs⟩

/-- A run of rewritten statements has the rewritten result. -/
theorem runFrom_rewrite (hr : r.KeepsMeaning) (hLines : r.MovesLines)
    (hReports : r.Reports IsWord report) {shape : List Bool} (hHead : shape.head? = some true)
    {ss : List Stmt} (hWords : ∀ s ∈ ss, ∀ t ∈ s.loopWords, IsWord t) (run : Run)
    (executed : Nat) (ds : List Diagnostic) {m n : Machine} (hAlike : Alike (Chain.Padded shape) m n) :
    (runFrom run executed (ds.map report) (ss.map (Stmt.rewrite r)) n).1 =
        (runFrom run executed ds ss m).1.rewrite r report ∧
      Alike (Chain.Padded shape) (runFrom run executed ds ss m).2
        (runFrom run executed (ds.map report) (ss.map (Stmt.rewrite r)) n).2 := by
  induction ss generalizing executed ds m n with
  | nil => exact ⟨by simp [runFrom, RunResult.rewrite], hAlike⟩
  | cons s ss ih =>
      have ih := ih fun s' hs' => hWords s' (List.mem_cons_of_mem _ hs')
      obtain ⟨hAnswer, hNext⟩ := hAlike.poll run
      rw [List.map_cons, runFrom, runFrom]
      generalize m.poll run = polled, n.poll run = polled' at hAnswer hNext
      obtain ⟨answer, m⟩ := polled
      obtain ⟨answer', n⟩ := polled'
      cases hAnswer
      cases answer with
      | some i =>
          refine ⟨?_, hNext⟩
          simp [RunResult.rewrite, RunError.rewrite, Stmt.line_rewrite hLines]
      | none =>
          have hShape : true ∈ shape := List.mem_of_mem_head? hHead
          have hRan : SameResult (Alike (Chain.Padded shape)) (Stop.Alike (Fault.Rewritten r IsWord))
              (s.exec run m) ((s.rewrite r).exec run n) :=
            s.agrees_exec_rewrite hr (fun _ _ hCode => .other hCode) hShape (fun _ => hHead)
              (fun t ht _ hCode => .loop hCode (hWords s List.mem_cons_self t ht)) m n hNext
          simp only
          generalize s.exec run m = ran, (s.rewrite r).exec run n = ran' at hRan
          cases hRan with
          | ok hAlike' => exact ih _ _ hAlike'
          | error hStop hAlike' =>
              cases hStop with
              | crashed => exact ⟨by simp [RunResult.rewrite, RunError.rewrite], hAlike'⟩
              | unfinished => exact ⟨by simp [RunResult.rewrite, RunError.rewrite], hAlike'⟩
              | interrupted i => exact ⟨by simp [RunResult.rewrite, RunError.rewrite], hAlike'⟩
              | @fault f f' hFault =>
                  have hDiagnostic := hFault.diagnostic_eq hReports
                  have hCode := hFault.code_eq
                  simp only [hDiagnostic, hCode, ← List.map_cons]
                  split
                  next hBudget =>
                    -- only the word of a loop is blamed for the budget
                    have hToken : f' = ⟨f.cause, r.loopWord f.token⟩ := by
                      cases hFault with
                      | loop => rfl
                      | other hOther => exact absurd hBudget hOther
                    refine ⟨?_, (hAlike'.record _ _ rfl rfl).record _ _ rfl rfl⟩
                    simp [RunResult.rewrite, RunError.rewrite, hToken]
                  next =>
                    exact ih _ _ (((hAlike'.record _ _ rfl rfl).record _ _ rfl rfl).record _ _ rfl rfl)

/-- Running a rewritten program gives the rewritten result and leaves the machine as it is left by
the original. -/
theorem execute_rewrite (hr : r.KeepsMeaning) (hLines : r.MovesLines)
    (hReports : r.Reports IsWord report) {p : Program}
    (hWords : ∀ s ∈ p.statements, ∀ t ∈ s.loopWords, IsWord t) (host : Host) (budget : Budget)
    (runId : Text) (horizon : Nat) (m : Machine) :
    (execute host budget runId horizon (p.rewrite r) m).1 =
        (execute host budget runId horizon p m).1.rewrite r report ∧
      Alike Eq (execute host budget runId horizon p m).2
        (execute host budget runId horizon (p.rewrite r) m).2 := by
  have hHead : (List.replicate m.scopes.scopes.length true).head? = some true := rfl
  have hStart : Alike (Chain.Padded (List.replicate m.scopes.scopes.length true))
      { m with iterations := 0 } { m with iterations := 0 } :=
    alike_replicate_iff.mpr ⟨⟨rfl, rfl, rfl, rfl⟩, rfl⟩
  have hLogged := (hStart.record (.trace (.runStart p.line p.statements.length))
    (.trace (.runStart (p.rewrite r).line (p.rewrite r).statements.length)) rfl rfl).record
    (.log (.runStart runId p.statements.length))
    (.log (.runStart runId (p.rewrite r).statements.length)) rfl rfl
  obtain ⟨hResult, hAlike⟩ := runFrom_rewrite hr hLines hReports hHead hWords
    ⟨host, budget, runId, horizon, m.progress⟩ 0 [] hLogged
  exact ⟨hResult, ((alike_replicate_iff.mp hAlike).1.record _ _ rfl rfl).record _ _ rfl rfl⟩

end Machine
end Lox
