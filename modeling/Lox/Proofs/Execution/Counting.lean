import Lox.Proofs.Execution.Simulation
import Lox.Proofs.Grammar.Program

/-! Counting loops on their own terms. A counting loop is read as blocks around a conditional loop.
Here it is given a meaning that knows nothing of these, and the tree is shown to have that meaning:
the scope that the tree opens in each iteration stays empty, so nobody can tell that it is there. -/
namespace Lox

namespace Action

/-- Whether the condition holds. A missing one always does. -/
def holds : Option Expr → Action Bool
  | none => pure true
  | some condition => do
    let v ← eval condition
    pure v.truthy

def advance : Option Expr → Action Unit
  | none => pure ()
  | some step => do
    let _ ← eval step
    pure ()

/-- The iterations of a counting loop. Before each one the condition is tested, in each one the body
runs and then the step, and all of this is done in the scope that the loop finds itself in. -/
def iterations (run : Run) (keyword : Token) (condition step : Option Expr) (body : Action Unit) :
    (horizon : Nat) → Action Unit
  | 0 => throw .unfinished
  | n + 1 => do
    checkTime run keyword
    if ← holds condition then
      countIteration run keyword
      body
      advance step
      iterations run keyword condition step body n
    else pure ()

/-- What is done in a fresh scope, which is discarded on every way out. -/
def inFreshScope (body : Action Unit) : Action Unit := fun m =>
  match body { m with scopes := m.scopes.push } with
  | .ok () m => .ok () { m with scopes := m.scopes.pop }
  | .error stop m => .error stop { m with scopes := m.scopes.pop }

end Action

/-- A counting loop on its own terms: in one fresh scope the start is run once, then the
iterations. -/
def Stmt.runCounting (run : Run) (keyword : Token) (start : Option Stmt)
    (condition step : Option Expr) (body : Stmt) : Action Unit :=
  Action.inFreshScope do
    start.elim (pure ()) (Stmt.exec run)
    Action.iterations run keyword condition step (body.exec run) run.horizon

namespace Action

variable {Q : Chain → Chain → Prop} {E : Fault → Fault → Prop} {run : Run}

/-- It makes no difference to the output whether a statement is traced. -/
theorem Agrees.tracedRight {body body' : Action Unit} (h : Agrees Q E body body') (line : Int)
    (kind : String) : Agrees Q E body (Action.traced line kind body') := by
  intro m n hAlike
  have hRan := h _ _ (hAlike.recordRight (.trace (.stmtStart line kind)) rfl)
  rw [traced_apply]
  generalize body m = ran, body' (n.record (.trace (.stmtStart line kind))) = ran' at hRan
  cases hRan with
  | error hStop hAlike' => exact .error hStop hAlike'
  | ok hAlike' => exact .ok (hAlike'.recordRight _ rfl)

/-- A scope that only one side opens is a gap on that side. -/
theorem Agrees.inScopeRight {shape : List Bool} (hShape : true ∈ shape) {body body' : Action Unit}
    (h : Agrees (Chain.Padded (false :: shape)) E body body') (line : Int) :
    Agrees (Chain.Padded shape) E body (Action.inScope line body') := by
  intro m n hAlike
  have hRan := h _ _ (hAlike.enterRight hAlike.scopes.pushGap line)
  rw [Action.inScope]
  generalize body m = ran, body' (n.enter line) = ran' at hRan
  cases hRan with
  | ok hAlike' => exact .ok (hAlike'.leaveRight (hAlike'.scopes.popGap hShape) line)
  | error hStop hAlike' =>
      exact .error hStop (hAlike'.leaveRight (hAlike'.scopes.popGap hShape) line)

/-- A block without its place in the trace. -/
theorem Agrees.inFreshScope {shape : List Bool} (hShape : true ∈ shape) {body body' : Action Unit}
    (h : Agrees (Chain.Padded (true :: shape)) E body body') (line : Int) :
    Agrees (Chain.Padded shape) E (Action.inFreshScope body) (Action.inScope line body') := by
  intro m n hAlike
  have hRan := h _ _ (hAlike.enterRight hAlike.scopes.push line)
  rw [Action.inFreshScope, Action.inScope]
  generalize body { m with scopes := m.scopes.push } = ran, body' (n.enter line) = ran' at hRan
  cases hRan with
  | ok hAlike' => exact .ok (hAlike'.leaveRight (hAlike'.scopes.pop hShape) line)
  | error hStop hAlike' =>
      exact .error hStop (hAlike'.leaveRight (hAlike'.scopes.pop hShape) line)

/-- A conditional loop, one iteration and then the rest of it. -/
theorem repeatWhile_test_succ (keyword : Token) (condition : Expr) (body : Action Unit) (n : Nat) :
    repeatWhile (test run keyword condition) body (n + 1) = (do
      checkTime run keyword
      if ← holds (some condition) then
        countIteration run keyword
        body
        repeatWhile (test run keyword condition) body n
      else pure ()) := by
  rw [repeatWhile_succ]
  simp only [test, holds, bind_assoc, pure_bind]
  refine bind_congr fun _ => bind_congr fun v => ?_
  cases v.truthy <;> simp

/-- A missing condition is as good as the literal `true`. -/
theorem agrees_holds {shape : List Bool} (condition : Option Expr) (line : Int) :
    Agrees (Chain.Padded shape) Eq (holds condition)
      (holds (some (condition.getD (.literal (some (.bool true)) line)))) := by
  cases condition with
  | none => exact agree_pure true
  | some condition =>
      exact (agrees_ofEvaluation (condition.agree_eval shape)).bind fun v => agree_pure _

end Action

namespace Stmt

open Lox.Action

variable {run : Run}

/-- An iteration of the tree has a scope more than an iteration of the loop. A body that declares
nothing there leaves it empty. -/
theorem agrees_iteration {shape : List Bool} (hShape : true ∈ shape) {body : Stmt}
    (hBody : body.declaresHere = false) (step : Option Expr) (line : Int) :
    Agrees (Chain.Padded shape) Eq
      (do
        exec run body
        advance step)
      (exec run (.block line (body :: (step.map Stmt.expr).toList))) := by
  rw [exec]
  refine Agrees.tracedRight (Agrees.inScopeRight hShape ?_ line) _ _
  rw [execAll]
  refine (agrees_exec (List.mem_cons_of_mem _ hShape) body (by simp [hBody])).bind fun _ => ?_
  cases step with
  | none => exact agree_pure ()
  | some step =>
      change Agrees _ Eq (advance (some step)) (execAll run [.expr step])
      rw [execAll, execAll, bind_pure_unit, exec]
      exact Agrees.tracedRight ((agrees_ofEvaluation (step.agree_eval _)).bind
        fun _ => agree_pure ()) _ _

/-- The iterations of a counting loop agree with those of the loop that it stands for. -/
theorem agrees_iterations {shape : List Bool} (hShape : true ∈ shape) {body : Stmt}
    (hBody : body.declaresHere = false) (keyword : Token) (condition step : Option Expr)
    (line line' : Int) (n : Nat) :
    Agrees (Chain.Padded shape) Eq (iterations run keyword condition step (exec run body) n)
      (repeatWhile (test run keyword (condition.getD (.literal (some (.bool true)) line)))
        (exec run (.block line' (body :: (step.map Stmt.expr).toList))) n) := by
  have hBlame : SameBlame Eq keyword keyword := fun _ _ => rfl
  induction n with
  | zero => exact agree_throw .unfinished
  | succ n ih =>
      rw [iterations, repeatWhile_test_succ]
      refine (agrees_checkTime hBlame).bind fun _ => ?_
      refine (agrees_holds condition line).bind fun holds => ?_
      split
      · refine (agrees_countIteration hBlame).bind fun _ => ?_
        rw [← bind_assoc]
        exact (agrees_iteration hShape hBody step line').bind fun _ => ih
      · exact agree_pure ()

/-- The tree of a counting loop has the meaning of one. -/
theorem agrees_counting {shape : List Bool} (hShape : true ∈ shape) {body : Stmt}
    (hBody : body.declaresHere = false) (keyword : Token) (start : Option Stmt)
    (condition step : Option Expr) :
    Agrees (Chain.Padded shape) Eq (runCounting run keyword start condition step body)
      (exec run (counting keyword start condition step body)) := by
  have hInside : true ∈ true :: shape := List.mem_cons_self
  have hLoop : Agrees (Chain.Padded (true :: shape)) Eq
      (iterations run keyword condition step (exec run body) run.horizon)
      (execAll run [.loop keyword (condition.getD (.literal (some (.bool true)) keyword.line))
        (.block keyword.line (body :: (step.map Stmt.expr).toList))]) := by
    rw [execAll, execAll, bind_pure_unit, exec]
    exact Agrees.tracedRight (agrees_iterations hInside hBody _ _ _ _ _ _) _ _
  have hBlock : Agrees (Chain.Padded (true :: shape)) Eq
      (do
        start.elim (pure ()) (exec run)
        iterations run keyword condition step (exec run body) run.horizon)
      (execAll run (start.toList ++
        [.loop keyword (condition.getD (.literal (some (.bool true)) keyword.line))
          (.block keyword.line (body :: (step.map Stmt.expr).toList))])) := by
    cases start with
    | none => exact hLoop
    | some start =>
        rw [Option.toList_some, List.singleton_append, execAll]
        exact (agrees_exec hInside start fun _ => rfl).bind fun _ => hLoop
  rw [counting, exec]
  exact (Agrees.inFreshScope hShape hBlock _).tracedRight _ _

/-- A statement that is not a declaration binds no name in the scope it is run in. -/
theorem Derives.declaresHere {nearest : Bool} {part : Part} {w : List Token} {ss : List Stmt}
    (h : Derives nearest part w ss) {d : Bool} (hPart : part = .statement d) :
    ∀ s ∈ ss, s.declaresHere = false := by
  induction h generalizing d with
  | expr hSimple =>
      cases hSimple
      simp [Stmt.declaresHere]
  | print => simp [Stmt.declaresHere]
  | block => simp [Stmt.declaresHere]
  | ifThen _ _ _ ih => simpa [Stmt.declaresHere] using ih rfl
  | ifElse _ _ _ _ _ _ ihYes ihNo =>
      simpa [Stmt.declaresHere] using
        ⟨ihYes rfl _ List.mem_cons_self, ihNo rfl _ List.mem_cons_self⟩
  | whileLoop _ _ _ ih => simpa [Stmt.declaresHere] using ih rfl
  | forLoop => simp [Stmt.declaresHere]
  | varDecl => cases hPart
  | statement => cases hPart
  | nil => cases hPart
  | cons => cases hPart

/-- What is read after `for` is the tree of a counting loop, and running that tree is running the
loop on its own terms, from every machine and under every budget: with the same writes, the same
scopes left behind, the same iterations counted and the same failure if there is one. -/
theorem exec_of_read_for {keyword : Token} {ts rest : List Token} {s : Stmt}
    (hKeyword : keyword.kind = .forWord) (hReads : (read (keyword :: ts)).Reads s rest) :
    ∃ start condition step body, s = counting keyword start condition step body ∧
      (∃ c w d, ts = c ++ w ++ rest ∧ Clauses c (start, condition, step) ∧
        Derives true (.statement d) w [body]) ∧
      ∀ run m, SameResult (Machine.Alike Eq) Eq
        (runCounting run keyword start condition step body m) (s.exec run m) := by
  rw [read.eq_def] at hReads
  simp only [hKeyword, Reading.reads_weaken, Reading.reads_andThen, Reading.reads_map,
    reads_readClauses] at hReads
  obtain ⟨⟨start, condition, step⟩, middle, ⟨c, rfl, hClauses⟩, body, hBody, rfl⟩ := hReads
  obtain ⟨w, d, rfl, hDerives, _⟩ := derives_of_read hBody
  refine ⟨start, condition, step, body, rfl, ⟨c, w, d, by simp, hClauses, hDerives⟩,
    fun run m => ?_⟩
  have hDeclares := hDerives.declaresHere rfl body List.mem_cons_self
  have hShape : true ∈ List.replicate m.scopes.scopes.length true := List.mem_cons_self
  have hRan : SameResult (Machine.Alike (Chain.Padded (List.replicate m.scopes.scopes.length true)))
      (Stop.Alike Eq) (runCounting run keyword start condition step body m)
      (exec run (counting keyword start condition step body) m) :=
    agrees_counting hShape hDeclares keyword start condition step m m
      (Machine.alike_replicate_iff.mpr ⟨⟨rfl, rfl, rfl, rfl⟩, rfl⟩)
  generalize runCounting run keyword start condition step body m = ran,
    exec run (counting keyword start condition step body) m = ran' at hRan
  cases hRan with
  | ok hAlike => exact .ok (Machine.alike_replicate_iff.mp hAlike).1
  | error hStop hAlike =>
      refine .error ?_ (Machine.alike_replicate_iff.mp hAlike).1
      cases hStop with
      | fault hFault => rw [hFault]
      | interrupted i => rfl
      | crashed => rfl
      | unfinished => rfl

/-- The tokens of `for (var i; i; i = i) { var i; }`, whose body declares the name that the step
assigns to. -/
theorem exec_of_read_for_shadowing :
    let word (k : Kind) : Token := Token.read k "i" 1
    let i := word .identifier
    let ts := [word .leftParen, word .varWord, i, word .semicolon, i, word .semicolon, i,
      word .equal, i, word .rightParen, word .leftBrace, word .varWord, i, word .semicolon,
      word .rightBrace]
    let body := Stmt.block 1 [.declare "i" i none]
    let s := counting (word .forWord) (some (.declare "i" i none)) (some (.name i))
      (some (.assign i (.name i))) body
    (word .forWord).kind = .forWord ∧ (read (word .forWord :: ts)).Reads s [] ∧
      ∃ start condition step body, s = counting (word .forWord) start condition step body ∧
        (∃ c w d, ts = c ++ w ++ [] ∧ Clauses c (start, condition, step) ∧
          Derives true (.statement d) w [body]) ∧
        ∀ run m, SameResult (Machine.Alike Eq) Eq
          (runCounting run (word .forWord) start condition step body m) (s.exec run m) := by
  intro word i ts body s
  have hName : Expr.Derives .expression [i] (.name i) :=
    .loosest (.operand (.operand (.operand (.operand (.operand (.operand
      (.primary (.name rfl))))))))
  have hClauses : Clauses (ts.take 10) (some (.declare "i" i none), some (.name i),
      some (.assign i (.name i))) :=
    .mk rfl (.declaration rfl (.bare rfl rfl)) (.expression hName rfl)
      (.expression (.assign rfl rfl hName) rfl)
  have hBody : Derives true (.statement false) (ts.drop 10) [body] :=
    .block rfl (.cons (.varDecl rfl (.bare rfl rfl)) .nil) rfl
  have hDerives : Derives true (.statement false) (word .forWord :: ts) [s] :=
    .forLoop rfl hClauses hBody
  have hReads : (read (word .forWord :: ts)).Reads s [] := hDerives.isRead s [] rfl nofun
  exact ⟨rfl, hReads, exec_of_read_for rfl hReads⟩

end Stmt
end Lox
