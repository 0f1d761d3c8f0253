import Lox.Proofs.Execution.Outcome

/-! The parts of an expression or a statement that a run comes to. A part is run in what the whole has
brought about by then, and what stops the whole stops one of its parts or the whole itself. -/
namespace Lox

section Binding

variable {ε σ α β : Type} {x : EStateM ε σ α} {f : α → EStateM ε σ β} {s t : σ}

theorem bind_of_ok {a : α} (h : x s = .ok a t) : (x >>= f) s = f a t := by
  change EStateM.bind x f s = _
  rw [EStateM.bind, h]

theorem bind_of_error {e : ε} (h : x s = .error e t) : (x >>= f) s = .error e t := by
  change EStateM.bind x f s = _
  rw [EStateM.bind, h]

/-- A sequence completes only if both of its parts do. -/
theorem exists_ok_of_bind {b : β} {u : σ} (h : (x >>= f) s = .ok b u) :
    ∃ a t, x s = .ok a t ∧ f a t = .ok b u := by
  cases hx : x s with
  | ok a t =>
      rw [bind_of_ok hx] at h
      exact ⟨a, t, rfl, h⟩
  | error e t =>
      rw [bind_of_error hx] at h
      cases h

/-- A sequence fails in its first part or in its second. -/
theorem error_of_bind {e : ε} {u : σ} (h : (x >>= f) s = .error e u) :
    x s = .error e u ∨ ∃ a t, x s = .ok a t ∧ f a t = .error e u := by
  cases hx : x s with
  | ok a t =>
      rw [bind_of_ok hx] at h
      exact Or.inr ⟨a, t, rfl, h⟩
  | error e' t =>
      rw [bind_of_error hx] at h
      cases h
      exact Or.inl rfl

theorem Moves.of_ok {R : σ → σ → Prop} (h : Moves R x) {a : α} (hRan : x s = .ok a t) : R s t := by
  have hMoved := h s
  rwa [hRan] at hMoved

theorem Moves.of_error {R : σ → σ → Prop} (h : Moves R x) {e : ε} (hRan : x s = .error e t) :
    R s t := by
  have hMoved := h s
  rwa [hRan] at hMoved

end Binding

/-- From a state with some property the computation ends in one, and the value or the error that it
ends with has a property too. -/
structure Yields {ε σ α : Type} (I : σ → Prop) (P : α → Prop) (E : ε → Prop) (x : EStateM ε σ α) :
    Prop where
  state : ∀ s, I s → I (finalState (x s))
  value : ∀ s a t, I s → x s = .ok a t → P a
  error : ∀ s e t, I s → x s = .error e t → E e

section Yielding

variable {ε σ α β : Type} {I : σ → Prop} {P : α → Prop} {Q : β → Prop} {E : ε → Prop}
  {x : EStateM ε σ α}

theorem Yields.of_ok (h : Yields I P E x) {s t : σ} {a : α} (hState : I s) (hRan : x s = .ok a t) :
    I t := by
  have hFinal := h.state s hState
  rwa [hRan] at hFinal

theorem Yields.of_error (h : Yields I P E x) {s t : σ} {e : ε} (hState : I s)
    (hRan : x s = .error e t) : I t := by
  have hFinal := h.state s hState
  rwa [hRan] at hFinal

theorem yields_pure {a : α} (h : P a) : Yields I P E (pure a : EStateM ε σ α) := by
  refine ⟨fun s hState => hState, fun s b t _ hRan => ?_, fun s e t _ hRan => ?_⟩
  · cases hRan
    exact h
  · cases hRan

theorem yields_throw {e : ε} (h : E e) : Yields I P E (throw e : EStateM ε σ α) := by
  refine ⟨fun s hState => hState, fun s b t _ hRan => ?_, fun s e t _ hRan => ?_⟩
  · cases hRan
  · cases hRan
    exact h

/-- What holds of the value of the first part may be used for the second. -/
theorem Yields.bind {f : α → EStateM ε σ β} (h : Yields I P E x)
    (hNext : ∀ a, P a → Yields I Q E (f a)) : Yields I Q E (x >>= f) := by
  refine ⟨fun s hState => ?_, fun s b u hState hRan => ?_, fun s e u hState hRan => ?_⟩
  · have hFirst := h.state s hState
    cases hx : x s with
    | ok a t =>
        rw [hx] at hFirst
        rw [bind_of_ok hx]
        exact (hNext a (h.value s a t hState hx)).state t hFirst
    | error e t =>
        rw [hx] at hFirst
        rw [bind_of_error hx]
        exact hFirst
  · obtain ⟨a, t, hx, hRest⟩ := exists_ok_of_bind hRan
    exact (hNext a (h.value s a t hState hx)).value t b u (h.of_ok hState hx) hRest
  · rcases error_of_bind hRan with hx | ⟨a, t, hx, hRest⟩
    · exact h.error s e u hState hx
    · exact (hNext a (h.value s a t hState hx)).error t e u (h.of_ok hState hx) hRest

end Yielding

namespace Expr

/-- An expression that is evaluated in some scopes has a part of it evaluated in others. -/
inductive Starts : Expr → Chain → Expr → Chain → Prop
  | assigned (target : Token) (value : Expr) (c : Chain) : Starts (.assign target value) c value c
  | left (left : Expr) (op : Token) (right : Expr) (c : Chain) :
      Starts (.binary left op right) c left c
  | right {left right : Expr} {op : Token} {c d : Chain} {a : Slot} (hLeft : left.eval c = .ok a d) :
      Starts (.binary left op right) c right d
  | deciding (left : Expr) (op : Token) (right : Expr) (c : Chain) :
      Starts (.logical left op right) c left c
  | undecided {left right : Expr} {op : Token} {c d : Chain} {a : Slot} (hLeft : left.eval c = .ok a d)
      (hOpen : op.kind.decides? a = some false) : Starts (.logical left op right) c right d
  | operand (op : Token) (operand : Expr) (c : Chain) : Starts (.unary op operand) c operand c
  | inner (inner : Expr) (c : Chain) : Starts (.group inner) c inner c

/-- An expression that is evaluated in some scopes comes to evaluate an expression inside it, or
itself, in others. -/
inductive Visits (e : Expr) (c : Chain) : Expr → Chain → Prop
  | self : Visits e c e c
  | part {e' e'' : Expr} {c' c'' : Chain} (h : Visits e c e' c') (hStarts : Starts e' c' e'' c'') :
      Visits e c e'' c''

/-- An expression whose parts have values fails itself. -/
inductive Raises : Expr → Chain → Fault → Prop
  | unbound {token : Token} {c : Chain} (h : c.find? token.lexeme = none) :
      Raises (.name token) c ⟨.undefined, token⟩
  | unassigned {target : Token} {value : Expr} {c d : Chain} {v : Slot}
      (hValue : value.eval c = .ok v d) (h : d.assign? target.lexeme v = none) :
      Raises (.assign target value) c ⟨.undefined, target⟩
  | binary {left right : Expr} {op : Token} {c c' c'' : Chain} {a b : Slot} {f : BinaryOp}
      {e : OperandError} (hLeft : left.eval c = .ok a c') (hRight : right.eval c' = .ok b c'')
      (hOp : BinaryOp.ofKind? op.kind = some f) (h : f.apply a b = .error e) :
      Raises (.binary left op right) c ⟨.operands e, op⟩
  | noBinary {left right : Expr} {op : Token} {c c' c'' : Chain} {a b : Slot}
      (hLeft : left.eval c = .ok a c') (hRight : right.eval c' = .ok b c'')
      (hOp : BinaryOp.ofKind? op.kind = none) : Raises (.binary left op right) c ⟨.operator, op⟩
  | noLogical {left right : Expr} {op : Token} {c c' : Chain} {a : Slot}
      (hLeft : left.eval c = .ok a c') (hOp : op.kind.decides? a = none) :
      Raises (.logical left op right) c ⟨.operator, op⟩
  | unary {operand : Expr} {op : Token} {c c' : Chain} {a : Slot} {f : UnaryOp} {e : OperandError}
      (hOperand : operand.eval c = .ok a c') (hOp : UnaryOp.ofKind? op.kind = some f)
      (h : f.apply a = .error e) : Raises (.unary op operand) c ⟨.operands e, op⟩
  | noUnary {operand : Expr} {op : Token} {c c' : Chain} {a : Slot}
      (hOperand : operand.eval c = .ok a c') (hOp : UnaryOp.ofKind? op.kind = none) :
      Raises (.unary op operand) c ⟨.operator, op⟩

variable {e e' e'' : Expr} {c c' c'' d : Chain} {f : Fault}

/-- Visits can be followed from the outermost expression on. -/
theorem Visits.head (hStarts : Starts e c e' c') (h : Visits e' c' e'' c'') : Visits e c e'' c'' := by
  induction h with
  | self => exact .part .self hStarts
  | part _ hPart ih => exact .part ih hPart

/-- What holds of an expression and the scopes that it is evaluated in, and of the parts that it has
evaluated then, holds of all that is evaluated. -/
theorem Visits.invariant {P : Expr → Chain → Prop} (h : Visits e c e' c') (hFirst : P e c)
    (hStep : ∀ e c e' c', P e c → Starts e c e' c' → P e' c') : P e' c' := by
  induction h with
  | self => exact hFirst
  | part _ hStarts ih => exact hStep _ _ _ _ ih hStarts

/-- An expression that fails fails in one of its parts, or itself. -/
theorem starts_or_raises (h : e.eval c = .error f d) :
    (∃ e' c' d', Starts e c e' c' ∧ e'.eval c' = .error f d') ∨ e.Raises c f := by
  cases e with
  | literal value line => cases h
  | name token =>
      rw [eval, Evaluation.lookup_apply] at h
      cases hFind : c.find? token.lexeme with
      | some v =>
          rw [hFind] at h
          cases h
      | none =>
          rw [hFind] at h
          cases h
          exact Or.inr (.unbound hFind)
  | assign target value =>
      rw [eval] at h
      rcases error_of_bind h with hValue | ⟨v, c', hValue, hRest⟩
      · exact Or.inl ⟨_, _, _, .assigned target value c, hValue⟩
      · rcases error_of_bind hRest with hAssign | ⟨_, _, _, hPure⟩
        · rw [Evaluation.assign_apply] at hAssign
          cases hFound : c'.assign? target.lexeme v with
          | some c'' =>
              rw [hFound] at hAssign
              cases hAssign
          | none =>
              rw [hFound] at hAssign
              cases hAssign
              exact Or.inr (.unassigned hValue hFound)
        · cases hPure
  | binary left op right =>
      rw [eval] at h
      rcases error_of_bind h with hLeft | ⟨a, c', hLeft, hRest⟩
      · exact Or.inl ⟨_, _, _, .left left op right c, hLeft⟩
      · rcases error_of_bind hRest with hRight | ⟨b, c'', hRight, hApply⟩
        · exact Or.inl ⟨_, _, _, .right hLeft, hRight⟩
        · cases hOp : BinaryOp.ofKind? op.kind with
          | none =>
              rw [hOp] at hApply
              cases hApply
              exact Or.inr (.noBinary hLeft hRight hOp)
          | some g =>
              rw [hOp] at hApply
              simp only at hApply
              cases hResult : g.apply a b with
              | ok v =>
                  rw [hResult] at hApply
                  cases hApply
              | error e =>
                  rw [hResult] at hApply
                  cases hApply
                  exact Or.inr (.binary hLeft hRight hOp hResult)
  | logical left op right =>
      rw [eval] at h
      rcases error_of_bind h with hLeft | ⟨a, c', hLeft, hRest⟩
      · exact Or.inl ⟨_, _, _, .deciding left op right c, hLeft⟩
      · cases hDecides : op.kind.decides? a with
        | none =>
            rw [hDecides] at hRest
            cases hRest
            exact Or.inr (.noLogical hLeft hDecides)
        | some decided =>
            rw [hDecides] at hRest
            cases decided with
            | true => cases hRest
            | false => exact Or.inl ⟨_, _, _, .undecided hLeft hDecides, hRest⟩
  | unary op operand =>
      rw [eval] at h
      rcases error_of_bind h with hOperand | ⟨a, c', hOperand, hApply⟩
      · exact Or.inl ⟨_, _, _, .operand op operand c, hOperand⟩
      · cases hOp : UnaryOp.ofKind? op.kind with
        | none =>
            rw [hOp] at hApply
            cases hApply
            exact Or.inr (.noUnary hOperand hOp)
        | some g =>
            rw [hOp] at hApply
            simp only at hApply
            cases hResult : g.apply a with
            | ok v =>
                rw [hResult] at hApply
                cases hApply
            | error e =>
                rw [hResult] at hApply
                cases hApply
                exact Or.inr (.unary hOperand hOp hResult)
  | group inner => exact Or.inl ⟨_, _, _, .inner inner c, h⟩

/-- A part is smaller than the expression that it is part of. -/
theorem Starts.sizeOf_lt (h : Starts e c e' c') : sizeOf e' < sizeOf e := by
  cases h <;> simp only [assign.sizeOf_spec, binary.sizeOf_spec, logical.sizeOf_spec,
    unary.sizeOf_spec, group.sizeOf_spec] <;> omega

/-- Some expression inside an expression that fails is the one to fail. -/
theorem exists_raises (e : Expr) (c : Chain) {d : Chain} (h : e.eval c = .error f d) :
    ∃ e' c', Visits e c e' c' ∧ e'.Raises c' f := by
  rcases starts_or_raises h with ⟨e', c', d', hStarts, hFails⟩ | hRaises
  · have hSmaller := hStarts.sizeOf_lt
    obtain ⟨e'', c'', hVisits, hRaises⟩ := exists_raises e' c' hFails
    exact ⟨e'', c'', hVisits.head hStarts, hRaises⟩
  · exact ⟨e, c, .self, hRaises⟩
termination_by sizeOf e

end Expr

/-- The statement is stopped by a limit of the run or by its surroundings, or comes down. -/
def Stop.IsImposed : Stop → Prop
  | .fault f => f.code = .budget ∨ f.code = .io
  | _ => True

namespace Machine

def started (s : Stmt) (m : Machine) : Machine := m.record (.trace (.stmtStart s.line s.kindName))

/-- The machine that a statement leaves when a part of it is stopped: a block closes its scope. -/
def closed (s : Stmt) (m : Machine) : Machine :=
  match s with
  | .block line _ => m.leave line
  | _ => m

/-- Asking whether to stop leaves the scopes alone. -/
theorem scopes_of_poll {run : Run} {answer : Option Interrupt} {m n : Machine}
    (h : m.poll run = (answer, n)) : n.scopes = m.scopes := by
  have hPolled : (m.poll run).2.scopes = m.scopes := rfl
  rwa [h] at hPolled

end Machine

namespace Action

/-- A loop that is followed for so many iterations comes to test its condition in a machine. -/
inductive Tries (test : Action Bool) (body : Action Unit) : Nat → Machine → Machine → Prop
  | first (horizon : Nat) (m : Machine) : Tries test body (horizon + 1) m m
  | later {horizon : Nat} {m k n l : Machine} (hTest : test m = .ok true k) (hBody : body k = .ok () n)
      (h : Tries test body horizon n l) : Tries test body (horizon + 1) m l

variable {test : Action Bool} {body : Action Unit} {stop : Stop} {horizon : Nat} {m k n l : Machine}

/-- A loop whose condition holds runs its body, and what stops the body stops the loop. -/
theorem repeatWhile_of_error (hTest : test m = .ok true k) (hBody : body k = .error stop n) :
    repeatWhile test body (horizon + 1) m = .error stop n := by
  rw [repeatWhile_succ, bind_of_ok hTest, if_pos rfl]
  exact bind_of_error hBody

/-- After a full iteration a loop goes on as one with an iteration less. -/
theorem repeatWhile_of_ok (hTest : test m = .ok true k) (hBody : body k = .ok () n) :
    repeatWhile test body (horizon + 1) m = repeatWhile test body horizon n := by
  rw [repeatWhile_succ, bind_of_ok hTest, if_pos rfl]
  exact bind_of_ok hBody

/-- As an action an expression stops only with the fault that evaluation ends in. -/
theorem error_of_eval {e : Expr} (h : eval e m = .error stop n) :
    ∃ f c, e.eval m.scopes = .error f c ∧ stop = .fault f := by
  rw [eval, ofEvaluation] at h
  cases hEval : e.eval m.scopes with
  | ok v c =>
      rw [hEval] at h
      cases h
  | error f c =>
      rw [hEval] at h
      cases h
      exact ⟨f, c, rfl, rfl⟩

/-- A write is stopped by the output sink only. -/
theorem isImposed_of_write {run : Run} {keyword : Token} {text : Text}
    (h : write run keyword text m = .error stop n) : stop.IsImposed := by
  rw [write] at h
  cases hRefusal : run.host.refusal m.progress.attempts with
  | none =>
      rw [hRefusal] at h
      cases h
  | some reason =>
      rw [hRefusal] at h
      cases h
      exact Or.inr rfl

theorem isImposed_of_present {v : Slot} (h : present v m = .error stop n) : stop.IsImposed := by
  cases v with
  | some v => cases h
  | none =>
      cases h
      trivial

/-- The check of the clock stops a statement from outside. -/
theorem isImposed_of_checkTime {run : Run} {keyword : Token}
    (h : checkTime run keyword m = .error stop n) : stop.IsImposed := by
  rcases stop_of_checkTime h with ⟨i, rfl⟩ | ⟨_, rfl⟩
  · trivial
  · exact Or.inl rfl

theorem isImposed_of_countIteration {run : Run} {keyword : Token}
    (h : countIteration run keyword m = .error stop n) : stop.IsImposed := by
  rw [countIteration] at h
  split at h
  · cases h
    exact Or.inl rfl
  · cases h

/-- A loop stops if the body of an iteration that it comes to stops. -/
theorem Tries.stops (h : Tries test body horizon m l) (hTest : test l = .ok true k)
    (hBody : body k = .error stop n) : repeatWhile test body horizon m = .error stop n := by
  induction h with
  | first => exact repeatWhile_of_error hTest hBody
  | later hTested hRan _ ih => rw [repeatWhile_of_ok hTested hRan, ih hTest]

/-- A loop stops if a test that it comes to stops. -/
theorem Tries.stops_of_test (h : Tries test body horizon m l) (hTest : test l = .error stop n) :
    repeatWhile test body horizon m = .error stop n := by
  induction h with
  | first => rw [repeatWhile_succ, bind_of_error hTest]
  | later hTested hRan _ ih => rw [repeatWhile_of_ok hTested hRan, ih hTest]

/-- A loop of which every body completes is stopped in a test, or followed no further. -/
theorem exists_tries_of_stops
    (hParts : ∀ l k, Tries test body horizon m l → test l = .ok true k → ∃ n, body k = .ok () n)
    (h : repeatWhile test body horizon m = .error stop n) :
    stop = .unfinished ∨ ∃ l, Tries test body horizon m l ∧ test l = .error stop n := by
  induction horizon generalizing m with
  | zero =>
      cases h
      exact Or.inl rfl
  | succ horizon ih =>
      rw [repeatWhile_succ] at h
      rcases error_of_bind h with hStops | ⟨holds, k, hTest, hRest⟩
      · exact Or.inr ⟨m, .first horizon m, hStops⟩
      · cases holds with
        | false => cases hRest
        | true =>
            obtain ⟨n', hBody⟩ := hParts m k (.first horizon m) hTest
            rw [if_pos rfl, bind_of_ok hBody] at hRest
            refine (ih (fun l j hTries => hParts l j (.later hTest hBody hTries)) hRest).imp id ?_
            rintro ⟨l, hTries, hStops⟩
            exact ⟨l, .later hTest hBody hTries, hStops⟩

end Action

namespace Stmt

open Lox.Action

/-- What a statement does between its start and its end in the trace. -/
def work (run : Run) : Stmt → Action Unit
  | .expr e => eval e >>= fun _ => pure ()
  | .print keyword e => do
    let v ← present (← eval e)
    write run keyword v.text
    trace (.print keyword.line v)
  | .declare name _ none => modify fun m => { m with scopes := m.scopes.define name (some .nil) }
  | .declare name _ (some e) => do
    let v ← eval e
    modify fun m => { m with scopes := m.scopes.define name v }
  | .block line body => inScope line (execAll run body)
  | .branch _ condition yes no => do
    let v ← eval condition
    if v.truthy then exec run yes else no.elim (pure ()) (exec run)
  | .loop keyword condition body =>
    repeatWhile (test run keyword condition) (exec run body) run.horizon

/-- A statement does its work between two events of the trace. -/
theorem exec_eq (run : Run) (s : Stmt) : s.exec run = traced s.line s.kindName (s.work run) := by
  cases s with
  | declare name token value => cases value <;> rw [exec] <;> rfl
  | branch keyword condition yes no => cases no <;> rw [exec] <;> rfl
  | _ =>
      rw [exec]
      rfl

/-- The machine of a statement that is stopped has no event for its end. -/
theorem exec_apply (run : Run) (s : Stmt) (m : Machine) : s.exec run m =
    match s.work run (m.started s) with
    | .ok () n => .ok () (n.record (.trace (.stmtEnd s.line)))
    | .error stop n => .error stop n := by
  rw [exec_eq, traced_apply]
  rfl

/-- Statements that are run in order come to one of them, in a machine. -/
inductive Reaches (run : Run) : List Stmt → Machine → Stmt → Machine → Prop
  | head (s : Stmt) (ss : List Stmt) (m : Machine) : Reaches run (s :: ss) m s m
  | tail {s t : Stmt} {ss : List Stmt} {m n k : Machine} (hRan : s.exec run m = .ok () n)
      (h : Reaches run ss n t k) : Reaches run (s :: ss) m t k

/-- A statement that does its work from one machine starts a part of it in another. -/
inductive Starts (run : Run) : Stmt → Machine → Stmt → Machine → Prop
  | block {line : Int} {body : List Stmt} {m k : Machine} {t : Stmt}
      (h : Reaches run body (m.enter line) t k) : Starts run (.block line body) m t k
  | yes {keyword : Token} {condition : Expr} {yes : Stmt} {no : Option Stmt} {m k : Machine} {v : Slot}
      (hCondition : eval condition m = .ok v k) (hHolds : v.truthy = true) :
      Starts run (.branch keyword condition yes no) m yes k
  | no {keyword : Token} {condition : Expr} {yes no : Stmt} {m k : Machine} {v : Slot}
      (hCondition : eval condition m = .ok v k) (hFails : v.truthy = false) :
      Starts run (.branch keyword condition yes (some no)) m no k
  | body {keyword : Token} {condition : Expr} {body : Stmt} {m l k : Machine}
      (hTries : Tries (test run keyword condition) (body.exec run) run.horizon m l)
      (hTest : test run keyword condition l = .ok true k) :
      Starts run (.loop keyword condition body) m body k

/-- A statement that does its work from one machine evaluates an expression of its own in another. -/
inductive Evaluates (run : Run) : Stmt → Machine → Expr → Machine → Prop
  | expr (e : Expr) (m : Machine) : Evaluates run (.expr e) m e m
  | print (keyword : Token) (e : Expr) (m : Machine) : Evaluates run (.print keyword e) m e m
  | declare (name : Text) (token : Token) (e : Expr) (m : Machine) :
      Evaluates run (.declare name token (some e)) m e m
  | branch (keyword : Token) (condition : Expr) (yes : Stmt) (no : Option Stmt) (m : Machine) :
      Evaluates run (.branch keyword condition yes no) m condition m
  | loop {keyword : Token} {condition : Expr} {body : Stmt} {m l k : Machine}
      (hTries : Tries (test run keyword condition) (body.exec run) run.horizon m l)
      (hTime : checkTime run keyword l = .ok () k) :
      Evaluates run (.loop keyword condition body) m condition k

/-- A statement that is run from one machine comes to run a statement inside it, or itself, from
another. -/
inductive Visits (run : Run) (s : Stmt) (m : Machine) : Stmt → Machine → Prop
  | self : Visits run s m s m
  | part {t u : Stmt} {k l : Machine} (h : Visits run s m t k)
      (hStarts : Starts run t (k.started t) u l) : Visits run s m u l

/-- The statements from one that is stopped to the one that was at work then. Each is a part of the
one before it, and the last is stopped although all parts that it started have completed. -/
inductive StopsAlong (run : Run) (stop : Stop) : Stmt → Machine → List Stmt → Prop
  | last {s : Stmt} {m n : Machine} (hStops : s.exec run m = .error stop n)
      (hParts : ∀ t k, Starts run s (m.started s) t k → ∃ l, t.exec run k = .ok () l) :
      StopsAlong run stop s m [s]
  | next {s t : Stmt} {m k : Machine} {path : List Stmt} (hStarts : Starts run s (m.started s) t k)
      (h : StopsAlong run stop t k path) : StopsAlong run stop s m (s :: path)

variable {run : Run} {stop : Stop} {s t : Stmt} {ss : List Stmt} {m k n : Machine}

/-- A statement that completes has done its work. -/
theorem exists_work_of_ok (h : s.exec run m = .ok () n) :
    ∃ k, s.work run (m.started s) = .ok () k ∧ n = k.record (.trace (.stmtEnd s.line)) := by
  rw [exec_apply] at h
  cases hWork : s.work run (m.started s) with
  | ok a k =>
      rw [hWork] at h
      cases h
      exact ⟨k, rfl, rfl⟩
  | error stop k =>
      rw [hWork] at h
      cases h

/-- A statement that is stopped is stopped in its work. -/
theorem work_of_error (h : s.exec run m = .error stop n) :
    s.work run (m.started s) = .error stop n := by
  rw [exec_apply] at h
  cases hWork : s.work run (m.started s) with
  | ok a k =>
      rw [hWork] at h
      cases h
  | error stop' k =>
      rw [hWork] at h
      exact h

/-- Statements in a row stop if one of them that they come to stops. -/
theorem Reaches.stops (h : Reaches run ss m t k) (hPart : t.exec run k = .error stop n) :
    execAll run ss m = .error stop n := by
  induction h with
  | head => rw [execAll, bind_of_error hPart]
  | tail hRan _ ih => rw [execAll, bind_of_ok hRan, ih hPart]

/-- If statements in a row stop, they come to one that stops. -/
theorem exists_reaches_of_stops (h : execAll run ss m = .error stop n) :
    ∃ t k, Reaches run ss m t k ∧ t.exec run k = .error stop n := by
  induction ss generalizing m with
  | nil => cases h
  | cons s ss ih =>
      rw [execAll] at h
      rcases error_of_bind h with hStops | ⟨_, k, hRan, hRest⟩
      · exact ⟨s, m, .head s ss m, hStops⟩
      · obtain ⟨t, l, hReaches, hStops⟩ := ih hRest
        exact ⟨t, l, .tail hRan hReaches, hStops⟩

/-- What stops a part of a statement stops the work of the statement. -/
theorem Starts.stops_work (h : Starts run s m t k) (hPart : t.exec run k = .error stop n) :
    s.work run m = .error stop (n.closed s) := by
  cases h with
  | block hReaches => rw [work, inScope, hReaches.stops hPart, Machine.closed]
  | yes hCondition hHolds =>
      rw [work, bind_of_ok hCondition, if_pos hHolds]
      exact hPart
  | no hCondition hFails =>
      rw [work, bind_of_ok hCondition, hFails, if_neg Bool.false_ne_true]
      exact hPart
  | body hTries hTest => exact hTries.stops hTest hPart

/-- A statement stops if a part that it starts stops. -/
theorem Starts.stops (h : Starts run s (m.started s) t k) (hPart : t.exec run k = .error stop n) :
    s.exec run m = .error stop (n.closed s) := by
  rw [exec_apply, h.stops_work hPart]

/-- A statement that is stopped although not all of its parts complete is stopped by one of them. -/
theorem exists_part_of_stops (h : s.exec run m = .error stop n)
    (hParts : ¬ ∀ t k, Starts run s (m.started s) t k → ∃ l, t.exec run k = .ok () l) :
    ∃ t k l, Starts run s (m.started s) t k ∧ t.exec run k = .error stop l := by
  push Not at hParts
  obtain ⟨t, k, hStarts, hIncomplete⟩ := hParts
  cases hPart : t.exec run k with
  | ok _ l => exact absurd hPart (hIncomplete l)
  | error stop' l =>
      have hSame := hStarts.stops hPart
      rw [h] at hSame
      cases hSame
      exact ⟨t, k, l, hStarts, hPart⟩

theorem Reaches.mem (h : Reaches run ss m t k) : t ∈ ss := by
  induction h with
  | head => exact List.mem_cons_self
  | tail _ _ ih => exact List.mem_cons_of_mem _ ih

/-- A part is smaller than the statement that it is part of. -/
theorem Starts.sizeOf_lt (h : Starts run s m t k) : sizeOf t < sizeOf s := by
  cases h with
  | block hReaches =>
      have hLess := List.sizeOf_lt_of_mem hReaches.mem
      rw [block.sizeOf_spec]
      omega
  | yes =>
      rw [branch.sizeOf_spec]
      omega
  | no =>
      rw [branch.sizeOf_spec, Option.some.sizeOf_spec]
      omega
  | body =>
      rw [loop.sizeOf_spec]
      omega

/-- There is a way from every statement that is stopped to the one that was at work then. -/
theorem exists_stopsAlong (s : Stmt) (m : Machine) {n : Machine} (h : s.exec run m = .error stop n) :
    ∃ path, StopsAlong run stop s m path := by
  by_cases hParts : ∀ t k, Starts run s (m.started s) t k → ∃ l, t.exec run k = .ok () l
  · exact ⟨[s], .last h hParts⟩
  · obtain ⟨t, k, l, hStarts, hPart⟩ := exists_part_of_stops h hParts
    have hSmaller := hStarts.sizeOf_lt
    obtain ⟨path, hPath⟩ := exists_stopsAlong t k hPart
    exact ⟨s :: path, .next hStarts hPath⟩
termination_by sizeOf s

/-- Visits can be followed from the outermost statement on. -/
theorem Visits.head {u : Stmt} {l : Machine} (hStarts : Starts run s (m.started s) t k)
    (h : Visits run t k u l) : Visits run s m u l := by
  induction h with
  | self => exact .part .self hStarts
  | part _ hPart ih => exact .part ih hPart

/-- What holds of a statement and the machine that it is run from, and of the parts that it starts
whenever it does so, holds of every statement that the run comes to. -/
theorem Visits.invariant {P : Stmt → Machine → Prop} (h : Visits run s m t k) (hFirst : P s m)
    (hStep : ∀ t k u l, P t k → Starts run t (k.started t) u l → P u l) : P t k := by
  induction h with
  | self => exact hFirst
  | part _ hStarts ih => exact hStep _ _ _ _ ih hStarts

/-- A block is stopped by one of its statements. -/
theorem exists_starts_of_block {line : Int} {body : List Stmt}
    (h : (Stmt.block line body).work run m = .error stop n) :
    ∃ t k l, Starts run (.block line body) m t k ∧ t.exec run k = .error stop l := by
  rw [work, inScope] at h
  cases hBody : execAll run body (m.enter line) with
  | ok a k =>
      rw [hBody] at h
      cases h
  | error stop' k =>
      rw [hBody] at h
      cases h
      obtain ⟨t, l, hReaches, hStops⟩ := exists_reaches_of_stops hBody
      exact ⟨t, l, k, .block hReaches, hStops⟩

/-- A branch is stopped by its condition or by the statement that it chooses. -/
theorem eval_or_starts_of_branch {keyword : Token} {condition : Expr} {yes : Stmt} {no : Option Stmt}
    (h : (Stmt.branch keyword condition yes no).work run m = .error stop n) :
    eval condition m = .error stop n ∨
      ∃ t k, Starts run (.branch keyword condition yes no) m t k ∧ t.exec run k = .error stop n := by
  rcases error_of_bind h with hEval | ⟨v, k, hEval, hBranch⟩
  · exact Or.inl hEval
  · right
    split at hBranch
    next hHolds => exact ⟨yes, k, .yes hEval hHolds, hBranch⟩
    next hFails =>
      cases no with
      | none => cases hBranch
      | some no => exact ⟨no, k, .no hEval (Bool.not_eq_true _ ▸ hFails), hBranch⟩

/-- A statement that is stopped although its parts complete comes down, or is stopped by a limit, by its
surroundings, or by the failure of an expression of its own. -/
theorem isImposed_or_evaluates (hParts : ∀ t k, Starts run s m t k → ∃ l, t.exec run k = .ok () l)
    (h : s.work run m = .error stop n) :
    stop.IsImposed ∨ ∃ e k f c, Evaluates run s m e k ∧ e.eval k.scopes = .error f c ∧ stop = .fault f := by
  -- whatever stops the statement stops it outside the parts that it starts
  have hPart {t : Stmt} {k l : Machine} (hStarts : Starts run s m t k) :
      ¬ t.exec run k = .error stop l := by
    intro hStops
    obtain ⟨l', hCompletes⟩ := hParts t k hStarts
    cases hStops.symm.trans hCompletes
  have hEvaluates {e : Expr} {k n : Machine} (hEvaluates : Evaluates run s m e k)
      (hEval : eval e k = .error stop n) : stop.IsImposed ∨
        ∃ e k f c, Evaluates run s m e k ∧ e.eval k.scopes = .error f c ∧ stop = .fault f := by
    obtain ⟨f, c, hFails, hFault⟩ := error_of_eval hEval
    exact Or.inr ⟨e, k, f, c, hEvaluates, hFails, hFault⟩
  cases s with
  | expr e =>
      rcases error_of_bind h with hEval | ⟨_, _, _, hPure⟩
      · exact hEvaluates (.expr e m) hEval
      · cases hPure
  | print keyword e =>
      rcases error_of_bind h with hEval | ⟨v, k, _, hPrint⟩
      · exact hEvaluates (.print keyword e m) hEval
      · rcases error_of_bind hPrint with hPresent | ⟨_, _, _, hShown⟩
        · exact Or.inl (isImposed_of_present hPresent)
        · rcases error_of_bind hShown with hWrite | ⟨_, _, _, hTrace⟩
          · exact Or.inl (isImposed_of_write hWrite)
          · cases hTrace
  | declare name token value =>
      cases value with
      | none => cases h
      | some e =>
          rcases error_of_bind h with hEval | ⟨_, _, _, hDefine⟩
          · exact hEvaluates (.declare name token e m) hEval
          · cases hDefine
  | block line body =>
      obtain ⟨t, k, l, hStarts, hStops⟩ := exists_starts_of_block h
      exact absurd hStops (hPart hStarts)
  | branch keyword condition yes no =>
      rcases eval_or_starts_of_branch h with hEval | ⟨t, k, hStarts, hStops⟩
      · exact hEvaluates (.branch keyword condition yes no m) hEval
      · exact absurd hStops (hPart hStarts)
  | loop keyword condition body =>
      rcases exists_tries_of_stops (fun l k hTries hTest => hParts body k (.body hTries hTest)) h with
        rfl | ⟨l, hTries, hTest⟩
      · exact Or.inl trivial
      · rcases error_of_bind hTest with hTime | ⟨_, k, hTime, hRest⟩
        · exact Or.inl (isImposed_of_checkTime hTime)
        · rcases error_of_bind hRest with hEval | ⟨v, k', _, hCount⟩
          · exact hEvaluates (.loop hTries hTime) hEval
          · split at hCount
            · rcases error_of_bind hCount with hCount | ⟨_, _, _, hPure⟩
              · exact Or.inl (isImposed_of_countIteration hCount)
              · cases hPure
            · cases hCount

/-- A statement comes down, or is stopped by a limit, by its surroundings, or by the failure of an
expression that some statement inside it evaluates. -/
theorem isImposed_or_visits (h : s.exec run m = .error stop n) : stop.IsImposed ∨
    ∃ t k e l f c, Visits run s m t k ∧ Evaluates run t (k.started t) e l ∧
      e.eval l.scopes = .error f c ∧ stop = .fault f := by
  obtain ⟨path, hPath⟩ := exists_stopsAlong s m h
  clear h
  induction hPath with
  | @last s m n hStops hParts =>
      refine (isImposed_or_evaluates hParts (work_of_error hStops)).imp id ?_
      rintro ⟨e, l, f, c, hEvaluates, hFails, hFault⟩
      exact ⟨s, m, e, l, f, c, .self, hEvaluates, hFails, hFault⟩
  | next hStarts _ ih =>
      refine ih.imp id ?_
      rintro ⟨t, k, e, l, f, c, hVisits, hEvaluates⟩
      exact ⟨t, k, e, l, f, c, hVisits.head hStarts, hEvaluates⟩

end Stmt
end Lox
