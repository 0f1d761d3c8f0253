import Lox.Proofs.Execution.Parts

/-! Lexical scope. What a program uses is looked up in the scopes of the moment, but which names are
bound there can be read off its text: as long as nothing has failed, a declaration that stands before a
use, in the same list of statements or in one around it, has been run. -/
namespace Lox

namespace Chain

variable {c d : Chain} {known : List Text} {name : Text}

/-- A name is found if some scope binds it. -/
theorem isSome_find?_iff : (c.find? name).isSome = true ↔ ∃ ns ∈ c.names, name ∈ ns := by
  simp [find?, names, List.findSome?_isSome_iff, Scope.isSome_find?_iff]

/-- Assignment succeeds for the names that can be read. -/
theorem isSome_assignIn (name : Text) (value : Slot) (ss : List Scope) :
    (assignIn name value ss).isSome = (ss.findSome? (Scope.find? · name)).isSome := by
  induction ss with
  | nil => rfl
  | cons s ss ih =>
      rw [assignIn, List.findSome?_cons]
      cases s.find? name with
      | some v => rfl
      | none => simpa using ih

/-- An assignment succeeds just where a read does. -/
theorem isSome_assign? (c : Chain) (name : Text) (value : Slot) :
    (c.assign? name value).isSome = (c.find? name).isSome := by
  have hScopes := isSome_assignIn name value c.scopes
  rw [assign?, find?, ← hScopes]
  cases hAssign : assignIn name value c.scopes with
  | none => rfl
  | some ss =>
      have hNames := (names_assignIn hAssign).1
      cases ss with
      | nil => cases hNames
      | cons s ss => rfl

def Binds (c : Chain) (known : List Text) : Prop := ∀ name ∈ known, (c.find? name).isSome = true

/-- What is bound stays bound. -/
theorem Confined.binds {declared written : List Text} (h : Confined declared written c d)
    (hBinds : c.Binds known) : d.Binds known := by
  intro name hName
  obtain ⟨new, -, hCurrent⟩ := h.current
  obtain ⟨ns, hScope, hBound⟩ := isSome_find?_iff.mp (hBinds name hName)
  rw [isSome_find?_iff, names, scopes, List.map_cons, hCurrent, h.outer]
  rcases List.mem_cons.mp hScope with rfl | hOuter
  · exact ⟨_, List.mem_cons_self, List.mem_append_left new hBound⟩
  · exact ⟨ns, List.mem_cons_of_mem _ hOuter, hBound⟩

theorem Binds.push (h : c.Binds known) : c.push.Binds known := h

/-- A name is bound after its declaration. -/
theorem isSome_find?_define (c : Chain) (name : Text) (value : Slot) :
    ((c.define name value).find? name).isSome = true := by
  rw [find?, define, scopes, List.findSome?_cons, Scope.find?_define, if_pos rfl, Option.isSome_some]

end Chain

namespace Expr

def names : Expr → List Text
  | .literal _ _ => []
  | .name token => [token.lexeme]
  | .assign target value => target.lexeme :: value.names
  | .binary left _ right => left.names ++ right.names
  | .logical left _ right => left.names ++ right.names
  | .unary _ operand => operand.names
  | .group inner => inner.names

end Expr

namespace Stmt

/-- The name that the statement declares for those after it in its list. -/
def introduced : Stmt → List Text
  | .declare name _ _ => [name]
  | _ => []

mutual

/-- Where the names `known` are in scope, every use in the statement is of a name in scope. -/
def Scoped (known : List Text) : Stmt → Prop
  | .expr e => e.names ⊆ known
  | .print _ e => e.names ⊆ known
  | .declare _ _ none => True
  | .declare _ _ (some e) => e.names ⊆ known
  | .block _ body => ScopedAll known body
  | .branch _ condition yes none => condition.names ⊆ known ∧ yes.Scoped known
  | .branch _ condition yes (some no) =>
    condition.names ⊆ known ∧ yes.Scoped known ∧ no.Scoped known
  | .loop _ condition body => condition.names ⊆ known ∧ body.Scoped known

def ScopedAll (known : List Text) : List Stmt → Prop
  | [] => True
  | s :: rest => s.Scoped known ∧ ScopedAll (s.introduced ++ known) rest

end

/-- The first of some statements need nothing that the later ones declare. -/
theorem ScopedAll.left {known : List Text} {ss ts : List Stmt} (h : ScopedAll known (ss ++ ts)) :
    ScopedAll known ss := by
  induction ss generalizing known with
  | nil => trivial
  | cons s ss ih => exact ⟨h.1, ih h.2⟩

end Stmt

namespace Expr

variable {e e' : Expr} {c c' : Chain} {known : List Text}

/-- The parts of an expression whose names are bound are evaluated where their names are bound. -/
theorem Starts.binds (h : Starts e c e' c') (hNames : e.names ⊆ known) (hBinds : c.Binds known) :
    e'.names ⊆ known ∧ c'.Binds known := by
  have hKept {e : Expr} {v : Slot} (h : e.eval c = .ok v c') : c'.Binds known :=
    (e.moves_eval.of_ok h).binds hBinds
  cases h with
  | assigned => exact ⟨(List.cons_subset.mp hNames).2, hBinds⟩
  | left => exact ⟨(List.append_subset.mp hNames).1, hBinds⟩
  | right hLeft => exact ⟨(List.append_subset.mp hNames).2, hKept hLeft⟩
  | deciding => exact ⟨(List.append_subset.mp hNames).1, hBinds⟩
  | undecided hLeft => exact ⟨(List.append_subset.mp hNames).2, hKept hLeft⟩
  | operand => exact ⟨hNames, hBinds⟩
  | inner => exact ⟨hNames, hBinds⟩

/-- An expression whose names are bound does not fail for an unbound name. -/
theorem Raises.code_ne_undefined {f : Fault} (h : e.Raises c f) (hNames : e.names ⊆ known)
    (hBinds : c.Binds known) : f.code ≠ .undefined := by
  cases h with
  | unbound hFind => simpa [hFind] using hBinds _ (hNames List.mem_cons_self)
  | @unassigned target value _ d v hValue hAssign =>
      have hBound := (value.moves_eval.of_ok hValue).binds hBinds _ (hNames List.mem_cons_self)
      rw [← Chain.isSome_assign? d _ v, hAssign] at hBound
      cases hBound
  | _ => exact Code.noConfusion

/-- An expression fails for want of a name only if it uses one that is not bound. -/
theorem code_ne_undefined {d : Chain} {f : Fault} (hNames : e.names ⊆ known) (hBinds : c.Binds known)
    (h : e.eval c = .error f d) : f.code ≠ .undefined := by
  obtain ⟨e', c', hVisits, hRaises⟩ := e.exists_raises c h
  obtain ⟨hNames', hBinds'⟩ := hVisits.invariant (P := fun e c => e.names ⊆ known ∧ c.Binds known)
    ⟨hNames, hBinds⟩ fun _ _ _ _ ⟨hNames, hBinds⟩ hStarts => hStarts.binds hNames hBinds
  exact hRaises.code_ne_undefined hNames' hBinds'

end Expr

namespace Stmt

open Lox.Action

variable {run : Run} {s t : Stmt} {ss : List Stmt} {e : Expr} {m n k : Machine} {known : List Text}

/-- Evaluation unbinds no name. -/
theorem binds_of_eval {v : Slot} (h : Action.eval e m = .ok v n) (hBinds : m.scopes.Binds known) :
    n.scopes.Binds known := by
  have hEval : Keeps [] e.written (Action.eval e) := keeps_eval (List.Subset.refl _)
  exact (hEval.of_ok h).scopes.binds hBinds

/-- After a statement that completes, what it declares is bound too. -/
theorem binds_of_exec (h : s.exec run m = .ok () n) (hBinds : m.scopes.Binds known) :
    n.scopes.Binds (s.introduced ++ known) := by
  have hKept : n.scopes.Binds known := (s.keeps_exec.of_ok h).scopes.binds hBinds
  cases s with
  | declare name token value =>
      have hDefined : (n.scopes.find? name).isSome = true := by
        obtain ⟨k, hWork, rfl⟩ := exists_work_of_ok h
        cases value with
        | none =>
            cases hWork
            exact Chain.isSome_find?_define _ name _
        | some e =>
            obtain ⟨v, l, _, hDefine⟩ := exists_ok_of_bind hWork
            cases hDefine
            exact Chain.isSome_find?_define _ name v
      rw [introduced, List.singleton_append]
      exact List.forall_mem_cons.mpr ⟨hDefined, hKept⟩
  | _ => exact hKept

/-- A statement that others come to finds every name bound that it uses. -/
theorem Reaches.scoped (h : Reaches run ss m t k) (hScoped : ScopedAll known ss)
    (hBinds : m.scopes.Binds known) : ∃ known, t.Scoped known ∧ k.scopes.Binds known := by
  induction h generalizing known with
  | head => exact ⟨known, hScoped.1, hBinds⟩
  | tail hRan _ ih => exact ih hScoped.2 (binds_of_exec hRan hBinds)

theorem binds_of_test {keyword : Token} {condition : Expr} {holds : Bool}
    (h : test run keyword condition m = .ok holds n) (hBinds : m.scopes.Binds known) :
    n.scopes.Binds known := by
  have hTest : Keeps [] condition.written (test run keyword condition) :=
    keeps_test keyword (List.Subset.refl _)
  exact (hTest.of_ok h).scopes.binds hBinds

/-- No name is unbound from one test of a loop to the next. -/
theorem binds_of_tries {keyword : Token} {condition : Expr} {horizon : Nat}
    (h : Tries (test run keyword condition) (s.exec run) horizon m k)
    (hBinds : m.scopes.Binds known) : k.scopes.Binds known := by
  induction h with
  | first => exact hBinds
  | later hTest hBody _ ih =>
      exact ih ((s.keeps_exec.of_ok hBody).scopes.binds (binds_of_test hTest hBinds))

/-- The parts that a statement starts are in scope whenever it does so. -/
theorem Starts.scoped (h : Starts run s m t k) (hScoped : s.Scoped known)
    (hBinds : m.scopes.Binds known) : ∃ known, t.Scoped known ∧ k.scopes.Binds known := by
  cases h with
  | block hReaches => exact hReaches.scoped hScoped hBinds.push
  | @yes _ _ _ no _ _ _ hCondition _ =>
      have hYes : t.Scoped known := by
        cases no with
        | none => exact hScoped.2
        | some no => exact hScoped.2.1
      exact ⟨known, hYes, binds_of_eval hCondition hBinds⟩
  | no hCondition _ => exact ⟨known, hScoped.2.2, binds_of_eval hCondition hBinds⟩
  | body hTries hTest =>
      exact ⟨known, hScoped.2, binds_of_test hTest (binds_of_tries hTries hBinds)⟩

/-- The expressions that a statement evaluates use only what is bound then. -/
theorem Evaluates.scoped (h : Evaluates run s m e k) (hScoped : s.Scoped known)
    (hBinds : m.scopes.Binds known) : e.names ⊆ known ∧ k.scopes.Binds known := by
  cases h with
  | expr => exact ⟨hScoped, hBinds⟩
  | print => exact ⟨hScoped, hBinds⟩
  | declare => exact ⟨hScoped, hBinds⟩
  | branch _ _ _ no =>
      cases no with
      | none => exact ⟨hScoped.1, hBinds⟩
      | some no => exact ⟨hScoped.1, hBinds⟩
  | @loop keyword _ _ _ _ _ hTries hTime =>
      have hTimed : Keeps [] [] (checkTime run keyword) := keeps_checkTime keyword
      exact ⟨hScoped.1, (hTimed.of_ok hTime).scopes.binds (binds_of_tries hTries hBinds)⟩

/-- A statement of which every use is in scope is not stopped for want of a name. -/
theorem code_ne_undefined (hScoped : s.Scoped known) (hBinds : m.scopes.Binds known) {f : Fault}
    (h : s.exec run m = .error (.fault f) n) : f.code ≠ .undefined := by
  rcases isImposed_or_visits h with hImposed | ⟨t, k, e, l, f', c, hVisits, hEvaluates, hFails, hFault⟩
  · rcases hImposed with hCode | hCode
    · simp [hCode]
    · simp [hCode]
  · cases hFault
    obtain ⟨known', hPart, hBound⟩ :=
      hVisits.invariant (P := fun t k => ∃ known, t.Scoped known ∧ k.scopes.Binds known)
        ⟨known, hScoped, hBinds⟩ fun t k u l ⟨known', hPart, hBound⟩ hStarts =>
          hStarts.scoped hPart hBound
    obtain ⟨hNames, hBound'⟩ := hEvaluates.scoped hPart hBound
    exact e.code_ne_undefined hNames hBound' hFails

end Stmt

namespace Machine

variable {run : Run} {m : Machine} {known : List Text}

/-- A statement that fails is reported once. -/
theorem diagnostics_of_fault {s : Stmt} {n k : Machine} {f : Fault} (hPoll : m.poll run = (none, n))
    (hRan : s.exec run n = .error (.fault f) k) :
    (runAll run [s] m).1.diagnostics = [f.diagnostic] := by
  rw [runAll, runFrom_cons, hPoll]
  simp only [hRan, resume]
  split <;> rfl

/-- The first failure of a run is not about an unbound name, if all names are in scope. -/
theorem head_runAll_ne_undefined {ss : List Stmt} (hScoped : Stmt.ScopedAll known ss)
    (hBinds : m.scopes.Binds known) {d : Diagnostic}
    (h : (runAll run ss m).1.diagnostics.head? = some d) : d.code ≠ .undefined := by
  induction ss generalizing m known with
  | nil => cases h
  | cons s ss ih =>
      -- only a statement that completes lets the run go on with nothing reported yet
      have hAttempted := attempted run s m
      rw [runAll_cons] at h
      generalize runAll run [s] m = first at h hAttempted
      cases hAttempted with
      | interruptedBefore hPoll => cases h
      | completed hPoll hRan =>
          rw [← scopes_of_poll hPoll] at hBinds
          exact ih hScoped.2 (Stmt.binds_of_exec hRan hBinds) h
      | failed hPoll hRan hCode =>
          rw [← scopes_of_poll hPoll] at hBinds
          cases h
          exact Stmt.code_ne_undefined hScoped.1 hBinds hRan
      | exhausted hPoll hRan hCode =>
          cases h
          simp [hCode]
      | interrupted hPoll hRan => cases h
      | crashed hPoll hRan => cases h
      | unfinished hPoll hRan => cases h

/-- Lexical scoping is sound. If every use in a program is of a name that is bound at the start or
declared before it in its list of statements or in a list around that, then no run of the program has
an undefined name as its first failure. A top-level statement that fails for want of a name is run
after another one that has failed. -/
theorem execute_of_scoped (host : Host) (budget : Budget) (runId : Text) (horizon : Nat) (p : Program)
    (m : Machine) (known : List Text) (hBinds : m.scopes.Binds known)
    (hScoped : Stmt.ScopedAll known p.statements) :
    let run : Run := ⟨host, budget, runId, horizon, m.progress⟩
    (∀ d, (execute host budget runId horizon p m).1.diagnostics.head? = some d →
      d.code ≠ .undefined) ∧
    ∀ before s later n f k, p.statements = before ++ s :: later →
      (runAll run before (m.begun runId p)).1.error = none →
      (runAll run before (m.begun runId p)).2.poll run = (none, n) →
      s.exec run n = .error (.fault f) k → f.code = .undefined →
      (runAll run before (m.begun runId p)).1.diagnostics ≠ [] := by
  intro run
  have hBegun : (m.begun runId p).scopes.Binds known := hBinds
  constructor
  · intro d hFirst
    rw [execute_eq_runAll] at hFirst
    exact head_runAll_ne_undefined hScoped hBegun hFirst
  · intro before s later n f k hSplit hReached hPoll hRan hCode hNone
    rw [hSplit, List.append_cons] at hScoped
    have hFirst : (runAll run (before ++ [s]) (m.begun runId p)).1.diagnostics.head? =
        some f.diagnostic := by
      rw [runAll_append, followedBy_of_none hReached, RunResult.andThen, hNone, List.nil_append,
        diagnostics_of_fault hPoll hRan, List.head?_cons]
    exact head_runAll_ne_undefined hScoped.left hBegun hFirst hCode

/-- `var x = y; { var z; while (z) x = z; print x; }` where `y` is bound. -/
theorem execute_of_scoped_nested :
    let token (name : Text) : Token := ⟨.identifier, name, none, 1⟩
    let p : Program := ⟨[.declare "x" (token "x") (some (.name (token "y"))),
      .block 1 [.declare "z" (token "z") none,
        .loop (token "while") (.name (token "z")) (.expr (.assign (token "x") (.name (token "z")))),
        .print (token "print") (.name (token "x"))]]⟩
    let m : Machine := ⟨⟨[("y", some .nil)], []⟩, 0, ⟨0, 0, 0⟩, #[]⟩
    m.scopes.Binds ["y"] ∧ Stmt.ScopedAll ["y"] p.statements ∧
      ∀ host budget runId horizon d,
        (execute host budget runId horizon p m).1.diagnostics.head? = some d → d.code ≠ .undefined := by
  intro token p m
  have hBinds : m.scopes.Binds ["y"] := by
    simp [m, Chain.Binds, Chain.find?, Chain.scopes, Scope.find?]
  have hScoped : Stmt.ScopedAll ["y"] p.statements := by
    simp [p, token, Stmt.ScopedAll, Stmt.Scoped, Stmt.introduced, Expr.names]
  exact ⟨hBinds, hScoped, fun host budget runId horizon =>
    (execute_of_scoped host budget runId horizon p m ["y"] hBinds hScoped).1⟩

end Machine
end Lox
