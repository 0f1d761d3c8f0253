import Lox.Proofs.Execution.Agreement

/-! What running a statement can change. However it ends, the scopes around the statement bind the
same names as before, its own scope has at most the names that it declares there besides, and only
what it assigns to or declares has a new value. Output and iterations only ever grow. -/
namespace Lox

section Moving

variable {ε σ α β : Type} {R R' : σ → σ → Prop}

def finalState : EStateM.Result ε σ α → σ
  | .ok _ s => s
  | .error _ s => s

/-- However the computation ends, its last state is related to its first. -/
def Moves (R : σ → σ → Prop) (x : EStateM ε σ α) : Prop := ∀ s, R s (finalState (x s))

theorem Moves.mono {x : EStateM ε σ α} (h : Moves R x) (hWeaker : ∀ {s t}, R s t → R' s t) :
    Moves R' x :=
  fun s => hWeaker (h s)

variable [IsPreorder σ R]

theorem moves_pure (a : α) : Moves R (pure a : EStateM ε σ α) := fun s => refl s

theorem moves_throw (e : ε) : Moves R (throw e : EStateM ε σ α) := fun s => refl s

/-- A preorder on states that both parts of a sequence respect is respected by the whole. -/
theorem Moves.bind {x : EStateM ε σ α} {f : α → EStateM ε σ β} (h : Moves R x)
    (hNext : ∀ a, Moves R (f a)) : Moves R (x >>= f) := by
  intro s
  have hFirst := h s
  change R s (finalState (EStateM.bind x f s))
  rw [EStateM.bind]
  cases hx : x s with
  | error e t =>
      rw [hx] at hFirst
      exact hFirst
  | ok a t =>
      rw [hx] at hFirst
      exact IsTrans.trans _ _ _ hFirst (hNext a t)

end Moving

namespace Scope

theorem find?_cons (key : Text) (old : Slot) (s : Scope) (name : Text) :
    find? ((key, old) :: s) name = if name = key then some old else find? s name := by
  rw [find?, List.lookup_cons]
  by_cases h : name = key
  · simp [h]
  · rw [beq_eq_false_iff_ne.mpr h, if_neg h, find?]

/-- A definition changes the binding of one name. -/
theorem find?_define (s : Scope) (name : Text) (value : Slot) (other : Text) :
    find? (define name value s) other = if other = name then some value else find? s other := by
  induction s with
  | nil => rw [define, find?_cons]
  | cons entry s ih =>
      obtain ⟨key, old⟩ := entry
      rw [define]
      by_cases hKey : key = name
      · rw [if_pos hKey, find?_cons, find?_cons, hKey]
        split <;> rfl
      · rw [if_neg hKey, find?_cons, find?_cons, ih]
        by_cases hOther : other = key
        · simp [hOther, hKey]
        · simp [hOther]

theorem names_cons (key : Text) (old : Slot) (s : Scope) :
    names ((key, old) :: s) = key :: names s := rfl

theorem isSome_find?_iff {s : Scope} {name : Text} :
    (find? s name).isSome = true ↔ name ∈ names s := by
  induction s with
  | nil => simp [find?, names]
  | cons entry s ih =>
      obtain ⟨key, old⟩ := entry
      rw [find?_cons, names_cons, List.mem_cons, ← ih]
      by_cases h : name = key <;> simp [h]

/-- Binding a name adds that name, unless it is bound here already. -/
theorem names_define (s : Scope) (name : Text) (value : Slot) :
    names (define name value s) = if name ∈ names s then names s else names s ++ [name] := by
  induction s with
  | nil => simp [define, names]
  | cons entry s ih =>
      obtain ⟨key, old⟩ := entry
      rw [define]
      by_cases hKey : key = name
      · simp [hKey, names_cons]
      · rw [if_neg hKey, names_cons, names_cons, ih]
        by_cases hMem : name ∈ names s
        · simp [hMem]
        · simp [hMem, Ne.symm hKey]

end Scope

namespace Chain

/-- The names bound in each scope, from the innermost scope on. -/
def names (c : Chain) : List (List Text) := c.scopes.map Scope.names

/-- What each scope binds a name to, from the innermost scope on. -/
def bindings (c : Chain) (name : Text) : List (Option Slot) := c.scopes.map (Scope.find? · name)

/-- A chain that a part of a program may leave behind if it finds another one. The part declares only
the names `declared` in the current scope, and binds or assigns only the names `written` in any. -/
structure Confined (declared written : List Text) (c d : Chain) : Prop where
  outer : d.outer.map Scope.names = c.outer.map Scope.names
  current : ∃ new ⊆ declared, d.current.names = c.current.names ++ new
  unwritten : ∀ name ∉ written, d.bindings name = c.bindings name

variable {declared declared' written written' : List Text} {c d e : Chain}

/-- Confined changes in a row are confined. -/
theorem Confined.trans (h : Confined declared written c d) (h' : Confined declared written d e) :
    Confined declared written c e := by
  obtain ⟨new, hNew, hCurrent⟩ := h.current
  obtain ⟨new', hNew', hCurrent'⟩ := h'.current
  refine ⟨h'.outer.trans h.outer, ⟨new ++ new', List.append_subset.mpr ⟨hNew, hNew'⟩, ?_⟩, ?_⟩
  · rw [hCurrent', hCurrent, List.append_assoc]
  · intro name hName
    rw [h'.unwritten name hName, h.unwritten name hName]

instance : IsPreorder Chain (Confined declared written) where
  refl _ := ⟨rfl, ⟨[], List.nil_subset _, (List.append_nil _).symm⟩, fun _ _ => rfl⟩
  trans _ _ _ h h' := h.trans h'

theorem Confined.mono (h : Confined declared written c d) (hDeclared : declared ⊆ declared')
    (hWritten : written ⊆ written') : Confined declared' written' c d := by
  obtain ⟨new, hNew, hCurrent⟩ := h.current
  exact ⟨h.outer, ⟨new, List.Subset.trans hNew hDeclared, hCurrent⟩,
    fun name hName => h.unwritten name fun hMem => hName (hWritten hMem)⟩

/-- Confined changes leave the number of scopes as it is. -/
theorem Confined.depth_eq (h : Confined declared written c d) : d.depth = c.depth := by
  have hLength := congrArg List.length h.outer
  rwa [List.length_map, List.length_map] at hLength

/-- Where nothing is declared, every scope keeps its names. -/
theorem Confined.names_eq (h : Confined [] written c d) : d.names = c.names := by
  obtain ⟨new, hNew, hCurrent⟩ := h.current
  rw [List.subset_nil.mp hNew, List.append_nil] at hCurrent
  rw [names, names, scopes, scopes, List.map_cons, List.map_cons, hCurrent, h.outer]

/-- A chain with the same names is confined if only written names have other values. -/
theorem confined_of_names_eq (hNames : d.names = c.names)
    (hBindings : ∀ name ∉ written, d.bindings name = c.bindings name) : Confined [] written c d := by
  obtain ⟨hCurrent, hOuter⟩ := List.cons_eq_cons.mp hNames
  exact ⟨hOuter, ⟨[], List.nil_subset _, by rw [hCurrent, List.append_nil]⟩, hBindings⟩

/-- A declaration binds its own name in the current scope. -/
theorem confined_define (c : Chain) (name : Text) (value : Slot) :
    Confined [name] [name] c (c.define name value) := by
  refine ⟨rfl, ?_, fun other hOther => ?_⟩
  · rw [define, Scope.names_define]
    by_cases hMem : name ∈ c.current.names
    · exact ⟨[], List.nil_subset _, by rw [if_pos hMem, List.append_nil]⟩
    · exact ⟨[name], List.Subset.refl _, by rw [if_neg hMem]⟩
  · rw [List.mem_singleton] at hOther
    simp [bindings, scopes, define, Scope.find?_define, hOther]

/-- An assignment overwrites a binding of one of the scopes and makes no new one. -/
theorem names_assignIn {name : Text} {value : Slot} {ss ts : List Scope}
    (h : assignIn name value ss = some ts) :
    ts.map Scope.names = ss.map Scope.names ∧
      ∀ other ≠ name, ts.map (Scope.find? · other) = ss.map (Scope.find? · other) := by
  induction ss generalizing ts with
  | nil => cases h
  | cons s ss ih =>
      rw [assignIn] at h
      by_cases hBound : (s.find? name).isSome = true
      · rw [if_pos hBound] at h
        cases h
        have hNames : (s.define name value).names = s.names := by
          rw [Scope.names_define, if_pos (Scope.isSome_find?_iff.mp hBound)]
        refine ⟨by rw [List.map_cons, List.map_cons, hNames], fun other hOther => ?_⟩
        rw [List.map_cons, List.map_cons, Scope.find?_define, if_neg hOther]
      · rw [if_neg hBound] at h
        obtain ⟨ts, hRest, rfl⟩ := Option.map_eq_some_iff.mp h
        obtain ⟨hNames, hValues⟩ := ih hRest
        refine ⟨by rw [List.map_cons, List.map_cons, hNames], fun other hOther => ?_⟩
        rw [List.map_cons, List.map_cons, hValues other hOther]

/-- An assignment binds no new name. -/
theorem confined_assign {name : Text} {value : Slot} (h : c.assign? name value = some d) :
    Confined [] [name] c d := by
  rw [assign?] at h
  cases hScopes : assignIn name value c.scopes with
  | none => simp [hScopes] at h
  | some ts =>
      obtain ⟨hNames, hValues⟩ := names_assignIn hScopes
      rw [hScopes] at h
      cases ts with
      | nil => cases h
      | cons s ts =>
          cases h
          exact confined_of_names_eq hNames fun other hOther =>
            hValues other fun hEq => hOther (List.mem_singleton.mpr hEq)

/-- What is declared in a scope is gone when the scope is left. -/
theorem Confined.pop (h : Confined declared written c.push d) : Confined [] written c d.pop := by
  obtain ⟨s, outer⟩ := d
  have hNames : outer.map Scope.names = c.names := h.outer
  cases outer with
  | nil => cases hNames
  | cons t ts =>
      exact confined_of_names_eq hNames fun name hName =>
        (List.cons_eq_cons.mp (h.unwritten name hName)).2

end Chain

namespace Expr

def written : Expr → List Text
  | .literal _ _ => []
  | .name _ => []
  | .assign target value => target.lexeme :: value.written
  | .binary left _ right => left.written ++ right.written
  | .logical left _ right => left.written ++ right.written
  | .unary _ operand => operand.written
  | .group inner => inner.written

end Expr

namespace Evaluation

variable {R : Chain → Chain → Prop} [IsPreorder Chain R]

theorem moves_fail {α : Type} (cause : Cause) (token : Token) :
    Moves R (fail cause token : Evaluation α) := moves_throw _

theorem moves_ofOperator (op : Token) (result : Except OperandError Value) :
    Moves R (ofOperator op result) := by
  cases result with
  | ok v => exact moves_pure _
  | error e => exact moves_fail _ _

/-- Reading a variable leaves the scopes alone. -/
theorem moves_lookup (name : Token) : Moves R (lookup name) := by
  intro c
  rw [lookup_apply]
  cases c.find? name.lexeme with
  | some v => exact refl c
  | none => exact refl c

/-- Assignment is confined to the name it assigns to. -/
theorem moves_assign (name : Token) (value : Slot) :
    Moves (Chain.Confined [] [name.lexeme]) (assign name value) := by
  intro c
  rw [assign_apply]
  cases hAssign : c.assign? name.lexeme value with
  | some d => exact Chain.confined_assign hAssign
  | none => exact refl c

end Evaluation

/-- An expression declares nothing, and changes only what it assigns to. -/
theorem Expr.moves_eval (e : Expr) : Moves (Chain.Confined [] e.written) e.eval := by
  have hWiden {e : Expr} {written : List Text} (h : Moves (Chain.Confined [] e.written) e.eval)
      (hWritten : e.written ⊆ written) : Moves (Chain.Confined [] written) e.eval :=
    h.mono fun hConfined => hConfined.mono (List.Subset.refl _) hWritten
  induction e with
  | literal value line => exact moves_pure value
  | name token => exact Evaluation.moves_lookup token
  | assign target value ih =>
      refine (hWiden ih (List.subset_cons_self _ _)).bind fun v => Moves.bind ?_ fun _ => moves_pure v
      exact (Evaluation.moves_assign target v).mono fun h =>
        h.mono (List.Subset.refl _) (by simp)
  | binary left op right ihLeft ihRight =>
      refine (hWiden ihLeft (List.subset_append_left _ _)).bind fun a =>
        (hWiden ihRight (List.subset_append_right _ _)).bind fun b => ?_
      cases BinaryOp.ofKind? op.kind with
      | some f => exact Evaluation.moves_ofOperator op _
      | none => exact Evaluation.moves_fail _ _
  | logical left op right ihLeft ihRight =>
      refine (hWiden ihLeft (List.subset_append_left _ _)).bind fun a => ?_
      cases op.kind.decides? a with
      | none => exact Evaluation.moves_fail _ _
      | some decided =>
          cases decided with
          | true => exact moves_pure a
          | false => exact hWiden ihRight (List.subset_append_right _ _)
  | unary op operand ih =>
      refine ih.bind fun a => ?_
      cases UnaryOp.ofKind? op.kind with
      | some f => exact Evaluation.moves_ofOperator op _
      | none => exact Evaluation.moves_fail _ _
  | group inner ih => exact ih

namespace Stmt

/-- The names that running the statement may bind in the scope it is run in: those of the
declarations that are inside no block of it. -/
def declared : Stmt → List Text
  | .expr _ => []
  | .print _ _ => []
  | .declare name _ _ => [name]
  | .block _ _ => []
  | .branch _ _ yes none => yes.declared
  | .branch _ _ yes (some no) => yes.declared ++ no.declared
  | .loop _ _ body => body.declared

mutual

/-- The names that the statement declares or assigns to, inside its blocks as well. -/
def written : Stmt → List Text
  | .expr e => e.written
  | .print _ e => e.written
  | .declare name _ none => [name]
  | .declare name _ (some e) => name :: e.written
  | .block _ body => writtenAll body
  | .branch _ condition yes none => condition.written ++ yes.written
  | .branch _ condition yes (some no) => condition.written ++ (yes.written ++ no.written)
  | .loop _ condition body => condition.written ++ body.written

def writtenAll : List Stmt → List Text
  | [] => []
  | s :: rest => s.written ++ writtenAll rest

end

end Stmt

structure Machine.Follows (declared written : List Text) (m n : Machine) : Prop where
  scopes : Chain.Confined declared written m.scopes n.scopes
  outputs : m.outputs <+: n.outputs
  iterations : m.iterations ≤ n.iterations

namespace Machine

variable {declared declared' written written' : List Text} {m n : Machine}

instance : IsPreorder Machine (Follows declared written) where
  refl m := ⟨refl m.scopes, List.prefix_rfl, Nat.le_refl _⟩
  trans _ _ _ h h' :=
    ⟨IsTrans.trans _ _ _ h.scopes h'.scopes, h.outputs.trans h'.outputs,
      h.iterations.trans h'.iterations⟩

theorem Follows.mono (h : Follows declared written m n) (hDeclared : declared ⊆ declared')
    (hWritten : written ⊆ written') : Follows declared' written' m n :=
  ⟨h.scopes.mono hDeclared hWritten, h.outputs, h.iterations⟩

theorem follows_record (m : Machine) {e : Event} (h : e.output? = none) :
    Follows declared written m (m.record e) :=
  ⟨refl m.scopes, by rw [outputs_record h], Nat.le_refl _⟩

theorem follows_withScopes (m : Machine) {c : Chain} (h : Chain.Confined declared written m.scopes c) :
    Follows declared written m { m with scopes := c } :=
  ⟨h, List.prefix_rfl, Nat.le_refl _⟩

/-- Asking whether to stop is seen in the trace at most. -/
theorem follows_poll (run : Run) (m : Machine) : Follows declared written m (m.poll run).2 :=
  ⟨refl m.scopes, List.prefix_rfl, Nat.le_refl _⟩

/-- Whatever was declared inside a block, nothing is declared once it has been left. -/
theorem Follows.leave {line line' : Int} (h : Follows declared written (m.enter line) n) :
    Follows [] written m (n.leave line') :=
  ⟨h.scopes.pop, by simpa using h.outputs, h.iterations⟩

end Machine

namespace Action

open Machine (Follows)

variable {declared declared' written written' : List Text} {run : Run}

/-- However the action ends, it leaves a machine that follows the one it found. -/
abbrev Keeps {α : Type} (declared written : List Text) (x : Action α) : Prop :=
  Moves (Follows declared written) x

theorem Keeps.mono {α : Type} {x : Action α} (h : Keeps declared written x)
    (hDeclared : declared ⊆ declared') (hWritten : written ⊆ written') :
    Keeps declared' written' x :=
  Moves.mono h fun hFollows => hFollows.mono hDeclared hWritten

theorem keeps_trace (t : Trace) : Keeps declared written (trace t) :=
  fun m => Machine.follows_record m rfl

/-- An expression is confined to the names that it assigns to. -/
theorem keeps_eval {e : Expr} (h : e.written ⊆ written) : Keeps declared written (eval e) := by
  intro m
  have hScopes := (e.moves_eval m.scopes).mono (List.nil_subset declared) h
  rw [eval, ofEvaluation]
  cases hEval : e.eval m.scopes with
  | ok v c =>
      rw [hEval] at hScopes
      exact Machine.follows_withScopes m hScopes
  | error f c =>
      rw [hEval] at hScopes
      exact Machine.follows_withScopes m hScopes

theorem moves_present {R : Machine → Machine → Prop} [IsPreorder Machine R] (v : Slot) :
    Moves R (present v) := by
  cases v with
  | none => exact moves_throw _
  | some v => exact moves_pure v

theorem keeps_define (name : Text) (value : Slot) :
    Keeps [name] [name] (modify fun m => { m with scopes := m.scopes.define name value }) :=
  fun m => Machine.follows_withScopes m (Chain.confined_define _ _ _)

theorem keeps_checkTime (keyword : Token) : Keeps declared written (checkTime run keyword) := by
  intro m
  have hPolled : Follows declared written m (m.poll run).2 := Machine.follows_poll run m
  rw [checkTime]
  generalize m.poll run = polled at hPolled
  obtain ⟨answer, n⟩ := polled
  cases answer with
  | none => exact hPolled
  | some i =>
      simp only
      split <;> exact hPolled

theorem keeps_countIteration (keyword : Token) :
    Keeps declared written (countIteration run keyword) := by
  intro m
  rw [countIteration]
  split
  · exact refl m
  · exact ⟨refl m.scopes, List.prefix_rfl, Nat.le_succ _⟩

theorem keeps_write (keyword : Token) (text : Text) :
    Keeps declared written (write run keyword text) := by
  intro m
  rw [write]
  cases run.host.refusal m.progress.attempts with
  | some reason => exact ⟨refl m.scopes, List.prefix_rfl, Nat.le_refl _⟩
  | none =>
      refine ⟨refl m.scopes, ?_, Nat.le_refl _⟩
      simp [finalState, Machine.outputs, Event.output?]

/-- The test of a loop is confined to the names that its condition assigns to. -/
theorem keeps_test (keyword : Token) {condition : Expr} (h : condition.written ⊆ written) :
    Keeps declared written (test run keyword condition) := by
  refine (keeps_checkTime keyword).bind fun _ => (keeps_eval h).bind fun v => ?_
  split
  · exact (keeps_countIteration keyword).bind fun _ => moves_pure true
  · exact moves_pure false

/-- What every test and every iteration respect is respected by the loop. -/
theorem moves_repeatWhile {R : Machine → Machine → Prop} [IsPreorder Machine R] {test : Action Bool}
    {body : Action Unit} (hTest : Moves R test) (hBody : Moves R body) (horizon : Nat) :
    Moves R (repeatWhile test body horizon) := by
  induction horizon with
  | zero => exact moves_throw _
  | succ horizon ih =>
      rw [repeatWhile_succ]
      refine hTest.bind fun holds => ?_
      split
      · exact hBody.bind fun _ => ih
      · exact moves_pure ()

/-- What is declared inside a scope is gone when it is left. -/
theorem Keeps.inScope {body : Action Unit} (h : Keeps declared written body) (line : Int) :
    Keeps [] written (inScope line body) := by
  intro m
  have hBody := h (m.enter line)
  rw [Action.inScope]
  cases hRan : body (m.enter line) with
  | ok a n =>
      rw [hRan] at hBody
      exact hBody.leave
  | error stop n =>
      rw [hRan] at hBody
      exact hBody.leave

theorem Keeps.traced {body : Action Unit} (h : Keeps declared written body) (line : Int)
    (kind : String) : Keeps declared written (traced line kind body) :=
  (keeps_trace _).bind fun _ => Moves.bind h fun _ => keeps_trace _

end Action

namespace Stmt

open Lox.Action

variable {run : Run}

mutual

/-- A statement declares and changes only what it says it does. -/
theorem keeps_exec : (s : Stmt) → Keeps s.declared s.written (s.exec run)
  | .expr e => by
      rw [exec]
      refine Keeps.traced ?_ _ _
      exact (keeps_eval (by simp [written])).bind fun _ => moves_pure ()
  | .print keyword e => by
      rw [exec]
      refine Keeps.traced ?_ _ _
      refine (keeps_eval (by simp [written])).bind fun v => (moves_present v).bind fun _ => ?_
      exact (keeps_write keyword _).bind fun _ => keeps_trace _
  | .declare name token none => by
      rw [exec]
      exact Keeps.traced (keeps_define name _) _ _
  | .declare name token (some e) => by
      rw [exec]
      refine Keeps.traced ?_ _ _
      refine (keeps_eval (by simp [written])).bind fun v => ?_
      exact (keeps_define name v).mono (by simp [declared]) (by simp [written])
  | .block line body => by
      rw [exec]
      exact Keeps.traced ((keeps_execAll body).inScope line) _ _
  | .branch keyword condition yes none => by
      rw [exec]
      refine Keeps.traced ?_ _ _
      refine (keeps_eval (by simp [written])).bind fun v => ?_
      split
      · exact (keeps_exec yes).mono (by simp [declared]) (by simp [written])
      · exact moves_pure ()
  | .branch keyword condition yes (some no) => by
      rw [exec]
      refine Keeps.traced ?_ _ _
      refine (keeps_eval (by simp [written])).bind fun v => ?_
      split
      · exact (keeps_exec yes).mono (by simp [declared]) (by simp [written])
      · exact (keeps_exec no).mono (by simp [declared]) (by simp [written])
  | .loop keyword condition body => by
      rw [exec]
      refine Keeps.traced ?_ _ _
      exact moves_repeatWhile (keeps_test keyword (by simp [written]))
        ((keeps_exec body).mono (by simp [declared]) (by simp [written])) _

/-- Statements in a row are confined to what they declare and assign to. -/
theorem keeps_execAll : (ss : List Stmt) → Keeps (ss.flatMap declared) (writtenAll ss) (execAll run ss)
  | [] => moves_pure ()
  | s :: ss => by
      rw [execAll]
      refine ((keeps_exec s).mono ?_ ?_).bind fun _ => (keeps_execAll ss).mono ?_ ?_
      · simp
      · simp [writtenAll]
      · simp
      · simp [writtenAll]

end

/-- The scope discipline of statements. Whatever the surroundings and limits, and whether the
statement completes or fails: the current scope is again the one it was, at the same depth; the scopes
around it bind the same names; it binds the names it did, and besides only such as the statement
declares outside blocks, so that a block leaves every scope with its names; and in every scope a name
that the statement neither assigns to nor declares has the value it had. Evaluating an expression
leaves every scope with its names. -/
theorem exec_confined (run : Run) (s : Stmt) (m : Machine) :
    let before := m.scopes
    let after := (finalState (s.exec run m)).scopes
    after.depth = before.depth ∧
      after.outer.map Scope.names = before.outer.map Scope.names ∧
      (∃ new ⊆ s.declared, after.current.names = before.current.names ++ new) ∧
      (∀ line body, s = .block line body → after.names = before.names) ∧
      (∀ name ∉ s.written, after.bindings name = before.bindings name) ∧
      ∀ (e : Expr) (c : Chain), (finalState (e.eval c)).names = c.names := by
  intro before after
  have hScopes : Chain.Confined s.declared s.written before after := (s.keeps_exec m).scopes
  refine ⟨hScopes.depth_eq, hScopes.outer, hScopes.current, ?_, hScopes.unwritten, ?_⟩
  · rintro line body rfl
    exact hScopes.names_eq
  · intro e c
    exact (e.moves_eval c).names_eq

end Stmt

end Lox
