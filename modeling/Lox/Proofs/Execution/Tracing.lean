import Lox.Proofs.Execution.Parts

/-! The trace of a run. What a completed statement adds to it is properly nested; what a statement
adds that is stopped lacks the ends of the statements on the way to what stopped it and nothing else.
Scopes are always closed. -/
namespace Lox

namespace Trace

def printed? : Trace → Option Value
  | .print _ value => some value
  | _ => none

def printedLines (ts : List Trace) : List Text :=
  (ts.filterMap printed?).map fun v => v.text ++ [Text.newline]

@[simp] theorem printedLines_nil : printedLines [] = [] := rfl

theorem printedLines_cons {t : Trace} (h : t.printed? = none) (ts : List Trace) :
    printedLines (t :: ts) = printedLines ts := by
  rw [printedLines, List.filterMap_cons_none h, printedLines]

@[simp] theorem printedLines_append (ts us : List Trace) :
    printedLines (ts ++ us) = printedLines ts ++ printedLines us := by
  simp [printedLines]

/-- A stretch of a trace inside so many scopes in which whatever begins also ends. -/
inductive Nested : Nat → List Trace → Prop
  | nil (depth : Nat) : Nested depth []
  | print (depth : Nat) (line : Int) (value : Value) : Nested depth [.print line value]
  | stmt {depth : Nat} {ts : List Trace} (line : Int) (kind : String) (h : Nested depth ts) :
      Nested depth (.stmtStart line kind :: ts ++ [.stmtEnd line])
  | scope {depth : Nat} {ts : List Trace} (line : Int) (h : Nested (depth + 1) ts) :
      Nested depth (.scopePush line (depth + 1) :: ts ++ [.scopePop line (depth + 1)])
  | append {depth : Nat} {ts us : List Trace} (hFirst : Nested depth ts) (hSecond : Nested depth us) :
      Nested depth (ts ++ us)

/-- A stretch of a trace inside so many scopes that begins with the first of some statements and in
which these statements, each inside the one before it, do not end. Whatever else begins also ends. -/
inductive Severed : Nat → List Stmt → List Trace → Prop
  | last {depth : Nat} {ts : List Trace} (s : Stmt) (h : Nested depth ts) :
      Severed depth [s] (.stmtStart s.line s.kindName :: ts)
  | inside {depth : Nat} {path : List Stmt} {ts us : List Trace} (s : Stmt) (hDone : Nested depth ts)
      (h : Severed depth path us) : Severed depth (s :: path) (.stmtStart s.line s.kindName :: (ts ++ us))
  | scope {depth : Nat} {path : List Stmt} {ts us : List Trace} (s : Stmt) (line : Int)
      (hDone : Nested (depth + 1) ts) (h : Severed (depth + 1) path us) :
      Severed depth (s :: path) (.stmtStart s.line s.kindName :: .scopePush line (depth + 1) ::
        (ts ++ us) ++ [.scopePop line (depth + 1)])

end Trace

open Trace (Nested Severed printedLines)

theorem Chain.depth_pop {c : Chain} {depth : Nat} (h : c.depth = depth + 1) : c.pop.depth = depth := by
  simp only [Chain.depth] at h
  rw [Chain.pop, Chain.pop?]
  cases hOuter : c.outer with
  | nil => simp [hOuter] at h
  | cons s rest => simpa [hOuter, Chain.depth] using h

namespace Machine

def traces (m : Machine) : List Trace := m.events.toList.filterMap Event.trace?

/-- A trace grows by one event at most. -/
@[simp] theorem traces_record (m : Machine) (e : Event) :
    (m.record e).traces = m.traces ++ e.trace?.toList := by
  simp only [traces, record, Array.toList_push, List.filterMap_append]
  cases h : e.trace? <;> simp [h]

@[simp] theorem traces_enter (line : Int) (m : Machine) :
    (m.enter line).traces = m.traces ++ [.scopePush line (m.scopes.depth + 1)] := by
  simp only [enter, traces_record, Event.trace?, Option.toList_none, List.append_nil]
  rfl

@[simp] theorem traces_leave (line : Int) (m : Machine) :
    (m.leave line).traces = m.traces ++ [.scopePop line m.scopes.depth] := by
  have hSame (m : Machine) (c : Chain) : traces { m with scopes := c } = m.traces := rfl
  simp only [leave, hSame, traces_record, Event.trace?, Option.toList_none, List.append_nil,
    Option.toList_some]

/-- The second machine has as many scopes as the first and a longer trace, which tells of every line
that was written in between. -/
structure Tells (m n : Machine) (ts : List Trace) : Prop where
  traces : n.traces = m.traces ++ ts
  depth : n.scopes.depth = m.scopes.depth
  outputs : n.outputs = m.outputs ++ printedLines ts
  writes : n.progress.writes = m.progress.writes + (printedLines ts).length

variable {m n k : Machine} {ts us : List Trace}

/-- Stretches of a trace can be told one after the other. -/
theorem Tells.trans (h : Tells m n ts) (h' : Tells n k us) : Tells m k (ts ++ us) where
  traces := by rw [h'.traces, h.traces, List.append_assoc]
  depth := h'.depth.trans h.depth
  outputs := by rw [h'.outputs, h.outputs, Trace.printedLines_append, List.append_assoc]
  writes := by rw [h'.writes, h.writes, Trace.printedLines_append, List.length_append, Nat.add_assoc]

/-- The second machine has shown no more than the first. -/
def Silent (m n : Machine) : Prop := Tells m n []

/-- Where no event was added, nothing was told. -/
theorem silent_of_eq (hEvents : n.events = m.events) (hDepth : n.scopes.depth = m.scopes.depth)
    (hWrites : n.progress.writes = m.progress.writes) : Silent m n where
  traces := by rw [traces, hEvents, traces, List.append_nil]
  depth := hDepth
  outputs := by rw [outputs, hEvents, outputs, Trace.printedLines_nil, List.append_nil]
  writes := hWrites

instance : IsPreorder Machine Silent where
  refl _ := silent_of_eq rfl rfl rfl
  trans _ _ _ h h' := Tells.trans h h'

/-- Whatever is silent may follow a stretch of a trace. -/
theorem Tells.silent (h : Tells m n ts) (h' : Silent n k) : Tells m k ts := by
  simpa using Tells.trans h h'

theorem tells_trace (m : Machine) {t : Trace} (h : t.printed? = none) :
    Tells m (m.record (.trace t)) [t] where
  traces := traces_record m _
  depth := rfl
  outputs := by rw [outputs_record rfl, Trace.printedLines_cons h, Trace.printedLines_nil, List.append_nil]
  writes := by rw [Trace.printedLines_cons h]; rfl

/-- What happens in a scope is told between its opening and its closing. -/
theorem Tells.leave {line : Int} (h : Tells (m.enter line) n ts) :
    Tells m (n.leave line) (.scopePush line (m.scopes.depth + 1) :: ts ++
      [.scopePop line (m.scopes.depth + 1)]) := by
  have hDepth : n.scopes.depth = m.scopes.depth + 1 := h.depth
  have hLines : printedLines (.scopePush line (m.scopes.depth + 1) :: ts ++
      [.scopePop line (m.scopes.depth + 1)]) = printedLines ts := by
    rw [Trace.printedLines_append, Trace.printedLines_cons rfl, Trace.printedLines_cons rfl,
      Trace.printedLines_nil, List.append_nil]
  constructor
  · rw [traces_leave, h.traces, hDepth, traces_enter]
    simp
  · exact Chain.depth_pop hDepth
  · rw [outputs_leave, h.outputs, outputs_enter, hLines]
  · rw [hLines]
    exact h.writes

end Machine

namespace Action

open Machine (Tells Silent silent_of_eq tells_trace)

variable {run : Run} {m n k : Machine} {stop : Stop}

/-- Expressions leave no trace. -/
theorem silent_eval (e : Expr) : Moves Silent (eval e) := by
  intro m
  have hDepth := (e.moves_eval m.scopes).depth_eq
  rw [eval, ofEvaluation]
  cases hEval : e.eval m.scopes with
  | ok v c =>
      rw [hEval] at hDepth
      exact silent_of_eq rfl hDepth rfl
  | error f c =>
      rw [hEval] at hDepth
      exact silent_of_eq rfl hDepth rfl

theorem silent_checkTime (keyword : Token) : Moves Silent (checkTime run keyword) := by
  intro m
  have hPolled : Silent m (m.poll run).2 := silent_of_eq rfl rfl rfl
  rw [checkTime]
  generalize m.poll run = polled at hPolled
  obtain ⟨answer, n⟩ := polled
  cases answer with
  | none => exact hPolled
  | some i =>
      simp only
      split <;> exact hPolled

theorem silent_countIteration (keyword : Token) : Moves Silent (countIteration run keyword) := by
  intro m
  rw [countIteration]
  split
  · exact silent_of_eq rfl rfl rfl
  · exact silent_of_eq rfl rfl rfl

/-- The test of a loop leaves no trace. -/
theorem silent_test (keyword : Token) (condition : Expr) :
    Moves Silent (test run keyword condition) := by
  refine (silent_checkTime keyword).bind fun _ => (silent_eval condition).bind fun v => ?_
  split
  · exact (silent_countIteration keyword).bind fun _ => moves_pure true
  · exact moves_pure false

/-- A line that is written is told, and one that is refused is not. -/
theorem tells_write (keyword : Token) (v : Value) (line : Int) (m : Machine) :
    match (write run keyword v.text >>= fun _ => trace (.print line v)) m with
    | .ok () n => Tells m n [.print line v]
    | .error _ n => Silent m n := by
  have hLines : printedLines [.print line v] = [v.text ++ [Text.newline]] := rfl
  simp only [bind, EStateM.bind, write]
  cases run.host.refusal m.progress.attempts with
  | some reason => exact silent_of_eq rfl rfl rfl
  | none =>
      constructor
      · simp [Machine.traces, Machine.record, Event.trace?, List.filterMap_cons]
      · rfl
      · simp [hLines, Machine.outputs, Machine.record, Event.output?]
      · rfl

/-- The action adds a nested stretch to the trace whenever it completes. -/
def TellsNested (x : Action Unit) : Prop :=
  ∀ m n, x m = .ok () n → ∃ ts, Tells m n ts ∧ Nested m.scopes.depth ts

/-- A silent beginning does not matter to what is nested. -/
theorem TellsNested.bind {α : Type} {x : Action α} {f : α → Action Unit} (h : Moves Silent x)
    (hNext : ∀ a, TellsNested (f a)) : TellsNested (x >>= f) := by
  intro m n hRan
  obtain ⟨a, k, hFirst, hSecond⟩ := exists_ok_of_bind hRan
  have hSilent := h.of_ok hFirst
  obtain ⟨ts, hTells, hNested⟩ := hNext a k n hSecond
  rw [hSilent.depth] at hNested
  exact ⟨ts, hSilent.trans hTells, hNested⟩

theorem tellsNested_of_silent {x : Action Unit} (h : Moves Silent x) : TellsNested x :=
  fun _ _ hRan => ⟨[], h.of_ok hRan, .nil _⟩

/-- Nested stretches follow one another. -/
theorem TellsNested.andThen {x y : Action Unit} (h : TellsNested x) (hNext : TellsNested y) :
    TellsNested (x >>= fun _ => y) := by
  intro m n hRan
  obtain ⟨_, k, hFirst, hSecond⟩ := exists_ok_of_bind hRan
  obtain ⟨ts, hTells, hNested⟩ := h m k hFirst
  obtain ⟨us, hTells', hNested'⟩ := hNext k n hSecond
  rw [hTells.depth] at hNested'
  exact ⟨ts ++ us, hTells.trans hTells', hNested.append hNested'⟩

/-- The iterations of a loop add nested stretches one after the other. -/
theorem TellsNested.repeatWhile {test : Action Bool} {body : Action Unit} (hTest : Moves Silent test)
    (hBody : TellsNested body) (horizon : Nat) : TellsNested (repeatWhile test body horizon) := by
  induction horizon with
  | zero =>
      intro m n hRan
      cases hRan
  | succ horizon ih =>
      rw [repeatWhile_succ]
      refine TellsNested.bind hTest fun holds => ?_
      split
      · exact hBody.andThen ih
      · exact tellsNested_of_silent (moves_pure ())

/-- A nested stretch between the events of its scope is nested. -/
theorem TellsNested.inScope {body : Action Unit} (h : TellsNested body) (line : Int) :
    TellsNested (inScope line body) := by
  intro m n hRan
  rw [Action.inScope] at hRan
  cases hBody : body (m.enter line) with
  | error stop k =>
      rw [hBody] at hRan
      cases hRan
  | ok a k =>
      rw [hBody] at hRan
      cases hRan
      obtain ⟨ts, hTells, hNested⟩ := h _ _ hBody
      exact ⟨_, hTells.leave, hNested.scope line⟩

/-- A line that is written is told by the event that follows it. -/
theorem tellsNested_write (keyword : Token) (v : Value) (line : Int) :
    TellsNested (write run keyword v.text >>= fun _ => trace (.print line v)) := by
  intro m n hRan
  have hTells := @tells_write run keyword v line m
  rw [hRan] at hTells
  exact ⟨_, hTells, .print _ line v⟩

end Action

namespace Stmt

open Lox.Action
open Machine (Tells Silent tells_trace)

variable {run : Run} {m n k : Machine} {stop : Stop} {s t : Stmt} {ss : List Stmt}

/-- What a statement tells that completes: its start, what its work tells, and its end. -/
theorem tells_of_work {ts : List Trace} (h : Tells (m.started s) n ts) :
    Tells m (n.record (.trace (.stmtEnd s.line)))
      (.stmtStart s.line s.kindName :: ts ++ [.stmtEnd s.line]) :=
  ((tells_trace m rfl).trans h).trans (tells_trace n rfl)

/-- A nested stretch between the events of its statement is nested. -/
theorem tellsNested_of_work (h : TellsNested (s.work run)) : TellsNested (s.exec run) := by
  intro m n hRan
  obtain ⟨k, hWork, rfl⟩ := exists_work_of_ok hRan
  obtain ⟨ts, hTells, hNested⟩ := h _ _ hWork
  exact ⟨_, tells_of_work hTells, hNested.stmt s.line s.kindName⟩

mutual

/-- The work of every statement adds a nested stretch when it completes. -/
theorem tellsNested_work : (s : Stmt) → TellsNested (s.work run)
  | .expr e => .bind (silent_eval e) fun _ => tellsNested_of_silent (moves_pure ())
  | .print keyword e => .bind (silent_eval e) fun v => .bind (moves_present v) fun _ =>
      tellsNested_write keyword _ _
  | .declare name token none => tellsNested_of_silent fun _ => Machine.silent_of_eq rfl rfl rfl
  | .declare name token (some e) =>
      .bind (silent_eval e) fun _ => tellsNested_of_silent fun _ => Machine.silent_of_eq rfl rfl rfl
  | .block line body => (tellsNested_execAll body).inScope line
  | .branch keyword condition yes none => by
      refine .bind (silent_eval condition) fun v => ?_
      split
      · exact tellsNested_of_work (tellsNested_work yes)
      · exact tellsNested_of_silent (moves_pure ())
  | .branch keyword condition yes (some no) => by
      refine .bind (silent_eval condition) fun v => ?_
      split
      · exact tellsNested_of_work (tellsNested_work yes)
      · exact tellsNested_of_work (tellsNested_work no)
  | .loop keyword condition body =>
      .repeatWhile (silent_test keyword condition) (tellsNested_of_work (tellsNested_work body)) _

/-- Statements in a row add a nested stretch when all of them complete. -/
theorem tellsNested_execAll : (ss : List Stmt) → TellsNested (execAll run ss)
  | [] => tellsNested_of_silent (moves_pure ())
  | s :: ss => by
      rw [execAll]
      exact (tellsNested_of_work (tellsNested_work s)).andThen (tellsNested_execAll ss)

end

/-- A loop of which every body completes tells nested stretches until it is stopped. -/
theorem tells_of_stops_loop {test : Action Bool} {body : Action Unit} {horizon : Nat}
    (hTest : Moves Silent test) (hBody : TellsNested body)
    (hParts : ∀ l k, Tries test body horizon m l → test l = .ok true k → ∃ n, body k = .ok () n)
    (h : repeatWhile test body horizon m = .error stop n) :
    ∃ ts, Tells m n ts ∧ Nested m.scopes.depth ts := by
  induction horizon generalizing m with
  | zero =>
      cases h
      exact ⟨[], refl (r := Silent) _, .nil _⟩
  | succ horizon ih =>
      cases hTested : test m with
      | error stop' k =>
          rw [repeatWhile_succ, bind_of_error hTested] at h
          cases h
          exact ⟨[], hTest.of_error hTested, .nil _⟩
      | ok holds k =>
          cases holds with
          | false =>
              rw [repeatWhile_succ, bind_of_ok hTested] at h
              cases h
          | true =>
              obtain ⟨l, hRan⟩ := hParts m k (.first horizon m) hTested
              rw [repeatWhile_of_ok hTested hRan] at h
              have hSilent := hTest.of_ok hTested
              obtain ⟨ts, hTells, hNested⟩ := hBody k l hRan
              obtain ⟨us, hTells', hNested'⟩ :=
                ih (fun j i hTries => hParts j i (.later hTested hRan hTries)) h
              rw [hTells.depth, hSilent.depth] at hNested'
              rw [hSilent.depth] at hNested
              exact ⟨ts ++ us, (hSilent.trans hTells).trans hTells', hNested.append hNested'⟩

/-- The work of a statement that is stopped although its parts complete tells a nested stretch. -/
theorem tells_of_stops (hParts : ∀ t k, Starts run s m t k → ∃ l, t.exec run k = .ok () l)
    (h : s.work run m = .error stop n) : ∃ ts, Tells m n ts ∧ Nested m.scopes.depth ts := by
  have hPart {t : Stmt} {k l : Machine} (hStarts : Starts run s m t k)
      (hStops : t.exec run k = .error stop l) : ∃ ts, Tells m n ts ∧ Nested m.scopes.depth ts := by
    obtain ⟨l', hCompletes⟩ := hParts t k hStarts
    cases hStops.symm.trans hCompletes
  suffices hSilently : Silent m n ∨ ∃ ts, Tells m n ts ∧ Nested m.scopes.depth ts from
    hSilently.elim (fun hSilent => ⟨[], hSilent, .nil _⟩) id
  cases s with
  | expr e => exact Or.inl (((silent_eval e).bind fun _ => moves_pure ()).of_error h)
  | print keyword e =>
      rcases error_of_bind h with hEval | ⟨v, k, hEval, hRest⟩
      · exact Or.inl ((silent_eval e).of_error hEval)
      · have hSilent := (silent_eval e).of_ok hEval
        have hThere : Moves Silent (present v) := moves_present v
        rcases error_of_bind hRest with hAbsent | ⟨w, l, hPresent, hWrite⟩
        · exact Or.inl (hSilent.trans (hThere.of_error hAbsent))
        · have hTells := @tells_write run keyword w keyword.line l
          rw [hWrite] at hTells
          exact Or.inl ((hSilent.trans (hThere.of_ok hPresent)).trans hTells)
  | declare name token value =>
      cases value with
      | none => cases h
      | some e =>
          rcases error_of_bind h with hEval | ⟨v, k, _, hDefine⟩
          · exact Or.inl ((silent_eval e).of_error hEval)
          · cases hDefine
  | block line body =>
      obtain ⟨t, k, l, hStarts, hStops⟩ := exists_starts_of_block h
      exact Or.inr (hPart hStarts hStops)
  | branch keyword condition yes no =>
      rcases eval_or_starts_of_branch h with hEval | ⟨t, k, hStarts, hStops⟩
      · exact Or.inl ((silent_eval condition).of_error hEval)
      · exact Or.inr (hPart hStarts hStops)
  | loop keyword condition body =>
      exact Or.inr (tells_of_stops_loop (silent_test keyword condition)
        (tellsNested_of_work (tellsNested_work body))
        (fun l k hTries hTest => hParts body k (.body hTries hTest)) h)

/-- Up to a statement that others come to, the trace is nested. -/
theorem Reaches.tells (h : Reaches run ss m t k) : ∃ ts, Tells m k ts ∧ Nested m.scopes.depth ts := by
  induction h with
  | head s ss m => exact ⟨[], refl (r := Silent) m, .nil _⟩
  | @tail s t ss m n k hRan _ ih =>
      obtain ⟨ts, hTells, hNested⟩ := tellsNested_of_work (tellsNested_work s) m n hRan
      obtain ⟨us, hTells', hNested'⟩ := ih
      rw [hTells.depth] at hNested'
      exact ⟨ts ++ us, hTells.trans hTells', hNested.append hNested'⟩

/-- Up to each test of a loop, the trace is nested. -/
theorem tells_of_tries {test : Action Bool} {body : Action Unit} {horizon : Nat}
    (hTest : Moves Silent test) (hBody : TellsNested body) (h : Tries test body horizon m k) :
    ∃ ts, Tells m k ts ∧ Nested m.scopes.depth ts := by
  induction h with
  | first horizon m => exact ⟨[], refl (r := Silent) m, .nil _⟩
  | @later horizon m k n l hTested hRan _ ih =>
      have hSilent := hTest.of_ok hTested
      obtain ⟨ts, hTells, hNested⟩ := hBody k n hRan
      obtain ⟨us, hTells', hNested'⟩ := ih
      rw [hTells.depth, hSilent.depth] at hNested'
      rw [hSilent.depth] at hNested
      exact ⟨ts ++ us, (hSilent.trans hTells).trans hTells', hNested.append hNested'⟩

/-- What a statement tells that is stopped along a path lacks the ends of the statements of the path. -/
theorem StopsAlong.tells {path : List Stmt} (h : StopsAlong run stop s m path) :
    ∃ n ts, s.exec run m = .error stop n ∧ Tells m n ts ∧ Severed m.scopes.depth path ts := by
  induction h with
  | @last s m n hStops hParts =>
      obtain ⟨ts, hTells, hNested⟩ := tells_of_stops hParts (work_of_error hStops)
      exact ⟨n, _, hStops, (tells_trace m rfl).trans hTells, .last s hNested⟩
  | @next s t m k path hStarts _ ih =>
      obtain ⟨n, us, hPart, hTells, hSevered⟩ := ih
      have hStops := hStarts.stops hPart
      -- up to the part that is stopped the statement has told a nested stretch
      have hInside (hDone : ∃ ts, Tells (m.started s) k ts ∧ Nested m.scopes.depth ts) :
          ∃ ts, Tells m n ts ∧ Severed m.scopes.depth (s :: path) ts := by
        obtain ⟨ts, hTells', hNested⟩ := hDone
        rw [hTells'.depth] at hSevered
        exact ⟨.stmtStart s.line s.kindName :: (ts ++ us),
          (tells_trace m rfl).trans (hTells'.trans hTells), .inside s hNested hSevered⟩
      refine ⟨n.closed s, ?_⟩
      cases hStarts with
      | @block line body _ _ _ hReaches =>
          obtain ⟨ts, hTells', hNested⟩ := hReaches.tells
          rw [hTells'.depth] at hSevered
          exact ⟨_, hStops, (tells_trace m rfl).trans (hTells'.trans hTells).leave,
            .scope _ line hNested hSevered⟩
      | yes hCondition =>
          obtain ⟨ts, hTold⟩ := hInside ⟨[], (silent_eval _).of_ok hCondition, .nil _⟩
          exact ⟨ts, hStops, hTold⟩
      | no hCondition =>
          obtain ⟨ts, hTold⟩ := hInside ⟨[], (silent_eval _).of_ok hCondition, .nil _⟩
          exact ⟨ts, hStops, hTold⟩
      | @body keyword condition _ _ l _ hTries hTest =>
          obtain ⟨ts, hTells', hNested⟩ := tells_of_tries (silent_test keyword condition)
            (tellsNested_of_work (tellsNested_work t)) hTries
          obtain ⟨ts, hTold⟩ := hInside
            ⟨ts, hTells'.silent ((silent_test keyword condition).of_ok hTest), hNested⟩
          exact ⟨ts, hStops, hTold⟩

end Stmt

end Lox
