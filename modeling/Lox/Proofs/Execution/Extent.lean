import Lox.Proofs.Execution.Transcript
import Lox.Proofs.Grammar.Extent

/-! The extent of a run. Where a program is within a limit, so are the lines and the counts that the
trace of its run tells. -/
namespace Lox

namespace Trace

def counts : Trace → List Nat
  | .runStart _ statements => [statements]
  | .runEnd executed errors => [executed, errors]
  | .scopePush _ depth => [depth]
  | .scopePop _ depth => [depth]
  | _ => []

structure Within (limit : Nat) (t : Trace) : Prop where
  line : t.line.natAbs ≤ limit
  counts : ∀ n ∈ t.counts, n ≤ limit

/-- An event that tells no counts is within a limit if its line is. -/
theorem within_of_line {limit : Nat} {t : Trace} (hLine : t.line.natAbs ≤ limit) (hNone : t.counts = []) :
    t.Within limit :=
  ⟨hLine, by simp [hNone]⟩

end Trace

variable {limit depth : Nat}

def Stop.Within (limit : Nat) : Stop → Prop
  | .fault f => f.token.Within limit
  | _ => True

namespace Expr

variable {e e' : Expr} {c c' d : Chain} {f : Fault}

/-- What an expression evaluates next is within its own limit. -/
theorem Starts.within (h : Starts e c e' c') (hWithin : e.Within limit) : e'.Within limit := by
  cases h with
  | assigned => exact hWithin.2
  | left => exact hWithin.2.1
  | right => exact hWithin.2.2
  | deciding => exact hWithin.2.1
  | undecided => exact hWithin.2.2
  | operand => exact hWithin.2
  | inner => exact hWithin

/-- A fault blames a word of the expression. -/
theorem Raises.within (h : e.Raises c f) (hWithin : e.Within limit) : f.token.Within limit := by
  cases h with
  | unbound => exact hWithin
  | _ => exact hWithin.1

/-- What an expression fails at is on a line within its limit. -/
theorem within_of_error (hWithin : e.Within limit) (h : e.eval c = .error f d) :
    f.token.Within limit := by
  obtain ⟨e', c', hVisits, hRaises⟩ := e.exists_raises c h
  exact hRaises.within (hVisits.invariant (P := fun e _ => e.Within limit) hWithin
    fun _ _ _ _ hWithin hStarts => hStarts.within hWithin)

end Expr

namespace Machine

/-- The machine is inside so many scopes, and what its trace tells is within a limit. -/
structure Within (limit depth : Nat) (m : Machine) : Prop where
  depth : m.scopes.depth = depth
  traces : ∀ t ∈ m.traces, t.Within limit

variable {m n : Machine} {ts : List Trace}

/-- A machine stays within a limit if the events that it adds are. -/
theorem Within.of_tells (h : m.Within limit depth) (hTells : Tells m n ts)
    (hTraces : ∀ t ∈ ts, t.Within limit) : n.Within limit depth := by
  refine ⟨hTells.depth.trans h.depth, ?_⟩
  rw [hTells.traces]
  exact List.forall_mem_append.mpr ⟨h.traces, hTraces⟩

theorem Within.of_silent (h : m.Within limit depth) (hSilent : Silent m n) : n.Within limit depth :=
  h.of_tells hSilent (List.forall_mem_nil _)

theorem Within.record (h : m.Within limit depth) {t : Trace} (ht : t.Within limit) :
    (m.record (.trace t)).Within limit depth := by
  refine ⟨h.depth, ?_⟩
  rw [traces_record]
  exact List.forall_mem_append.mpr ⟨h.traces, List.forall_mem_singleton.mpr ht⟩

/-- Entering a scope takes the machine one level deeper. -/
theorem Within.enter (h : m.Within limit depth) {line : Int} (hLine : line.natAbs ≤ limit)
    (hDepth : depth + 1 ≤ limit) : (m.enter line).Within limit (depth + 1) := by
  refine ⟨congrArg (· + 1) h.depth, ?_⟩
  rw [traces_enter]
  refine List.forall_mem_append.mpr ⟨h.traces, List.forall_mem_singleton.mpr ⟨hLine, ?_⟩⟩
  exact List.forall_mem_singleton.mpr (h.depth ▸ hDepth)

/-- Leaving a scope takes the machine back by one level. -/
theorem Within.leave (h : m.Within limit (depth + 1)) {line : Int} (hLine : line.natAbs ≤ limit)
    (hDepth : depth + 1 ≤ limit) : (m.leave line).Within limit depth := by
  refine ⟨Chain.depth_pop h.depth, ?_⟩
  rw [traces_leave]
  refine List.forall_mem_append.mpr ⟨h.traces, List.forall_mem_singleton.mpr ⟨hLine, ?_⟩⟩
  exact List.forall_mem_singleton.mpr (h.depth ▸ hDepth)

end Machine

namespace Action

open Machine (Silent)

variable {α : Type} {run : Run}

/-- From machines within a limit the action goes to such machines, and stops within the limit. -/
abbrev IsWithin (limit depth : Nat) (x : Action α) : Prop :=
  Yields (Machine.Within limit depth) (fun _ => True) (Stop.Within limit) x

/-- An action that tells nothing. -/
theorem isWithin_of_silent {x : Action α} (h : Moves Silent x)
    (hStops : ∀ m stop n, x m = .error stop n → stop.Within limit) : IsWithin limit depth x :=
  ⟨fun m hm => hm.of_silent (h m), fun _ _ _ _ _ => trivial, fun m stop n _ hRan => hStops m stop n hRan⟩

theorem isWithin_trace {t : Trace} (h : t.Within limit) : IsWithin limit depth (trace t) := by
  refine ⟨fun m hm => hm.record h, fun _ _ _ _ _ => trivial, fun m stop n _ hRan => ?_⟩
  cases hRan

theorem isWithin_define (name : Text) (v : Slot) :
    IsWithin limit depth
      (modify fun m : Machine => { m with scopes := m.scopes.define name v } : Action Unit) := by
  refine isWithin_of_silent (fun _ => Machine.silent_of_eq rfl rfl rfl) fun m stop n hRan => ?_
  cases hRan

/-- An expression within a limit stops within it. -/
theorem isWithin_eval {e : Expr} (h : e.Within limit) : IsWithin limit depth (eval e) := by
  refine isWithin_of_silent (silent_eval e) fun m stop n hRan => ?_
  obtain ⟨f, c, hFails, rfl⟩ := error_of_eval hRan
  exact Expr.within_of_error h hFails

theorem isWithin_checkTime {keyword : Token} (h : keyword.Within limit) :
    IsWithin limit depth (checkTime run keyword) := by
  refine isWithin_of_silent (silent_checkTime keyword) fun m stop n hRan => ?_
  rcases stop_of_checkTime hRan with ⟨i, rfl⟩ | ⟨_, rfl⟩
  · trivial
  · exact h

theorem isWithin_countIteration {keyword : Token} (h : keyword.Within limit) :
    IsWithin limit depth (countIteration run keyword) := by
  refine isWithin_of_silent (silent_countIteration keyword) fun m stop n hRan => ?_
  rw [countIteration] at hRan
  split at hRan
  · cases hRan
    exact h
  · cases hRan

theorem isWithin_present (v : Slot) : IsWithin limit depth (present v) := by
  cases v with
  | none => exact yields_throw trivial
  | some v => exact yields_pure trivial

/-- A line that is written is told on the line of its statement, and a write that is refused fails
there. -/
theorem isWithin_write {keyword : Token} (h : keyword.Within limit) (v : Value) :
    IsWithin limit depth
      (write run keyword v.text >>= fun _ => trace (.print keyword.line v)) := by
  have hTells (m : Machine) := @tells_write run keyword v keyword.line m
  refine ⟨fun m hm => ?_, fun _ _ _ _ _ => trivial, fun m stop n hm hRan => ?_⟩
  · specialize hTells m
    cases hRan : (write run keyword v.text >>= fun _ => trace (.print keyword.line v)) m with
    | ok a n =>
        rw [hRan] at hTells
        exact hm.of_tells hTells (List.forall_mem_singleton.mpr (Trace.within_of_line h rfl))
    | error stop n =>
        rw [hRan] at hTells
        exact hm.of_silent hTells
  · rcases error_of_bind hRan with hWrite | ⟨_, _, _, hTrace⟩
    · rw [write] at hWrite
      cases hRefusal : run.host.refusal m.progress.attempts with
      | none =>
          rw [hRefusal] at hWrite
          cases hWrite
      | some reason =>
          rw [hRefusal] at hWrite
          cases hWrite
          exact h
    · cases hTrace

/-- The test of a loop stops within a limit if its keyword and its condition are. -/
theorem isWithin_test {keyword : Token} {condition : Expr} (hKeyword : keyword.Within limit)
    (h : condition.Within limit) : IsWithin limit depth (test run keyword condition) := by
  refine (isWithin_checkTime hKeyword).bind fun _ _ => (isWithin_eval h).bind fun v _ => ?_
  split
  · exact (isWithin_countIteration hKeyword).bind fun _ _ => yields_pure trivial
  · exact yields_pure trivial

/-- A loop is within a limit if each test and each iteration is. -/
theorem isWithin_repeatWhile {test : Action Bool} {body : Action Unit} (hTest : IsWithin limit depth test)
    (hBody : IsWithin limit depth body) (horizon : Nat) :
    IsWithin limit depth (repeatWhile test body horizon) := by
  induction horizon with
  | zero => exact yields_throw trivial
  | succ horizon ih =>
      rw [repeatWhile_succ]
      refine hTest.bind fun holds _ => ?_
      split
      · exact hBody.bind fun _ _ => ih
      · exact yields_pure trivial

/-- A body that is run one level deeper needs room for that level. -/
theorem isWithin_inScope {body : Action Unit} {line : Int} (hLine : line.natAbs ≤ limit)
    (hDepth : depth + 1 ≤ limit) (h : IsWithin limit (depth + 1) body) :
    IsWithin limit depth (inScope line body) := by
  refine ⟨fun m hm => ?_, fun _ _ _ _ _ => trivial, fun m stop n hm hRan => ?_⟩
  · have hEntered := hm.enter hLine hDepth
    rw [inScope]
    cases hRan : body (m.enter line) with
    | ok a n => exact (h.of_ok hEntered hRan).leave hLine hDepth
    | error stop n => exact (h.of_error hEntered hRan).leave hLine hDepth
  · rw [inScope] at hRan
    cases hBody : body (m.enter line) with
    | ok a k =>
        rw [hBody] at hRan
        cases hRan
    | error stop' k =>
        rw [hBody] at hRan
        cases hRan
        exact h.error _ _ _ (hm.enter hLine hDepth) hBody

theorem isWithin_traced {body : Action Unit} {line : Int} (hLine : line.natAbs ≤ limit)
    (h : IsWithin limit depth body) (kind : String) : IsWithin limit depth (traced line kind body) :=
  (isWithin_trace (Trace.within_of_line hLine rfl)).bind fun _ _ => h.bind fun _ _ =>
    isWithin_trace (Trace.within_of_line hLine rfl)

end Action

namespace Stmt

open Lox.Action

variable {run : Run}

mutual

/-- A statement within a limit is run within it. -/
theorem isWithin_exec {depth : Nat} :
    (s : Stmt) → s.Within limit depth → IsWithin limit depth (s.exec run)
  | .expr e, h => by
      rw [exec]
      exact isWithin_traced (Expr.Within.line h) ((isWithin_eval h).bind fun _ _ => yields_pure trivial) _
  | .print keyword e, h => by
      rw [exec]
      refine isWithin_traced h.1 ((isWithin_eval h.2).bind fun v _ => ?_) _
      exact (isWithin_present v).bind fun v _ => isWithin_write h.1 v
  | .declare name token none, h => by
      rw [exec]
      exact isWithin_traced h (isWithin_define name _) _
  | .declare name token (some e), h => by
      rw [exec]
      exact isWithin_traced h.1 ((isWithin_eval h.2).bind fun v _ => isWithin_define name v) _
  | .block line body, h => by
      rw [exec]
      exact isWithin_traced h.1.1 (isWithin_inScope h.1.1 h.1.2 (isWithin_execAll body h.2)) _
  | .branch keyword condition yes none, h => by
      rw [exec]
      refine isWithin_traced h.1 ((isWithin_eval h.2.1).bind fun v _ => ?_) _
      split
      · exact isWithin_exec yes h.2.2
      · exact yields_pure trivial
  | .branch keyword condition yes (some no), h => by
      rw [exec]
      refine isWithin_traced h.1 ((isWithin_eval h.2.1).bind fun v _ => ?_) _
      split
      · exact isWithin_exec yes h.2.2.1
      · exact isWithin_exec no h.2.2.2
  | .loop keyword condition body, h => by
      rw [exec]
      refine isWithin_traced h.1 ?_ _
      exact isWithin_repeatWhile (isWithin_test h.1 h.2.1) (isWithin_exec body h.2.2) _

/-- Statements in a row are within a limit if each of them is. -/
theorem isWithin_execAll {depth : Nat} : (ss : List Stmt) → AreWithin limit depth ss →
    IsWithin limit depth (execAll run ss)
  | [], _ => yields_pure trivial
  | s :: ss, h => by
      rw [execAll]
      exact (isWithin_exec s h.1).bind fun _ _ => isWithin_execAll ss h.2

end

end Stmt

namespace Machine

variable {run : Run} {m n : Machine} {s : Stmt} {ss : List Stmt}

/-- A report of a fault within the limit keeps the machine within it. -/
theorem Within.reported (h : m.Within limit depth) {f : Fault} (hFault : f.token.Within limit) :
    (m.reported f).Within limit depth :=
  h.of_tells (tells_reported m f) (List.forall_mem_singleton.mpr (Trace.within_of_line hFault rfl))

/-- Top-level statements within a limit are run within it. -/
theorem Within.runAll (h : m.Within limit depth) (hs : ∀ s ∈ ss, s.Within limit depth) :
    (runAll run ss m).2.Within limit depth := by
  induction ss generalizing m with
  | nil => exact h
  | cons s ss ih =>
      obtain ⟨hFirst, hRest⟩ := List.forall_mem_cons.mp hs
      have hExec : Action.IsWithin limit depth (s.exec run) := Stmt.isWithin_exec s hFirst
      have hAttempted := attempted run s m
      rw [runAll_cons]
      generalize Machine.runAll run [s] m = ended at hAttempted
      cases hAttempted with
      | interruptedBefore hPoll => exact h.of_silent (silent_of_poll hPoll)
      | completed hPoll hRan => exact ih (hExec.of_ok (h.of_silent (silent_of_poll hPoll)) hRan) hRest
      | failed hPoll hRan =>
          have hPolled := h.of_silent (silent_of_poll hPoll)
          exact ih ((hExec.of_error hPolled hRan).reported (hExec.error _ _ _ hPolled hRan)) hRest
      | exhausted hPoll hRan =>
          have hPolled := h.of_silent (silent_of_poll hPoll)
          have hFault := hExec.error _ _ _ hPolled hRan
          exact ((hExec.of_error hPolled hRan).of_silent (silent_report _ _)).record
            (Trace.within_of_line hFault rfl)
      | interrupted hPoll hRan => exact hExec.of_error (h.of_silent (silent_of_poll hPoll)) hRan
      | crashed hPoll hRan => exact hExec.of_error (h.of_silent (silent_of_poll hPoll)) hRan
      | unfinished hPoll hRan => exact hExec.of_error (h.of_silent (silent_of_poll hPoll)) hRan

/-- Every top-level statement is counted once at most. -/
theorem executed_add_length_le (run : Run) (ss : List Stmt) (m : Machine) :
    (runAll run ss m).1.executed + (runAll run ss m).1.diagnostics.length ≤ ss.length := by
  induction ss generalizing m with
  | nil => exact Nat.le_refl 0
  | cons s ss ih =>
      have hAttempted := attempted run s m
      rw [runAll_cons, List.length_cons]
      generalize runAll run [s] m = ended at hAttempted
      cases hAttempted with
      | @completed n k =>
          have hNext := ih k
          simp only [followedBy, RunResult.andThen, List.nil_append]
          omega
      | @failed f n k =>
          have hNext := ih (k.reported f)
          simp only [followedBy, RunResult.andThen, List.length_append, List.length_singleton]
          omega
      | _ => simp [followedBy]

/-- The trace of a run is within a limit if the program is. -/
theorem within_execute (host : Host) (budget : Budget) (runId : Text) (horizon : Nat) {p : Program}
    (hPos : 0 < limit) (hp : p.Within limit) (h : m.Within limit 0) :
    (execute host budget runId horizon p m).2.Within limit 0 := by
  have hBegun : (m.begun runId p).Within limit 0 := by
    refine h.of_tells (tells_begun runId p m) (List.forall_mem_singleton.mpr ⟨hp.line hPos, ?_⟩)
    exact List.forall_mem_singleton.mpr hp.length_le
  let run : Run := ⟨host, budget, runId, horizon, m.progress⟩
  have hRun : (runAll run p.statements (m.begun runId p)).2.Within limit 0 :=
    hBegun.runAll hp.statements
  have hCounts := executed_add_length_le run p.statements (m.begun runId p)
  have hLength := hp.length_le
  refine hRun.of_tells (tells_concluded runId _) (List.forall_mem_singleton.mpr ⟨Nat.zero_le _, ?_⟩)
  intro n hn
  rcases List.mem_cons.mp hn with rfl | hn
  · omega
  · rw [List.mem_singleton.mp hn]
    omega

end Machine
end Lox
