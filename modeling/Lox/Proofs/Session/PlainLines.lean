import Lox.Proofs.Decimal.ReadBack
import Lox.Proofs.Grammar.Provenance
import Lox.Proofs.Trace.Summary

/-! What is printed is on one line each. The lexer ends a string at a quote or a newline and nothing
escapes them, so that no string that a session comes to has one of them inside. -/
namespace Lox

open Text (newline quote)

/-- The value is no string with a quote or a newline inside. -/
def Value.IsPlain : Value → Prop
  | .string s => quote ∉ s ∧ newline ∉ s
  | _ => True

/-- There is a value, and it is plain. -/
def Slot.IsPlain : Slot → Prop
  | none => False
  | some v => v.IsPlain

theorem Decimal.IsDigits.newline_notMem {t : Text} (h : IsDigits t) : newline ∉ t :=
  fun hMem => absurd (h.2 newline hMem) (by decide)

theorem Decimal.IsNumeral.newline_notMem {t : Text} (h : IsNumeral t) : newline ∉ t := by
  cases h with
  | whole hDigits => exact hDigits.newline_notMem
  | point hWhole hFraction =>
      simp only [List.mem_append, List.mem_cons, not_or]
      exact ⟨hWhole.newline_notMem, by decide, hFraction.newline_notMem⟩

/-- The text of a number is on one line. -/
theorem Value.newline_notMem_numberText (x : Float) : newline ∉ numberText x := by
  have hSign : newline ∉ (if Decimal.isNegative x then Text.ofString "-" else Text.ofString "") := by
    split <;> decide
  rw [numberText]
  split
  · decide
  · split
    · split <;> decide
    · simp only
      split
      · simp only [Text.concat, List.flatten_cons, List.flatten_nil, List.mem_append, not_or]
        exact ⟨hSign, by decide, by decide⟩
      · rw [List.mem_append, not_or]
        exact ⟨hSign, (Decimal.denotes_positional _).isNumeral.newline_notMem⟩

/-- The text of a plain value is on one line. -/
theorem Value.IsPlain.newline_notMem_text {v : Value} (h : v.IsPlain) : newline ∉ v.text := by
  cases v with
  | nil => decide
  | bool b => cases b <;> decide
  | number x => exact newline_notMem_numberText x
  | string s =>
      simp only [text, List.mem_cons, List.mem_append, List.not_mem_nil, or_false, not_or]
      exact ⟨by decide, h.2, by decide⟩

/-- Plain strings are joined to a plain one. -/
theorem Slot.isPlain_add {a b : Slot} {v : Value} (ha : a.IsPlain) (hb : b.IsPlain)
    (h : Slot.add a b = .ok v) : v.IsPlain := by
  unfold Slot.add at h
  split at h
  · cases h
    trivial
  · cases h
    simp only [Value.IsPlain, List.mem_append, not_or]
    exact ⟨⟨ha.1, hb.1⟩, ha.2, hb.2⟩
  · cases h

theorem Slot.isPlain_arithmetic {f : Float → Float → Float} {a b : Slot} {v : Value}
    (h : Slot.arithmetic f a b = .ok v) : v.IsPlain := by
  unfold Slot.arithmetic at h
  split at h <;> cases h
  trivial

theorem Slot.isPlain_comparison {f : Float → Float → Bool} {a b : Slot} {v : Value}
    (h : Slot.comparison f a b = .ok v) : v.IsPlain := by
  unfold Slot.comparison at h
  split at h <;> cases h
  trivial

/-- Operators have plain values on plain operands. -/
theorem BinaryOp.isPlain_apply {op : BinaryOp} {a b : Slot} {v : Value} (ha : a.IsPlain)
    (hb : b.IsPlain) (h : op.apply a b = .ok v) : v.IsPlain := by
  cases op with
  | add => exact Slot.isPlain_add ha hb h
  | sub | mul | div => exact Slot.isPlain_arithmetic h
  | less | lessEqual | greater | greaterEqual => exact Slot.isPlain_comparison h
  | equal | notEqual =>
      cases h
      trivial

theorem UnaryOp.isPlain_apply {op : UnaryOp} {a : Slot} {v : Value} (h : op.apply a = .ok v) :
    v.IsPlain := by
  cases op with
  | not =>
      cases h
      trivial
  | negate =>
      change Slot.negate a = .ok v at h
      unfold Slot.negate at h
      split at h <;> cases h
      trivial

/-- Plain values, and whatever fault. -/
def Policy.plain : Policy where
  value := Slot.IsPlain
  printed := Value.IsPlain
  fault _ := True
  nil := trivial
  binary := BinaryOp.isPlain_apply
  unary _ := UnaryOp.isPlain_apply
  printed_of_value := id

/-- A string loses its quotes when it is scanned, and there is no other quote and no newline in it. -/
theorem Token.IsScanned.obeys_plain {t : Token} (h : t.IsScanned) : t.Obeys .plain where
  literal hKind := by
    rcases h.literal_cases hKind with ⟨-, hLiteral⟩ | ⟨-, s, -, hLiteral, hInside⟩ |
      ⟨-, hLiteral⟩ | ⟨-, hLiteral⟩ | ⟨-, hLiteral⟩ <;> rw [hLiteral, Option.getD_some]
    · trivial
    · exact ⟨fun hMem => (hInside quote hMem).1 rfl, fun hMem => (hInside newline hMem).2 rfl⟩
    · trivial
    · trivial
    · trivial
  name _ := trivial
  operator _ _ := trivial
  print _ _ := trivial
  iterations _ _ := trivial
  time _ _ := trivial

/-- The literals of every source are plain. -/
theorem Program.obeys_plain (source : Text) : ∀ s ∈ (ofSource source).program.statements, s.Obeys .plain := by
  refine obeys_ofTokens ?_
  rw [Scan.tokens_ofSource, splitEnd_append rfl]
  exact fun t ht => (Scan.isScanned_of_mem ht).obeys_plain

namespace Session

/-- A session that has only run sources, one after the other. Between them its surroundings and its
conduct may change, and its events may be cleared. -/
inductive Reached : Session → Prop
  | start (host : Host) (conduct : Conduct) : Reached (.start host conduct)
  | run {s : Session} (h : Reached s) (source file : Text) : Reached (s.run source file).2
  | change {s : Session} (h : Reached s) (host : Host) (conduct : Conduct) :
      Reached ⟨host, conduct, s.machine⟩
  | clear {s : Session} (h : Reached s) : Reached s.clear

variable {s : Session} {p : Policy}

theorem obeys_prepared (h : s.machine.Obeys p) (source file : Text) :
    (s.prepared source file).machine.Obeys p :=
  prepared_of_record h (fun _ _ hm => hm.record rfl) (fun _ _ hm => hm.record rfl) source file

/-- Running a source as asked for keeps a machine as asked for. -/
theorem obeys_run (h : s.machine.Obeys p) (source file : Text)
    (hProgram : ∀ t ∈ (Program.ofSource source).program.statements, t.Obeys p) :
    (s.run source file).2.machine.Obeys p := by
  rcases s.run_eq_or source file with hRan | hRan
  · rw [hRan]
    exact obeys_prepared h source file
  · have hEnded : (s.execution source file).2.Obeys p :=
      (Machine.execute_obeys hProgram (obeys_prepared h source file)).1
    rw [hRan]
    exact after_of_record hEnded (fun _ _ hm => hm.record rfl) (s.prepared source file) file

/-- However it got there, a session has plain values only. -/
theorem Reached.obeys_plain (h : s.Reached) : s.machine.Obeys .plain := by
  induction h with
  | start host conduct => exact ⟨Chain.holds_empty, List.forall_mem_nil _⟩
  | run _ source file ih => exact obeys_run ih source file (Program.obeys_plain source)
  | change _ _ _ ih => exact ih
  | clear _ ih => exact ⟨ih.scopes, List.forall_mem_nil _⟩

/-- Whatever a session writes is told by its trace. -/
theorem tells_run (s : Session) (source file : Text) :
    ∃ ts, Machine.Tells s.machine (s.run source file).2.machine ts := by
  have hPrepared := s.silent_prepared source file
  rcases s.run_eq_or source file with hRan | hRan
  · rw [hRan]
    exact ⟨[], hPrepared⟩
  · obtain ⟨groups, _, hTells, _⟩ := Machine.tells_execute s.host s.conduct.budget s.conduct.runId
      s.conduct.horizon (Program.ofSource source).program (s.prepared source file).machine
    rw [hRan]
    exact ⟨_, (hPrepared.trans hTells).silent ((s.prepared source file).silent_after file _)⟩

end Session

/-- Wherever the statement takes its run, names are bound to plain values and expressions have plain
values. -/
structure Stmt.DealsPlainly (run : Run) (s : Stmt) (m : Machine) : Prop where
  scopes : ∀ t k, s.Visits run m t k → k.scopes.Holds Slot.IsPlain
  before : ∀ e c, s.Computes run m e c → c.Holds Slot.IsPlain
  value : ∀ e c v d, s.Computes run m e c → e.eval c = .ok v d → v.IsPlain
  after : ∀ e c, s.Computes run m e c → (finalState (e.eval c)).Holds Slot.IsPlain

/-- A statement with plain literals deals with plain values only. -/
theorem Stmt.Obeys.dealsPlainly {run : Run} {s : Stmt} {m : Machine} (h : s.Obeys .plain)
    (hMachine : m.Obeys .plain) : s.DealsPlainly run m where
  scopes _ _ hVisits := (hVisits.obeys h hMachine).2.scopes
  before _ _ hComputes := (hComputes.obeys h hMachine).2
  value e c v d hComputes hValue := by
    obtain ⟨hExpr, hScopes⟩ := hComputes.obeys h hMachine
    exact (Expr.obeys_eval hExpr).value c v d hScopes hValue
  after e c hComputes := by
    obtain ⟨hExpr, hScopes⟩ := hComputes.obeys h hMachine
    exact (Expr.obeys_eval hExpr).state c hScopes

/-- The line that shows a value has no newline but the last byte, and if the value is a string, no
quote but those around it. -/
structure Value.ShowsOnOneLine (v : Value) : Prop where
  newline : newline ∉ v.text
  quotes : ∀ s, v = .string s → v.text = quote :: (s ++ [quote]) ∧ quote ∉ s

/-- A plain value is shown on one line. -/
theorem Value.IsPlain.showsOnOneLine {v : Value} (h : v.IsPlain) : v.ShowsOnOneLine := by
  refine ⟨h.newline_notMem_text, fun s hString => ?_⟩
  cases hString
  exact ⟨rfl, h.1⟩

open Machine (runAll)

/-- Every print is exactly one line. In a session that has only run sources, names are bound to plain
values, and it stays so: when a further source is run, every statement that the run comes to finds plain
values in scope, computes plain values from them and leaves plain values behind. Each write is the text
of a value, which is on one line, and a newline. -/
theorem Session.run_prints_lines {s : Session} (hReached : s.Reached) (source file : Text) :
    let p := (Program.ofSource source).program
    let m := (s.prepared source file).machine
    let run := s.runAt m.progress
    let begun := m.begun s.conduct.runId p
    let ended := (s.run source file).2.machine
    s.machine.scopes.Holds Slot.IsPlain ∧ ended.scopes.Holds Slot.IsPlain ∧
      (∀ before t later n, p.statements = before ++ t :: later →
        (runAll run before begun).1.error = none →
        (runAll run before begun).2.poll run = (none, n) → t.DealsPlainly run n) ∧
      ∃ values : List Value, ended.printed = s.machine.printed ++ values ∧
        ended.outputs = s.machine.outputs ++ values.map (fun v => v.text ++ [newline]) ∧
        ∀ v ∈ values, v.IsPlain ∧ v.ShowsOnOneLine := by
  intro p m run begun ended
  have hBefore := hReached.obeys_plain
  have hAfter : ended.Obeys .plain := (hReached.run source file).obeys_plain
  refine ⟨hBefore.scopes, hAfter.scopes, fun before t later n hSplit _ hPoll => ?_, ?_⟩
  · have hProgram := Program.obeys_plain source
    rw [show (Program.ofSource source).program.statements = _ from hSplit] at hProgram
    have hBegun := (obeys_prepared hBefore source file).begun s.conduct.runId p
    obtain ⟨hHere, hReached⟩ := Machine.obeys_of_reached hProgram hBegun hPoll
    exact hHere.dealsPlainly hReached
  · obtain ⟨ts, hTells⟩ := s.tells_run source file
    have hPrinted : ended.printed = s.machine.printed ++ ts.filterMap Trace.printed? := by
      rw [Machine.printed, hTells.traces, List.filterMap_append, Machine.printed]
    refine ⟨ts.filterMap Trace.printed?, hPrinted, hTells.outputs, fun v hMem => ?_⟩
    have hPlain : v.IsPlain := hAfter.printed v (hPrinted ▸ List.mem_append_right _ hMem)
    exact ⟨hPlain, hPlain.showsOnOneLine⟩

/-- A string of one source is joined to a string of the next and printed. -/
theorem Session.run_prints_lines_joined :
    let s := ((Session.start .ideal ⟨.unlimited, true, [], 1⟩).run "var a = \"x\";" []).2
    let ended := (s.run "print a + \"y\"; print 1 / 2;" []).2.machine
    s.Reached ∧ ended.outputs = [Text.ofString "\"xy\"\n", Text.ofString "0.5\n"] ∧
      ended.scopes.Holds Slot.IsPlain ∧
      ∃ values : List Value, ended.outputs = s.machine.outputs ++ values.map (fun v => v.text ++ [newline]) ∧
        ∀ v ∈ values, v.IsPlain ∧ v.ShowsOnOneLine := by
  intro s ended
  have hReached : s.Reached := (Reached.start _ _).run _ _
  obtain ⟨_, hScopes, _, values, _, hOutputs, hValues⟩ :=
    run_prints_lines hReached "print a + \"y\"; print 1 / 2;" []
  exact ⟨hReached, by decide +kernel, hScopes, values, hOutputs, hValues⟩

end Lox
