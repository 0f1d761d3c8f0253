import Lox.Proofs.Execution.Sequence
import Lox.Proofs.Execution.Steps

/-! Runs that nothing disturbs: their output sink takes everything, nobody asks them to stop and
nothing limits them. What such a run does depends on the scopes alone, not on how much was counted and
written before it began. -/
namespace Lox

/-- The surroundings and the budget leave the run alone. -/
structure Run.IsQuiet (run : Run) : Prop where
  accepts : ∀ attempts, run.host.refusal attempts = none
  goesOn : ∀ now, run.host.interrupt run.budget.timeout run.start now = none
  unlimited : ¬ 0 < run.budget.maxIterations

/-- The run is brought to its last statement or is ended: it neither came down nor was left unfinished. -/
def RunResult.Terminates (r : RunResult) : Prop := r.error ≠ some .crashed ∧ r.error ≠ some .unfinished

/-- A statement of a quiet run stops only for a fault of its own, or because it comes down or is
unfinished. -/
theorem Stop.Arises.of_isQuiet {run : Run} (h : run.IsQuiet) {stop : Stop} (hStop : stop.Arises run) :
    (stop = .crashed ∨ stop = .unfinished) ∨ ∃ f : Fault, f.code ≠ .budget ∧ stop = .fault f := by
  cases hStop with
  | fault hCode => exact Or.inr ⟨_, hCode, rfl⟩
  | iterations _ hLimit => exact absurd hLimit h.unlimited
  | time _ _ hAnswer =>
      rw [h.goesOn] at hAnswer
      cases hAnswer
  | interrupted hAnswer =>
      rw [h.goesOn] at hAnswer
      cases hAnswer
  | crashed => exact Or.inl (Or.inl rfl)
  | unfinished => exact Or.inl (Or.inr rfl)

namespace Machine

/-- Machines that have the same scopes and have written the same. -/
structure Matches (m n : Machine) : Prop where
  scopes : m.scopes = n.scopes
  outputs : m.outputs = n.outputs

variable {m n k : Machine}

theorem Matches.refl (m : Machine) : Matches m m := ⟨rfl, rfl⟩

theorem Matches.trans (h : Matches m n) (h' : Matches n k) : Matches m k :=
  ⟨h.scopes.trans h'.scopes, h.outputs.trans h'.outputs⟩

theorem Matches.symm (h : Matches m n) : Matches n m := ⟨h.scopes.symm, h.outputs.symm⟩

/-- Events that write nothing may differ between machines that match. -/
theorem Matches.record (h : Matches m n) {e e' : Event} (he : e.output? = none)
    (he' : e'.output? = none) : Matches (m.record e) (n.record e') :=
  ⟨h.scopes, by rw [outputs_record he, outputs_record he', h.outputs]⟩

/-- An event that writes nothing may be missing on one side. -/
theorem Matches.recordRight (h : Matches m n) {e : Event} (he : e.output? = none) :
    Matches m (n.record e) :=
  ⟨h.scopes, by rw [outputs_record he, h.outputs]⟩

theorem Matches.withScopes (h : Matches m n) (c : Chain) :
    Matches { m with scopes := c } { n with scopes := c } :=
  ⟨rfl, h.outputs⟩

theorem Matches.enter (h : Matches m n) (line : Int) : Matches (m.enter line) (n.enter line) :=
  ⟨congrArg Chain.push h.scopes, by rw [outputs_enter, outputs_enter, h.outputs]⟩

theorem Matches.leave (h : Matches m n) (line : Int) : Matches (m.leave line) (n.leave line) :=
  ⟨congrArg Chain.pop h.scopes, by rw [outputs_leave, outputs_leave, h.outputs]⟩

/-- Machines that are alike match: what is left out is how far they have come. -/
theorem Alike.matches (h : Alike Eq m n) : Matches m n := ⟨h.scopes, h.outputs⟩

theorem Matches.reported (h : Matches m n) (f : Fault) : Matches (m.reported f) (n.reported f) :=
  ((h.record rfl rfl).record rfl rfl).record rfl rfl

/-- In a quiet run the surroundings never ask to stop. -/
theorem poll_of_isQuiet {run : Run} (h : run.IsQuiet) (m : Machine) :
    m.poll run = (none, { m with progress := { m.progress with polls := m.progress.polls + 1 } }) := by
  rw [poll, h.goesOn]

end Machine

namespace Action

open Machine (Matches poll_of_isQuiet)

variable {run run' : Run}

/-- Evaluation looks at nothing but the scopes. -/
theorem agree_eval_matches (e : Expr) : Agree Matches Eq (eval e) (eval e) := by
  intro m n hMatches
  rw [eval, ofEvaluation, ofEvaluation, hMatches.scopes]
  cases e.eval n.scopes with
  | ok v c => exact .ok (hMatches.withScopes c)
  | error f c => exact .error rfl (hMatches.withScopes c)

/-- Quiet runs have every write taken. -/
theorem agree_write_quiet (h : run.IsQuiet) (h' : run'.IsQuiet) (keyword : Token) (text : Text) :
    Agree Matches Eq (write run keyword text) (write run' keyword text) := by
  intro m n hMatches
  rw [write, write, h.accepts, h'.accepts]
  refine .ok ⟨hMatches.scopes, ?_⟩
  have hOutputs := hMatches.outputs
  simp only [Machine.outputs] at hOutputs ⊢
  simp [hOutputs, Event.output?]

/-- Quiet runs are never asked to stop. -/
theorem agree_checkTime_quiet (h : run.IsQuiet) (h' : run'.IsQuiet) (keyword : Token) :
    Agree Matches Eq (checkTime run keyword) (checkTime run' keyword) := by
  intro m n hMatches
  rw [checkTime, checkTime, poll_of_isQuiet h, poll_of_isQuiet h']
  exact .ok ⟨hMatches.scopes, hMatches.outputs⟩

/-- Quiet runs do not run out of iterations. -/
theorem agree_countIteration_quiet (h : run.IsQuiet) (h' : run'.IsQuiet) (keyword : Token) :
    Agree Matches Eq (countIteration run keyword) (countIteration run' keyword) := by
  intro m n hMatches
  rw [countIteration, countIteration, if_neg (fun hSpent => h.unlimited hSpent.1),
    if_neg (fun hSpent => h'.unlimited hSpent.1)]
  exact .ok ⟨hMatches.scopes, hMatches.outputs⟩

theorem agree_inScope_matches {body body' : Action Unit} (h : Agree Matches Eq body body')
    (line : Int) : Agree Matches Eq (inScope line body) (inScope line body') := by
  intro m n hMatches
  have hBody := h _ _ (hMatches.enter line)
  rw [inScope, inScope]
  generalize body (m.enter line) = r, body' (n.enter line) = r' at hBody
  cases hBody with
  | ok hState => exact .ok (hState.leave line)
  | error hStop hState => exact .error hStop (hState.leave line)

/-- Agreement up to the counts is a congruence of quiet runs. -/
theorem congruence_quiet (h : run.IsQuiet) (h' : run'.IsQuiet) (hHorizon : run'.horizon = run.horizon) :
    Congruence run run' (Agree Matches Eq) where
  pure := agree_pure
  bind := Agree.bind
  trace _ _ _ hMatches := .ok (hMatches.record rfl rfl)
  define name value _ _ hMatches :=
    .ok ⟨congrArg (fun c => c.define name value) hMatches.scopes, hMatches.outputs⟩
  eval := agree_eval_matches
  crash := agree_throw rfl
  write := agree_write_quiet h h'
  checkTime := agree_checkTime_quiet h h'
  countIteration := agree_countIteration_quiet h h'
  repeatWhile hTest hBody := hHorizon ▸ agree_repeatWhile rfl hTest hBody _
  inScope line hBody := agree_inScope_matches hBody line

end Action

namespace Machine

variable {run run' : Run}

/-- A quiet attempt at a statement goes the same way from machines that match. -/
theorem runAll_singleton_matches (h : run.IsQuiet) (h' : run'.IsQuiet)
    (hHorizon : run'.horizon = run.horizon) (s : Stmt) {m n : Machine} (hMatches : Matches m n) :
    (runAll run [s] m).1 = (runAll run' [s] n).1 ∧
      Matches (runAll run [s] m).2 (runAll run' [s] n).2 := by
  have hRan := s.congruence_exec (Action.congruence_quiet h h' hHorizon) _ _
    (show Matches (m.poll run).2 (n.poll run').2 from ⟨hMatches.scopes, hMatches.outputs⟩)
  rw [poll_of_isQuiet h, poll_of_isQuiet h'] at hRan
  rw [runAll, runAll, runFrom_cons, runFrom_cons, poll_of_isQuiet h, poll_of_isQuiet h']
  dsimp only at hRan ⊢
  generalize s.exec run _ = r, s.exec run' _ = r' at hRan
  cases hRan with
  | ok hState => exact ⟨rfl, hState⟩
  | @error stop _ _ _ hStop hState =>
      subst hStop
      cases stop with
      | unfinished => exact ⟨rfl, hState⟩
      | crashed => exact ⟨rfl, hState⟩
      | interrupted i => exact ⟨rfl, hState⟩
      | fault f =>
          rw [resume, resume]
          split
          · exact ⟨rfl, (hState.record rfl rfl).record rfl rfl⟩
          · exact ⟨rfl, hState.reported f⟩

/-- A quiet run goes the same way from machines that match. -/
theorem runAll_matches (h : run.IsQuiet) (h' : run'.IsQuiet) (hHorizon : run'.horizon = run.horizon)
    (ss : List Stmt) {m n : Machine} (hMatches : Matches m n) :
    (runAll run ss m).1 = (runAll run' ss n).1 ∧
      Matches (runAll run ss m).2 (runAll run' ss n).2 := by
  induction ss generalizing m n with
  | nil => exact ⟨rfl, hMatches⟩
  | cons s ss ih =>
      obtain ⟨hResult, hMatches⟩ := runAll_singleton_matches h h' hHorizon s hMatches
      rw [runAll_cons, runAll_cons run' s]
      generalize runAll run [s] m = first, runAll run' [s] n = first' at hResult hMatches
      cases hError : first.1.error with
      | some error =>
          rw [followedBy_of_some hError, followedBy_of_some (hResult ▸ hError)]
          exact ⟨hResult, hMatches⟩
      | none =>
          obtain ⟨hRest, hMatches⟩ := ih hMatches
          rw [followedBy_of_none hError, followedBy_of_none (hResult ▸ hError), hResult, hRest]
          exact ⟨rfl, hMatches⟩

/-- A quiet run that terminates is not ended early. -/
theorem error_of_isQuiet (h : run.IsQuiet) {ss : List Stmt} {m : Machine}
    (hEnds : (runAll run ss m).1.Terminates) : (runAll run ss m).1.error = none := by
  by_contra hError
  obtain ⟨error, hError⟩ := Option.ne_none_iff_exists'.mp hError
  obtain ⟨before, s, later, _, _, hLast⟩ := exists_endsAt hError
  rw [RunResult.Terminates, hError] at hEnds
  have hAttempted := attempted run s (runAll run before m).2
  generalize runAll run [s] (runAll run before m).2 = ended at hLast hAttempted
  cases hAttempted with
  | interruptedBefore hPoll =>
      rw [poll_of_isQuiet h] at hPoll
      cases hPoll
  | completed => cases hLast
  | failed => cases hLast
  | crashed =>
      cases hLast
      exact hEnds.1 rfl
  | unfinished =>
      cases hLast
      exact hEnds.2 rfl
  | exhausted _ hRan hCode =>
      rcases (s.isLawful_exec.stops _ _ _ hRan).of_isQuiet h with (hStop | hStop) | ⟨f, hOther, hStop⟩
      · cases hStop
      · cases hStop
      · cases hStop
        exact absurd hCode hOther
  | interrupted _ hRan =>
      rcases (s.isLawful_exec.stops _ _ _ hRan).of_isQuiet h with (hStop | hStop) | ⟨f, _, hStop⟩ <;>
        cases hStop

end Machine
end Lox
