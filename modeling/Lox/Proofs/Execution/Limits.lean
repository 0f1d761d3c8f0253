import Lox.Proofs.Execution.Journal

/-! Runs under two limits on iterations. The one with the tighter limit goes as the other does, as long
as its limit lasts. -/
namespace Lox

/-- A statement gives up unfinished, or with its limit exceeded once that many iterations are counted. -/
def Stop.GivesUp (limit : Int) (stop : Stop) (iterations : Nat) : Prop :=
  stop = .unfinished ∨ (∃ keyword, stop = .fault ⟨.iterations limit, keyword⟩) ∧ limit ≤ iterations

/-- A statement stops for a reason that has nothing to do with the budget. -/
def Stop.IsOwn (stop : Stop) : Prop := stop ≠ .unfinished ∧ ∀ f, stop = .fault f → f.code ≠ .budget

def Run.withLimit (run : Run) (limit : Int64) : Run :=
  { run with budget := { run.budget with maxIterations := limit } }

/-- A run under a tighter limit lags behind. -/
theorem Run.trails_withLimit {run : Run} {limit : Int64} (hLimit : 0 < run.budget.maxIterations)
    (hMore : run.budget.maxIterations ≤ limit ∨ limit ≤ 0) (hTime : ¬ 0 < run.budget.timeout) :
    run.Trails (Stop.GivesUp run.budget.maxIterations.toInt) Stop.IsOwn (run.withLimit limit) where
  host := rfl
  timeout := rfl
  start := rfl
  horizon := Nat.le_refl _
  unfinished _ := Or.inl rfl
  interrupted _ := ⟨Stop.noConfusion, fun _ h => Stop.noConfusion h⟩
  crashed := ⟨Stop.noConfusion, fun _ h => Stop.noConfusion h⟩
  fault f hCode := ⟨Stop.noConfusion, fun _ hFault => Stop.fault.inj hFault ▸ hCode⟩
  time h := absurd h hTime
  count keyword := by
    have hGrows (run' : Run) : Moves Machine.Grows (Action.countIteration run' keyword) :=
      (Action.keeps_countIteration keyword : Action.Keeps [] [] _).grows
    refine ⟨fun m => ?_, hGrows _⟩
    have hFurther := hGrows (run.withLimit limit) m
    generalize hLarge : Action.countIteration (run.withLimit limit) keyword m = large at hFurther
    rw [Action.countIteration] at hLarge ⊢
    by_cases hSpent : run.budget.maxIterations.toInt ≤ m.iterations
    · rw [if_pos ⟨hLimit, hSpent⟩]
      exact .gaveUp (Or.inr ⟨⟨keyword, rfl⟩, hSpent⟩) hFurther
    · have hLeft : ¬ (0 < limit ∧ limit.toInt ≤ m.iterations) := by
        rintro ⟨hPositive, hReached⟩
        rcases hMore with hMore | hNone
        · exact hSpent (Int.le_trans (Int64.le_iff_toInt_le.mp hMore) hReached)
        · exact Int64.not_lt.mpr hNone hPositive
      rw [← hLarge, if_neg fun h => hSpent h.2]
      exact (if_neg hLeft).symm ▸ .ok

namespace Machine

/-- What a run leads to that began after some diagnostics, in reverse order, on a machine. -/
structure Leads (diagnostics : List Diagnostic) (m : Machine) (ended : RunResult × Machine) : Prop where
  diagnostics : diagnostics.reverse <+: ended.1.diagnostics
  grows : Grows m ended.2

theorem prefix_reverse_cons (d : Diagnostic) (diagnostics : List Diagnostic) :
    diagnostics.reverse <+: (d :: diagnostics).reverse := by
  rw [List.reverse_cons]
  exact List.prefix_append _ _

/-- What comes after a statement keeps what was found before it. -/
theorem leads_resume {next : Nat → List Diagnostic → Machine → RunResult × Machine}
    (hNext : ∀ executed diagnostics m, Leads diagnostics m (next executed diagnostics m))
    (executed : Nat) (diagnostics : List Diagnostic) (ran : EStateM.Result Stop Machine Unit) :
    Leads diagnostics (finalState ran) (resume next executed diagnostics ran) := by
  have hRecord {m : Machine} {e : Event} (h : e.output? = none) : Grows m (m.record e) := m.grows_record h
  cases ran with
  | ok a m => exact hNext _ _ m
  | error stop m =>
      cases stop with
      | unfinished => exact ⟨List.prefix_rfl, refl m⟩
      | crashed => exact ⟨List.prefix_rfl, refl m⟩
      | interrupted i => exact ⟨List.prefix_rfl, refl m⟩
      | fault f =>
          rw [resume]
          split
          next =>
            exact ⟨prefix_reverse_cons _ _, IsTrans.trans _ _ _ (hRecord rfl) (hRecord rfl)⟩
          next =>
            have hReported : Grows m (m.reported f) :=
              IsTrans.trans _ _ _ (hRecord rfl) (IsTrans.trans _ _ _ (hRecord rfl) (hRecord rfl))
            have hRest := hNext executed (f.diagnostic :: diagnostics) (m.reported f)
            exact ⟨(prefix_reverse_cons _ _).trans hRest.diagnostics,
              IsTrans.trans _ _ _ hReported hRest.grows⟩

/-- A run only adds to what it has found and done. -/
theorem leads_runFrom (run : Run) (ss : List Stmt) (executed : Nat) (diagnostics : List Diagnostic)
    (m : Machine) : Leads diagnostics m (runFrom run executed diagnostics ss m) := by
  induction ss generalizing executed diagnostics m with
  | nil => exact ⟨List.prefix_rfl, refl m⟩
  | cons s ss ih =>
      rw [runFrom_cons]
      have hPolled : Grows m (m.poll run).2 := (follows_poll run m : Follows [] [] m _).grows
      generalize m.poll run = polled at hPolled
      obtain ⟨answer, m'⟩ := polled
      cases answer with
      | some i => exact ⟨List.prefix_rfl, hPolled⟩
      | none =>
          have hRan : Moves Grows (s.exec run) := s.keeps_exec.grows
          have hRest := leads_resume ih executed diagnostics (s.exec run m')
          exact ⟨hRest.diagnostics, IsTrans.trans _ _ _ hPolled (IsTrans.trans _ _ _ (hRan m') hRest.grows)⟩

/-- How a run under a limit ends, and the same run under a looser one or none: alike, if it does not end
for its budget; and if it does, the other one has found and done at least as much. -/
inductive Outrun (limit : Int) : RunResult × Machine → RunResult × Machine → Prop
  | same {ended} (hOwn : ∀ f, ended.1.error ≠ some (.budget f)) : Outrun limit ended ended
  | unfinished {ended other} (hError : ended.1.error = some .unfinished) : Outrun limit ended other
  | exhausted {ended other f} (hError : ended.1.error = some (.budget f))
      (hDiagnostics : ended.1.diagnostics.dropLast <+: other.1.diagnostics)
      (hGrows : Grows ended.2 other.2) (hSpent : limit ≤ ended.2.iterations) : Outrun limit ended other

/-- A run that goes on has outrun one whose budget ended it. -/
theorem outrun_of_budget {f : Fault} (hCode : f.code = .budget) {limit : Int} {m : Machine}
    (hSpent : limit ≤ m.iterations) {diagnostics : List Diagnostic} {other : RunResult × Machine}
    (h : Leads diagnostics m other)
    {next : Nat → List Diagnostic → Machine → RunResult × Machine} {executed : Nat} :
    Outrun limit (resume next executed diagnostics (.error (.fault f) m)) other := by
  rw [resume, if_pos hCode]
  refine .exhausted rfl ?_ ?_ hSpent
  · rw [List.reverse_cons, List.dropLast_concat]
    exact h.diagnostics
  · refine IsTrans.trans _ _ _ (grows_of_record _ rfl) ?_
    exact IsTrans.trans _ _ _ (grows_of_record _ rfl) h.grows

/-- A run outruns the same run under a tighter limit on iterations. -/
theorem outrun_runFrom {run : Run} {limit : Int64} (hLimit : 0 < run.budget.maxIterations)
    (hMore : run.budget.maxIterations ≤ limit ∨ limit ≤ 0) (hTime : ¬ 0 < run.budget.timeout)
    (ss : List Stmt) (executed : Nat) (diagnostics : List Diagnostic) (m : Machine) :
    Outrun run.budget.maxIterations.toInt (runFrom run executed diagnostics ss m)
      (runFrom (run.withLimit limit) executed diagnostics ss m) := by
  have hTrails := Run.trails_withLimit hLimit hMore hTime
  induction ss generalizing executed diagnostics m with
  | nil => exact .same (by simp [runFrom])
  | cons s ss ih =>
      rw [runFrom_cons, runFrom_cons, hTrails.poll]
      generalize m.poll run = polled
      obtain ⟨answer, m⟩ := polled
      cases answer with
      | some i => exact .same (by simp)
      | none =>
          have hLag := (Stmt.lagsBehind_exec hTrails s).lag m
          simp only
          generalize s.exec run m = ran, s.exec (run.withLimit limit) m = ran' at hLag
          cases hLag with
          | ok => exact ih _ _ _
          | @error stop n hOwn =>
              cases stop with
              | unfinished => exact absurd rfl hOwn.1
              | crashed =>
                  rw [resume, resume]
                  exact .same (by simp)
              | interrupted i =>
                  rw [resume, resume]
                  exact .same (by simp)
              | fault f =>
                  rw [resume, resume, if_neg (hOwn.2 f rfl), if_neg (hOwn.2 f rfl)]
                  exact ih _ _ _
          | @gaveUp stop n _ hGave hFurther =>
              -- the statement was followed no further, or its iterations are spent
              rcases hGave with rfl | ⟨⟨keyword, rfl⟩, hSpent⟩
              · exact .unfinished rfl
              · have hRest := leads_resume (leads_runFrom (run.withLimit limit) ss) executed diagnostics ran'
                exact outrun_of_budget rfl hSpent
                  ⟨hRest.diagnostics, IsTrans.trans _ _ _ hFurther hRest.grows⟩

/-- The summary at the end of a run changes nothing about which run got further. -/
theorem Outrun.concluded {limit : Int} {ended other : RunResult × Machine} (h : Outrun limit ended other)
    (runId : Text) : Outrun limit (concluded runId ended) (concluded runId other) := by
  cases h with
  | same hOwn => exact .same hOwn
  | unfinished hError => exact .unfinished hError
  | exhausted hError hDiagnostics hGrows hSpent =>
      refine .exhausted hError hDiagnostics ?_ hSpent
      have hBefore : Grows (Machine.concluded runId ended).2 ended.2 :=
        IsTrans.trans _ _ _ (grows_of_record _ rfl) (grows_of_record _ rfl)
      have hAfter : Grows other.2 (Machine.concluded runId other).2 :=
        IsTrans.trans _ _ _ (grows_record _ rfl) (grows_record _ rfl)
      exact IsTrans.trans _ _ _ hBefore (IsTrans.trans _ _ _ hGrows hAfter)

/-- A limit on iterations that a run stays within is not noticed. Whatever the surroundings, if there is
no time limit: a run that does not end for its budget goes just as it does under a looser limit, or
under none if it ends then. One that does has written nothing and reported nothing, apart from its last
diagnostic, that the other does not begin with; and the other enters at least as many bodies as the
limit allows. -/
theorem execute_of_looser_limit (host : Host) (budget : Budget) (limit : Int64) (runId : Text)
    (p : Program) (m : Machine) (hLimit : 0 < budget.maxIterations)
    (hMore : budget.maxIterations ≤ limit ∨ limit ≤ 0) (hTime : ¬ 0 < budget.timeout)
    {horizon horizon' : Nat} (hHorizon : budget.maxIterations.toInt < horizon)
    (hEnds : (execute host { budget with maxIterations := limit } runId horizon' p m).1.error ≠
      some .unfinished) :
    let tight := execute host budget runId horizon p m
    let loose := execute host { budget with maxIterations := limit } runId horizon' p m
    ((∀ f, tight.1.error ≠ some (.budget f)) → loose = tight) ∧
      ∀ f, tight.1.error = some (.budget f) →
        tight.2.outputs <+: loose.2.outputs ∧
          tight.1.diagnostics.dropLast <+: loose.1.diagnostics ∧
          budget.maxIterations.toInt ≤
            (journal host { budget with maxIterations := limit } runId horizon' p m).count .entered := by
  intro tight loose
  have hFinished : tight.1.error ≠ some .unfinished := execute_finished hLimit hHorizon
  -- both runs are finished, so they may be compared at one horizon
  have hTight : execute host budget runId (max horizon horizon') p m = tight :=
    execute_of_horizon_le (Nat.le_max_left _ _) hFinished
  have hLoose : execute host { budget with maxIterations := limit } runId (max horizon horizon') p m =
      loose :=
    execute_of_horizon_le (Nat.le_max_right _ _) hEnds
  have hOutrun : Outrun budget.maxIterations.toInt tight loose := by
    rw [← hTight, ← hLoose, execute_eq, execute_eq]
    exact (@outrun_runFrom ⟨host, budget, runId, max horizon horizon', m.progress⟩ limit hLimit
      hMore hTime p.statements 0 [] (m.begun runId p)).concluded runId
  have hCounted : loose.2.iterations = _ :=
    (account_execute host { budget with maxIterations := limit } runId horizon' p m).counted
  rw [Nat.zero_add] at hCounted
  rw [← hCounted]
  clear_value tight loose
  cases hOutrun with
  | same hOwn => exact ⟨fun _ => rfl, fun f hError => absurd hError (hOwn f)⟩
  | unfinished hError => exact absurd hError hFinished
  | exhausted hError hDiagnostics hGrows hSpent =>
      refine ⟨fun hOwn => absurd hError (hOwn _), fun f _ => ⟨hGrows.outputs, hDiagnostics, ?_⟩⟩
      have hMoreSpent := hGrows.iterations
      omega

/-- The program `var x = true; var y = true; while (x) { print x; x = y; y = false; }`, which takes two
iterations, with one of them and with both. -/
theorem execute_of_looser_limit_twice :
    let word : Token := Token.read .whileWord "while" 1
    let x : Token := Token.read .identifier "x" 1
    let y : Token := Token.read .identifier "y" 1
    let value (b : Bool) : Expr := .literal (some (.bool b)) 1
    let p : Program := ⟨[.declare "x" x (some (value true)), .declare "y" y (some (value true)),
      .loop word (.name x) (.block 1
        [.print word (.name x), .expr (.assign x (.name y)), .expr (.assign y (value false))])]⟩
    let budget : Budget := ⟨1, 0⟩
    let m := Machine.initial
    0 < budget.maxIterations ∧ (budget.maxIterations ≤ 2 ∨ (2 : Int64) ≤ 0) ∧ ¬ 0 < budget.timeout ∧
      budget.maxIterations.toInt < 2 ∧
      (execute .ideal { budget with maxIterations := 2 } [] 3 p m).1.error ≠ some .unfinished ∧
      let tight := execute .ideal budget [] 2 p m
      let loose := execute .ideal { budget with maxIterations := 2 } [] 3 p m
      ((∀ f, tight.1.error ≠ some (.budget f)) → loose = tight) ∧
        ∀ f, tight.1.error = some (.budget f) →
          tight.2.outputs <+: loose.2.outputs ∧
            tight.1.diagnostics.dropLast <+: loose.1.diagnostics ∧
            budget.maxIterations.toInt ≤
              (journal .ideal { budget with maxIterations := 2 } [] 3 p m).count .entered := by
  intro word x y value p budget m
  have hEnds : (execute .ideal { budget with maxIterations := 2 } [] 3 p m).1.error ≠
      some .unfinished := by
    decide +kernel
  exact ⟨by decide, by decide, by decide, by decide, hEnds,
    execute_of_looser_limit .ideal budget 2 [] p m (by decide) (by decide) (by decide) (by decide) hEnds⟩

end Machine
end Lox
