import Lox.Proofs.Execution.Lagging

/-! A journal of the loops of a run. It notes every value of a loop's condition and every body that is
run, in the order in which they happen, and does not look at the counter that the machine keeps. The
counter is then shown to agree with it, and a limit on iterations to be a limit on the bodies. -/
namespace Lox

inductive Mark where
  /-- The condition of a loop was evaluated. -/
  | tested (holds : Bool)
  /-- The body of a loop was entered. -/
  | entered
  deriving DecidableEq, Repr

namespace Action

/-- The marks of what follows an action, if it completes. -/
def marksAfter {α : Type} (x : Action α) (marks : α → Machine → List Mark) (m : Machine) : List Mark :=
  match x m with
  | .ok a m => marks a m
  | .error _ _ => []

def testMarks (run : Run) (keyword : Token) (condition : Expr) : Machine → List Mark :=
  (checkTime run keyword).marksAfter fun _ =>
    (eval condition).marksAfter fun v _ => [.tested v.truthy]

def loopMarks (test : Action Bool) (testMarks : Machine → List Mark) (body : Action Unit)
    (bodyMarks : Machine → List Mark) : (horizon : Nat) → Machine → List Mark
  | 0, _ => []
  | n + 1, m => testMarks m ++ test.marksAfter (fun goesOn m =>
      if goesOn then .entered ::
        (bodyMarks m ++ body.marksAfter (fun _ => loopMarks test testMarks body bodyMarks n) m)
      else []) m

end Action

namespace Stmt

open Lox.Action

mutual

def marks (run : Run) (s : Stmt) : Machine → List Mark := fun m =>
  let m := m.record (.trace (.stmtStart s.line s.kindName))
  match s with
  | .expr _ => []
  | .print _ _ => []
  | .declare _ _ _ => []
  | .block line body => marksAll run body (m.enter line)
  | .branch _ condition yes none =>
    (eval condition).marksAfter (fun v m => if v.truthy then marks run yes m else []) m
  | .branch _ condition yes (some no) =>
    (eval condition).marksAfter (fun v m => if v.truthy then marks run yes m else marks run no m) m
  | .loop keyword condition body =>
    loopMarks (test run keyword condition) (testMarks run keyword condition) (exec run body)
      (marks run body) run.horizon m
termination_by structural s

def marksAll (run : Run) (body : List Stmt) : Machine → List Mark :=
  match body with
  | [] => fun _ => []
  | s :: rest => fun m => marks run s m ++ (exec run s).marksAfter (fun _ => marksAll run rest) m
termination_by structural body

end

end Stmt

namespace Machine

/-- The marks of top-level statements: of each one that is attempted, until the run ends. -/
def journalFrom (run : Run) : List Stmt → Machine → List Mark
  | [], _ => []
  | s :: rest, m =>
    match m.poll run with
    | (some _, _) => []
    | (none, m) => s.marks run m ++
      match s.exec run m with
      | .ok () m => journalFrom run rest m
      | .error (.fault f) m => if f.code = .budget then [] else journalFrom run rest (m.reported f)
      | .error _ _ => []

def journal (host : Host) (budget : Budget) (runId : Text) (horizon : Nat) (p : Program) (m : Machine) :
    List Mark :=
  journalFrom ⟨host, budget, runId, horizon, m.progress⟩ p.statements (m.begun runId p)

end Machine

/-- Some condition holds although no iteration was left, if there were `limit` after `start`. -/
def Overruns (limit : Int) (start : Nat) (marks : List Mark) : Prop :=
  ∃ before after, marks = before ++ .tested true :: after ∧ limit ≤ start + before.count .entered

/-- The account of a part of a run that begins and ends with so many iterations and may stop. -/
structure Account (run : Run) (horizon start : Nat) (marks : List Mark) (last : Nat)
    (stop : Option Stop) : Prop where
  counted : last = start + marks.count .entered
  unfinished : stop = some .unfinished → horizon ≤ marks.count .entered
  within : 0 < run.budget.maxIterations → start ≤ run.budget.maxIterations.toInt →
    last ≤ run.budget.maxIterations.toInt
  exhausted : 0 < run.budget.maxIterations →
    ((∃ keyword, stop = some (.fault ⟨.iterations run.budget.maxIterations.toInt, keyword⟩)) ↔
      Overruns run.budget.maxIterations.toInt start marks)

theorem not_overruns_nil (limit : Int) (start : Nat) : ¬ Overruns limit start [] := by
  rintro ⟨before, after, h, _⟩
  simp at h

/-- The later part of a journal counts on from the iterations entered in the earlier one. -/
theorem overruns_append {limit : Int} {start : Nat} {marks marks' : List Mark} :
    Overruns limit start (marks ++ marks') ↔
      Overruns limit start marks ∨ Overruns limit (start + marks.count .entered) marks' := by
  constructor
  · rintro ⟨before, after, hMarks, hLimit⟩
    rcases List.append_eq_append_iff.mp hMarks with ⟨more, rfl, hRest⟩ | ⟨more, rfl, hRest⟩
    · refine Or.inr ⟨more, after, hRest, ?_⟩
      rw [List.count_append] at hLimit
      omega
    · cases more with
      | nil =>
          refine Or.inr ⟨[], after, by simpa using hRest.symm, ?_⟩
          simp only [List.append_nil, List.count_nil]
          omega
      | cons mark more =>
          rw [List.cons_append, List.cons.injEq] at hRest
          exact Or.inl ⟨before, more, by rw [hRest.1], hLimit⟩
  · rintro (⟨before, after, rfl, hLimit⟩ | ⟨before, after, rfl, hLimit⟩)
    · exact ⟨before, after ++ marks', by simp, hLimit⟩
    · refine ⟨marks ++ before, after, by simp, ?_⟩
      rw [List.count_append]
      omega

theorem overruns_singleton {limit : Int} {start : Nat} {mark : Mark} :
    Overruns limit start [mark] ↔ mark = .tested true ∧ limit ≤ start := by
  constructor
  · rintro ⟨before, after, hMarks, hLimit⟩
    obtain ⟨rfl, rfl, rfl⟩ : before = [] ∧ .tested true = mark ∧ after = [] := by
      simpa [List.singleton_eq_append_iff] using hMarks
    exact ⟨rfl, by simpa using hLimit⟩
  · rintro ⟨rfl, hLimit⟩
    exact ⟨[], [], rfl, by simpa using hLimit⟩

namespace Account

variable {run : Run} {horizon start middle last : Nat} {marks marks' : List Mark}
  {stop stop' : Option Stop}

/-- Whether a statement that stopped so may be followed by others. -/
def GoesOn (stop : Option Stop) : Prop :=
  ∀ s ∈ stop, s ≠ .unfinished ∧ ∀ f, s = .fault f → ∀ limit, f.cause ≠ .iterations limit

theorem goesOn_none : GoesOn none := by simp [GoesOn]

theorem GoesOn.ne_unfinished (h : GoesOn stop) : stop ≠ some .unfinished :=
  fun hStop => (h _ hStop).1 rfl

/-- A run that goes on has not exhausted its iterations. -/
theorem GoesOn.not_exhausted (h : GoesOn stop) {limit : Int} :
    ¬ ∃ keyword, stop = some (.fault ⟨.iterations limit, keyword⟩) := by
  rintro ⟨keyword, hStop⟩
  exact (h _ hStop).2 _ rfl limit rfl

/-- A part of a run that others may follow has not overrun the limit. -/
theorem of_goesOn (h : GoesOn stop) (hCounted : last = start + marks.count .entered)
    (hWithin : 0 < run.budget.maxIterations → start ≤ run.budget.maxIterations.toInt →
      last ≤ run.budget.maxIterations.toInt)
    (hOverruns : 0 < run.budget.maxIterations → ¬ Overruns run.budget.maxIterations.toInt start marks) :
    Account run horizon start marks last stop :=
  ⟨hCounted, fun hStop => absurd hStop h.ne_unfinished, hWithin,
    fun hLimit => iff_of_false h.not_exhausted (hOverruns hLimit)⟩

/-- Nothing of the loops happened. -/
theorem silent (h : GoesOn stop) : Account run horizon start [] start stop :=
  of_goesOn h rfl (fun _ hStart => hStart) fun _ => not_overruns_nil _ _

/-- An account holds for every shorter horizon. -/
theorem mono (h : Account run horizon start marks last stop) {horizon' : Nat}
    (hHorizon : horizon' ≤ horizon) : Account run horizon' start marks last stop :=
  ⟨h.counted, fun hStop => hHorizon.trans (h.unfinished hStop), h.within, h.exhausted⟩

/-- One part of a run after another. The bodies entered in the first count towards the horizon. -/
theorem append {horizon₁ horizon₂ : Nat} (h : Account run horizon₁ start marks middle stop)
    (hOn : GoesOn stop) (h' : Account run horizon₂ middle marks' last stop')
    (hHorizon : horizon ≤ marks.count .entered + horizon₂) :
    Account run horizon start (marks ++ marks') last stop' where
  counted := by
    rw [h'.counted, h.counted, List.count_append, Nat.add_assoc]
  unfinished hStop := by
    have hSecond := h'.unfinished hStop
    rw [List.count_append]
    omega
  within hLimit hStart := h'.within hLimit (h.within hLimit hStart)
  exhausted hLimit := by
    rw [h'.exhausted hLimit, overruns_append, ← h.exhausted hLimit, h.counted]
    exact (or_iff_right hOn.not_exhausted).symm

end Account

def stop? {ε σ α : Type} : EStateM.Result ε σ α → Option ε
  | .ok _ _ => none
  | .error e _ => some e

namespace Action

open Account (GoesOn goesOn_none)

variable {run : Run} {horizon : Nat} {α β : Type}

def Accounts (run : Run) (horizon : Nat) (x : Action α) (marks : Machine → List Mark) : Prop :=
  ∀ m, Account run horizon m.iterations (marks m) (finalState (x m)).iterations (stop? (x m))

/-- The account of a sequence is the account of its parts, one after the other. -/
theorem Accounts.bind {x : Action α} {f : α → Action β} {marks : Machine → List Mark}
    {next : α → Machine → List Mark} (h : Accounts run horizon x marks)
    (hNext : ∀ a, Accounts run horizon (f a) (next a)) :
    Accounts run horizon (x >>= f) (fun m => marks m ++ x.marksAfter next m) := by
  intro m
  have hFirst := h m
  change Account run horizon m.iterations (marks m ++ x.marksAfter next m)
    (finalState (EStateM.bind x f m)).iterations (stop? (EStateM.bind x f m))
  rw [marksAfter, EStateM.bind]
  cases hx : x m with
  | error stop n =>
      rw [hx] at hFirst
      rw [List.append_nil]
      exact hFirst
  | ok a n =>
      rw [hx] at hFirst
      exact hFirst.append goesOn_none (hNext a n) (Nat.le_add_left _ _)

/-- An action that counts nothing and whose failures let the run go on. -/
structure IsSilent (x : Action α) : Prop where
  iterations : ∀ m, (finalState (x m)).iterations = m.iterations
  goesOn : ∀ m, GoesOn (stop? (x m))

/-- Nothing is noted of a silent action. -/
theorem IsSilent.accounts {x : Action α} (h : IsSilent x) :
    Accounts run horizon x (fun _ => []) := by
  intro m
  rw [h.iterations m]
  exact .silent (h.goesOn m)

/-- What is not part of any loop adds nothing to the marks. -/
theorem IsSilent.bind {x : Action α} {f : α → Action β} {next : α → Machine → List Mark}
    (h : IsSilent x) (hNext : ∀ a, Accounts run horizon (f a) (next a)) :
    Accounts run horizon (x >>= f) (x.marksAfter next) :=
  h.accounts.bind hNext

theorem IsSilent.andThen {x : Action α} {f : α → Action β} (h : IsSilent x)
    (hNext : ∀ a, IsSilent (f a)) : IsSilent (x >>= f) := by
  constructor
  · intro m
    have hFirst := h.iterations m
    change (finalState (EStateM.bind x f m)).iterations = _
    rw [EStateM.bind]
    generalize x m = ran at hFirst
    cases ran with
    | ok a n => exact ((hNext a).iterations n).trans hFirst
    | error stop n => exact hFirst
  · intro m
    have hFirst := h.goesOn m
    change GoesOn (stop? (EStateM.bind x f m))
    rw [EStateM.bind]
    generalize x m = ran at hFirst
    cases ran with
    | ok a n => exact (hNext a).goesOn n
    | error stop n => exact hFirst

theorem isSilent_modify {f : Machine → Machine} (h : ∀ m, (f m).iterations = m.iterations) :
    IsSilent (modify f : Action Unit) := ⟨h, fun _ => goesOn_none⟩

theorem isSilent_trace (t : Trace) : IsSilent (trace t) := isSilent_modify fun _ => rfl

theorem isSilent_define (name : Text) (value : Slot) :
    IsSilent (modify fun m : Machine => { m with scopes := m.scopes.define name value }) :=
  isSilent_modify fun _ => rfl

theorem isSilent_pure (a : α) : IsSilent (pure a : Action α) := ⟨fun _ => rfl, fun _ => goesOn_none⟩

theorem goesOn_fault {f : Fault} (h : ∀ limit, f.cause ≠ .iterations limit) :
    GoesOn (some (.fault f)) := by
  rintro _ ⟨⟩
  exact ⟨Stop.noConfusion, fun _ hFault => Stop.fault.inj hFault ▸ h⟩

/-- Only an exhausted budget ends the run. -/
theorem goesOn_of_code {f : Fault} (h : f.code ≠ .budget) : GoesOn (some (.fault f)) := by
  refine goesOn_fault fun limit hCause => h ?_
  rw [Fault.code, hCause]

theorem isSilent_present (v : Slot) : IsSilent (present v) := by
  cases v with
  | some v => exact isSilent_pure v
  | none =>
      refine ⟨fun _ => rfl, fun m => ?_⟩
      rintro _ ⟨⟩
      exact ⟨Stop.noConfusion, fun _ hFault => Stop.noConfusion hFault⟩

theorem isSilent_eval (e : Expr) : IsSilent (eval e) := by
  constructor
  · intro m
    rw [eval, ofEvaluation]
    cases e.eval m.scopes <;> rfl
  · intro m
    cases hEval : eval e m with
    | ok v n => exact goesOn_none
    | error stop n =>
        obtain ⟨f, hCode, rfl⟩ := stop_of_eval hEval
        exact goesOn_of_code hCode

/-- A write counts no iteration, and one that fails lets the run go on. -/
theorem isSilent_write (keyword : Token) (text : Text) : IsSilent (write run keyword text) := by
  constructor
  · intro m
    rw [write]
    cases run.host.refusal m.progress.attempts <;> rfl
  · intro m
    cases hWrite : write run keyword text m with
    | ok v n => exact goesOn_none
    | error stop n =>
        obtain ⟨f, hCode, rfl⟩ := stop_of_write hWrite
        exact goesOn_of_code hCode

theorem isSilent_checkTime (keyword : Token) : IsSilent (checkTime run keyword) := by
  constructor
  · intro m
    rw [checkTime, Machine.poll]
    cases run.host.interrupt run.budget.timeout run.start m.progress with
    | none => rfl
    | some i =>
        simp only
        split <;> rfl
  · intro m
    cases hTime : checkTime run keyword m with
    | ok v n => exact goesOn_none
    | error stop n =>
        rcases stop_of_checkTime hTime with ⟨i, rfl⟩ | ⟨_, rfl⟩
        · simp [stop?, GoesOn]
        · exact goesOn_fault (by simp)

def IsSpent (run : Run) (m : Machine) : Prop :=
  0 < run.budget.maxIterations ∧ run.budget.maxIterations.toInt ≤ m.iterations

inductive Tests (run : Run) (keyword : Token) (m : Machine) :
    List Mark → EStateM.Result Stop Machine Bool → Prop
  /-- It stops before the condition has a value. -/
  | stops {stop n} (hOn : GoesOn (some stop)) (hCount : n.iterations = m.iterations) :
      Tests run keyword m [] (.error stop n)
  | fails {n} (hCount : n.iterations = m.iterations) : Tests run keyword m [.tested false] (.ok false n)
  | holds {n} (hLeft : ¬ IsSpent run m) (hCount : n.iterations = m.iterations + 1) :
      Tests run keyword m [.tested true] (.ok true n)
  /-- The condition holds, but no iteration is left. -/
  | exceeds {n} (hSpent : IsSpent run m) (hCount : n.iterations = m.iterations) :
      Tests run keyword m [.tested true]
        (.error (.fault ⟨.iterations run.budget.maxIterations.toInt, keyword⟩) n)

/-- What a test comes to, and what the journal notes of it. -/
theorem tests_test (keyword : Token) (condition : Expr) (m : Machine) :
    Tests run keyword m (testMarks run keyword condition m) (test run keyword condition m) := by
  have hTime : IsSilent (checkTime run keyword) := isSilent_checkTime keyword
  have hCount := hTime.iterations m
  have hOn := hTime.goesOn m
  simp only [testMarks, marksAfter, test, bind, EStateM.bind]
  generalize checkTime run keyword m = checked at hCount hOn
  cases checked with
  | error stop n => exact .stops hOn hCount
  | ok a n =>
      have hCount' := ((isSilent_eval condition).iterations n).trans hCount
      have hOn' := (isSilent_eval condition).goesOn n
      simp only
      generalize eval condition n = evaluated at hCount' hOn'
      cases evaluated with
      | error stop k => exact .stops hOn' hCount'
      | ok v k =>
          have hSame : k.iterations = m.iterations := hCount'
          simp only
          generalize v.truthy = holds
          cases holds with
          | false => exact .fails hSame
          | true =>
              change Tests run keyword m _ (EStateM.bind (countIteration run keyword) (fun _ => pure true) k)
              rw [EStateM.bind, countIteration, hSame]
              split_ifs with hSpent
              · exact .exceeds hSpent hSame
              · exact .holds hSpent rfl

def entering : EStateM.Result Stop Machine Bool → List Mark
  | .ok true _ => [.entered]
  | _ => []

/-- One test of a loop, and the body entered if it goes on. -/
theorem Tests.account {keyword : Token} {m : Machine} {marks : List Mark}
    {tested : EStateM.Result Stop Machine Bool} (h : Tests run keyword m marks tested) :
    Account run horizon m.iterations (marks ++ entering tested)
      (finalState tested).iterations (stop? tested) := by
  cases h with
  | stops hOn hCount =>
      rw [finalState, hCount]
      exact .silent hOn
  | fails hCount =>
      rw [finalState, hCount]
      refine .of_goesOn goesOn_none rfl (fun _ h => h) fun _ => ?_
      simp [entering, overruns_singleton]
  | holds hLeft hCount =>
      rw [finalState, hCount]
      refine .of_goesOn goesOn_none rfl (fun hLimit _ => ?_) fun hLimit => ?_
      · have hRoom : ¬ run.budget.maxIterations.toInt ≤ m.iterations := fun h => hLeft ⟨hLimit, h⟩
        omega
      · rw [entering, overruns_append, overruns_singleton, overruns_singleton]
        rintro (⟨_, hSpent⟩ | ⟨hMark, _⟩)
        · exact hLeft ⟨hLimit, hSpent⟩
        · cases hMark
  | exceeds hSpent hCount =>
      rw [finalState, hCount]
      refine ⟨rfl, by simp [stop?], fun _ h => h, fun _ => iff_of_true ⟨keyword, rfl⟩ ?_⟩
      exact overruns_singleton.mpr ⟨rfl, hSpent.2⟩

/-- The account of a loop is that of its tests and of the bodies that it enters. -/
theorem Accounts.repeatWhile {keyword : Token} {test : Action Bool} {body : Action Unit}
    {testMarks bodyMarks : Machine → List Mark}
    (hTest : ∀ m, Tests run keyword m (testMarks m) (test m))
    (hBody : Accounts run horizon body bodyMarks) {n : Nat} (hHorizon : n ≤ horizon) :
    Accounts run n (repeatWhile test body n) (loopMarks test testMarks body bodyMarks n) := by
  induction n with
  | zero =>
      intro m
      have hStop : stop? (Action.repeatWhile test body 0 m) = some .unfinished := rfl
      rw [hStop]
      exact ⟨rfl, fun _ => Nat.zero_le _, fun _ h => h,
        fun _ => iff_of_false (by simp) (not_overruns_nil _ _)⟩
  | succ n ih =>
      intro m
      have hFirst : Account run (n + 1) _ _ _ _ := (hTest m).account
      simp only [loopMarks, marksAfter, Action.repeatWhile]
      generalize test m = tested at hFirst
      cases tested with
      | error stop m' => exact hFirst
      | ok goesOn m' =>
          cases goesOn with
          | false => exact hFirst
          | true =>
              have hSecond := hBody m'
              simp only [↓reduceIte]
              -- the body that is entered makes up for the horizon, which is nearer by one from here on
              rw [← List.singleton_append, ← List.append_assoc]
              refine hFirst.append goesOn_none (?_ : Account run n _ _ _ _) ?_
              · generalize body m' = ran at hSecond
                cases ran with
                | error stop m'' =>
                    rw [List.append_nil]
                    exact hSecond.mono (by omega)
                | ok a m'' =>
                    exact hSecond.append goesOn_none (ih (by omega) m'') (Nat.le_add_left _ _)
              · rw [entering, List.count_append, List.count_singleton_self]
                omega

/-- A scope adds nothing to the account of its body. -/
theorem Accounts.inScope {body : Action Unit} {marks : Machine → List Mark}
    (h : Accounts run horizon body marks) (line : Int) :
    Accounts run horizon (inScope line body) (fun m => marks (m.enter line)) := by
  intro m
  have hBody := h (m.enter line)
  rw [Action.inScope]
  cases hRan : body (m.enter line) with
  | ok a n =>
      rw [hRan] at hBody
      exact hBody
  | error stop n =>
      rw [hRan] at hBody
      exact hBody

theorem Accounts.traced {body : Action Unit} {marks : Machine → List Mark}
    (h : Accounts run horizon body marks) (line : Int) (kind : String) :
    Accounts run horizon (traced line kind body)
      (fun m => marks (m.record (.trace (.stmtStart line kind)))) := by
  intro m
  have hBody := h (m.record (.trace (.stmtStart line kind)))
  rw [traced_apply]
  cases hRan : body (m.record (.trace (.stmtStart line kind))) with
  | ok a n =>
      rw [hRan] at hBody
      exact hBody
  | error stop n =>
      rw [hRan] at hBody
      exact hBody

end Action

namespace Stmt

open Lox.Action

variable {run : Run}

mutual

/-- The marks of a statement are an account of it. -/
theorem accounts_exec : (s : Stmt) → Accounts run run.horizon (s.exec run) (s.marks run)
  | .expr e => by
      rw [exec]
      exact Accounts.traced ((isSilent_eval e).andThen fun _ => isSilent_pure ()).accounts _ _
  | .print keyword e => by
      rw [exec]
      refine Accounts.traced (IsSilent.accounts ?_) _ _
      refine (isSilent_eval e).andThen fun v => (isSilent_present v).andThen fun _ => ?_
      exact (isSilent_write keyword _).andThen fun _ => isSilent_trace _
  | .declare name token none => by
      rw [exec]
      exact Accounts.traced (isSilent_define name _).accounts _ _
  | .declare name token (some e) => by
      rw [exec]
      exact Accounts.traced ((isSilent_eval e).andThen fun v => isSilent_define name v).accounts _ _
  | .block line body => by
      rw [exec]
      exact Accounts.traced ((accounts_execAll body).inScope line) _ _
  | .branch keyword condition yes none => by
      rw [exec]
      refine Accounts.traced ((isSilent_eval condition).bind fun v => ?_) _ _
      cases v.truthy with
      | true => exact accounts_exec yes
      | false => exact (isSilent_pure ()).accounts
  | .branch keyword condition yes (some no) => by
      rw [exec]
      refine Accounts.traced ((isSilent_eval condition).bind fun v => ?_) _ _
      cases v.truthy with
      | true => exact accounts_exec yes
      | false => exact accounts_exec no
  | .loop keyword condition body => by
      rw [exec]
      refine Accounts.traced ?_ _ _
      exact Accounts.repeatWhile (tests_test keyword condition) (accounts_exec body) (Nat.le_refl _)

/-- The account of statements in a row. -/
theorem accounts_execAll :
    (ss : List Stmt) → Accounts run run.horizon (execAll run ss) (marksAll run ss)
  | [] => by
      rw [execAll, marksAll]
      exact (isSilent_pure ()).accounts
  | s :: ss => by
      rw [execAll, marksAll]
      exact (accounts_exec s).bind fun _ => accounts_execAll ss

end

end Stmt

def RunError.stop : RunError → Stop
  | .budget f => .fault f
  | .interruptedBefore _ i => .interrupted i
  | .interrupted i => .interrupted i
  | .crashed => .crashed
  | .unfinished => .unfinished

theorem Budget.limit_nonneg {budget : Budget} (h : 0 < budget.maxIterations) :
    0 ≤ budget.maxIterations.toInt :=
  Int.le_of_lt (Int64.lt_iff_toInt_lt.mp h)

namespace Machine

open Account (goesOn_none)

/-- The journal of a run is an account of it. -/
theorem account_runFrom (run : Run) (executed : Nat) (diagnostics : List Diagnostic) (ss : List Stmt)
    (m : Machine) :
    Account run run.horizon m.iterations (journalFrom run ss m)
      (runFrom run executed diagnostics ss m).2.iterations
      ((runFrom run executed diagnostics ss m).1.error.map RunError.stop) := by
  induction ss generalizing executed diagnostics m with
  | nil => exact .silent goesOn_none
  | cons s ss ih =>
      rw [journalFrom, runFrom_cons]
      have hPolled : (m.poll run).2.iterations = m.iterations := rfl
      generalize m.poll run = polled at hPolled
      obtain ⟨answer, m'⟩ := polled
      simp only at hPolled
      rw [← hPolled]
      cases answer with
      | some i => exact .silent (by simp [RunError.stop, Account.GoesOn])
      | none =>
          have hFirst : Account run run.horizon m'.iterations (s.marks run m') _ _ := s.accounts_exec m'
          simp only
          generalize s.exec run m' = ran at hFirst
          cases ran with
          | ok a n =>
              exact hFirst.append goesOn_none (ih _ _ n) (Nat.le_add_left _ _)
          | error stop n =>
              cases stop with
              | unfinished =>
                  rw [List.append_nil]
                  exact hFirst
              | crashed =>
                  rw [List.append_nil]
                  exact hFirst
              | interrupted i =>
                  rw [List.append_nil]
                  exact hFirst
              | fault f =>
                  simp only [resume]
                  by_cases hCode : f.code = .budget
                  · rw [if_pos hCode, if_pos hCode, List.append_nil]
                    exact hFirst
                  · -- a statement that fails for another reason has spent its iterations all the same
                    rw [if_neg hCode, if_neg hCode]
                    exact hFirst.append (Action.goesOn_of_code hCode) (ih _ _ (n.reported f))
                      (Nat.le_add_left _ _)

variable {host : Host} {budget : Budget} {runId : Text} {horizon : Nat} {p : Program} {m : Machine}

/-- The journal of a program is an account of its run. -/
theorem account_execute (host : Host) (budget : Budget) (runId : Text) (horizon : Nat) (p : Program)
    (m : Machine) :
    Account ⟨host, budget, runId, horizon, m.progress⟩ horizon 0 (journal host budget runId horizon p m)
      (execute host budget runId horizon p m).2.iterations
      ((execute host budget runId horizon p m).1.error.map RunError.stop) :=
  account_runFrom ⟨host, budget, runId, horizon, m.progress⟩ 0 [] p.statements (m.begun runId p)

/-- Only an exhausted budget reads as the stop of a statement that ran out of iterations. -/
theorem exhausted_iff {result : RunResult} {limit : Int} :
    (∃ keyword, result.error.map RunError.stop = some (.fault ⟨.iterations limit, keyword⟩)) ↔
      ∃ keyword, result.error = some (.budget ⟨.iterations limit, keyword⟩) := by
  refine exists_congr fun keyword => ?_
  cases result.error with
  | none => simp
  | some error => cases error <;> simp [RunError.stop]

/-- A limit on iterations ends every run, whatever the surroundings. -/
theorem execute_finished (hLimit : 0 < budget.maxIterations)
    (hHorizon : budget.maxIterations.toInt < horizon) :
    (execute host budget runId horizon p m).1.error ≠ some .unfinished := by
  intro hStop
  have hAccount := account_execute host budget runId horizon p m
  have hCounted := hAccount.counted
  have hEntered := hAccount.unfinished (by rw [hStop]; rfl)
  have hWithin := hAccount.within hLimit (Budget.limit_nonneg hLimit)
  simp only at hWithin
  omega

/-- A limit on iterations bounds and ends every run, whatever the surroundings and wherever it starts
from: it is finished at every horizon beyond the limit, and the same at all of them; no more loop
bodies are entered than the limit allows; and it ends with the limit exceeded if and only if some
condition is found to hold once that many bodies have been entered. What was counted before the run
makes no difference. -/
theorem execute_of_limit (host : Host) (budget : Budget) (runId : Text) (p : Program) (m : Machine)
    (hLimit : 0 < budget.maxIterations) :
    ∃ result last, result.error ≠ some .unfinished ∧
      ∀ horizon : Nat, budget.maxIterations.toInt < horizon →
        let marks := journal host budget runId horizon p m
        execute host budget runId horizon p m = (result, last) ∧
          marks.count .entered ≤ budget.maxIterations.toInt ∧
          last.iterations = marks.count .entered ∧
          ((∃ keyword, result.error =
              some (.budget ⟨.iterations budget.maxIterations.toInt, keyword⟩)) ↔
            ∃ before after, marks = before ++ .tested true :: after ∧
              before.count .entered = budget.maxIterations.toInt) ∧
          ∀ k, execute host budget runId horizon p { m with iterations := k } = (result, last) := by
  have hNonneg := Budget.limit_nonneg hLimit
  -- every run is finished at this horizon, and so the same at each further one
  let nearest := budget.maxIterations.toInt.toNat + 1
  have hFinished := @execute_finished host budget runId nearest p m hLimit (by omega)
  obtain ⟨⟨result, last⟩, hEnds⟩ : ∃ ended, execute host budget runId nearest p m = ended := ⟨_, rfl⟩
  refine ⟨result, last, by rwa [hEnds] at hFinished, fun horizon hHorizon => ?_⟩
  have hSame : execute host budget runId horizon p m = (result, last) := by
    rw [← hEnds]
    exact execute_of_horizon_le (by omega) hFinished
  have hAccount := account_execute host budget runId horizon p m
  rw [hSame] at hAccount
  have hCounted := hAccount.counted.trans (Nat.zero_add _)
  have hWithin : _ ≤ budget.maxIterations.toInt := hAccount.within hLimit hNonneg
  rw [hCounted] at hWithin
  refine ⟨hSame, hWithin, hCounted, ?_, fun k => hSame⟩
  rw [← exhausted_iff, hAccount.exhausted hLimit]
  constructor
  · rintro ⟨before, after, hMarks, hSpent⟩
    refine ⟨before, after, hMarks, ?_⟩
    rw [hMarks, List.count_append] at hWithin
    simp only at hSpent
    omega
  · rintro ⟨before, after, hMarks, hSpent⟩
    exact ⟨before, after, hMarks, by simp only; omega⟩

/-- The program `while (true) while (false) { }` with two iterations, of which the outer loop takes
both. -/
theorem execute_of_limit_nested :
    let word : Token := Token.read .whileWord "while" 1
    let value (b : Bool) : Expr := .literal (some (.bool b)) 1
    let p : Program := ⟨[.loop word (value true) (.loop word (value false) (.block 1 []))]⟩
    let budget : Budget := ⟨2, 0⟩
    let m := Machine.initial
    0 < budget.maxIterations ∧
      ∃ result last, result.error ≠ some .unfinished ∧
        ∀ horizon : Nat, budget.maxIterations.toInt < horizon →
          let marks := journal .ideal budget [] horizon p m
          execute .ideal budget [] horizon p m = (result, last) ∧
            marks.count .entered ≤ budget.maxIterations.toInt ∧
            last.iterations = marks.count .entered ∧
            ((∃ keyword, result.error =
                some (.budget ⟨.iterations budget.maxIterations.toInt, keyword⟩)) ↔
              ∃ before after, marks = before ++ .tested true :: after ∧
                before.count .entered = budget.maxIterations.toInt) ∧
            ∀ k, execute .ideal budget [] horizon p { m with iterations := k } = (result, last) := by
  intro word value p budget m
  exact ⟨by decide, execute_of_limit .ideal budget [] p m (by decide)⟩

end Machine
end Lox
