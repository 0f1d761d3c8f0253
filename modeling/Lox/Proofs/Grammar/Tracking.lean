import Mathlib
import Lox.Program.StmtReader
import Lox.Proofs.Rewriting

/-! How readers go along their tokens. Whatever a reader makes of them, it leaves the last ones
untouched, it blames the token at which it stopped or the one just before, and it does not look at
lines. -/
namespace Lox

def Token.relined (f : Int → Int) (t : Token) : Token := { t with line := f t.line }

@[simp] theorem Token.kind_relined (f : Int → Int) (t : Token) : (t.relined f).kind = t.kind := rfl

def Problem.relined (f : Int → Int) (p : Problem) : Problem :=
  ⟨p.complaint, p.token.map (Token.relined f)⟩

def Rewriting.relined (f : Int → Int) : Rewriting where
  token := Token.relined f
  loopWord := Token.relined f
  line := f
  literal value line := .literal value (f line)

namespace Reading

/-- Where a problem is blamed that was found in `ts` with `rest` left over: at the first token of
`rest`, or at the one just before. -/
def Blames (ts : List Token) (problem : Problem) (rest : List Token) : Prop :=
  ∃ blamed, blamed <:+ ts ∧ problem.token = blamed.head? ∧
    (rest = blamed ∨ ∃ t, blamed = t :: rest)

/-- A reading of `ts`, and one of the same tokens on other lines: the same phrase or problem, up to
lines, with the same tokens left over, which are the last ones of `ts`. -/
inductive Tracks {α : Type} {m n : Nat} (f : Int → Int) (g : α → α) (ts : List Token) :
    Reading α m → Reading α n → Prop
  | done {a a' : α} {rest rest' : List Token} {fewer : rest.length < m} {fewer' : rest'.length < n}
      (hPhrase : a' = g a) (hMoved : rest' = rest.map (Token.relined f)) (hRest : rest <:+ ts) :
      Tracks f g ts (.done a rest fewer) (.done a' rest' fewer')
  | failed {problem problem' : Problem} {rest rest' : List Token} {atMost : rest.length ≤ m}
      {atMost' : rest'.length ≤ n} (hProblem : problem' = problem.relined f)
      (hMoved : rest' = rest.map (Token.relined f)) (hBlames : Blames ts problem rest) :
      Tracks f g ts (.failed problem rest atMost) (.failed problem' rest' atMost')

variable {f : Int → Int} {α β : Type} {m n : Nat} {g : α → α} {g' : β → β} {ts ts' : List Token}
  {r : Reading α m} {r' : Reading α n}

/-- What is left over after a problem stands at the end of the tokens. -/
theorem Blames.suffix {problem : Problem} {rest : List Token} (h : Blames ts problem rest) :
    rest <:+ ts := by
  obtain ⟨blamed, hBlamed, _, rfl | ⟨t, rfl⟩⟩ := h
  · exact hBlamed
  · exact (List.suffix_cons t rest).trans hBlamed

theorem Blames.mono {problem : Problem} {rest : List Token} (h : Blames ts problem rest)
    (hSuffix : ts <:+ ts') : Blames ts' problem rest := by
  obtain ⟨blamed, hBlamed, hFound⟩ := h
  exact ⟨blamed, hBlamed.trans hSuffix, hFound⟩

/-- More tokens may stand in front. -/
theorem Tracks.mono (h : Tracks f g ts r r') (hSuffix : ts <:+ ts') : Tracks f g ts' r r' := by
  cases h with
  | done hPhrase hMoved hRest => exact .done hPhrase hMoved (hRest.trans hSuffix)
  | failed hProblem hMoved hBlames => exact .failed hProblem hMoved (hBlames.mono hSuffix)

theorem Tracks.cons (h : Tracks f g ts r r') (t : Token) : Tracks f g (t :: ts) r r' :=
  h.mono (List.suffix_cons t ts)

theorem Tracks.weaken (h : Tracks f g ts r r') {m' n' : Nat} (hm : m ≤ m') (hn : n ≤ n') :
    Tracks f g ts (r.weaken hm) (r'.weaken hn) := by
  cases h with
  | done hPhrase hMoved hRest => exact .done hPhrase hMoved hRest
  | failed hProblem hMoved hBlames => exact .failed hProblem hMoved hBlames

theorem Tracks.map (h : Tracks f g ts r r') {k k' : α → β} (hMap : ∀ a, k' (g a) = g' (k a)) :
    Tracks f g' ts (r.map k) (r'.map k') := by
  cases h with
  | done hPhrase hMoved hRest => exact .done (by rw [hPhrase, hMap]) hMoved hRest
  | failed hProblem hMoved hBlames => exact .failed hProblem hMoved hBlames

theorem Tracks.ite {p p' : Prop} [Decidable p] [Decidable p'] {s : Reading α m} {s' : Reading α n}
    (hSame : p' ↔ p) (hYes : p → Tracks f g ts r r') (hNo : ¬ p → Tracks f g ts s s') :
    Tracks f g ts (if p then r else s) (if p' then r' else s') := by
  by_cases h : p
  · rw [if_pos h, if_pos (hSame.mpr h)]
    exact hYes h
  · rw [if_neg h, if_neg (mt hSame.mp h)]
    exact hNo h

/-- Sequences track each other if their parts do. -/
theorem Tracks.andThen (h : Tracks f g ts r r')
    {next : α → (rest : List Token) → rest.length < m → Reading β rest.length}
    {next' : α → (rest : List Token) → rest.length < n → Reading β rest.length}
    (hNext : ∀ a rest fewer fewer',
      Tracks f g' rest (next a rest fewer) (next' (g a) (rest.map (Token.relined f)) fewer')) :
    Tracks f g' ts (r.andThen next) (r'.andThen next') := by
  cases h with
  | failed hProblem hMoved hBlames => exact .failed hProblem hMoved hBlames
  | @done a _ rest _ fewer fewer' hPhrase hMoved hRest =>
      subst hPhrase hMoved
      exact ((hNext a rest fewer fewer').mono hRest).weaken (Nat.le_of_lt fewer) (Nat.le_of_lt fewer')

/-- Sequences track each other also if their second part may take up no token. -/
theorem Tracks.andPerhaps (h : Tracks f g ts r r')
    {next : α → (rest : List Token) → rest.length < m → Reading β (rest.length + 1)}
    {next' : α → (rest : List Token) → rest.length < n → Reading β (rest.length + 1)}
    (hNext : ∀ a rest fewer fewer',
      Tracks f g' rest (next a rest fewer) (next' (g a) (rest.map (Token.relined f)) fewer')) :
    Tracks f g' ts (r.andPerhaps next) (r'.andPerhaps next') := by
  cases h with
  | failed hProblem hMoved hBlames => exact .failed hProblem hMoved hBlames
  | @done a _ rest _ fewer fewer' hPhrase hMoved hRest =>
      subst hPhrase hMoved
      exact ((hNext a rest fewer fewer').mono hRest).weaken fewer fewer'

variable (f g ts)

theorem tracks_refuse (complaint : Complaint) :
    Tracks f g ts (refuse complaint ts) (refuse complaint (ts.map (Token.relined f))) := by
  refine .failed ?_ rfl ⟨ts, List.suffix_rfl, rfl, Or.inl rfl⟩
  rw [Problem.relined, List.head?_map]

/-- A token is asked for by its kind, on whatever line. -/
theorem tracks_token (kind : Kind) (complaint : Complaint) :
    Tracks f (Token.relined f) ts (token kind complaint ts)
      (token kind complaint (ts.map (Token.relined f))) := by
  cases ts with
  | nil => exact tracks_refuse f _ [] complaint
  | cons t rest =>
      rw [token, List.map_cons, token, Token.kind_relined]
      split
      · exact .done rfl rfl (List.suffix_cons t rest)
      · exact tracks_refuse f _ (t :: rest) complaint

end Reading

namespace Level

/-- A binary expression on other lines is built from parts on other lines. -/
theorem node_relined (level : Level) (f : Int → Int) (left : Expr) (op : Token) (right : Expr) :
    level.node (left.rewrite (.relined f)) (op.relined f) (right.rewrite (.relined f)) =
      (level.node left op right).rewrite (.relined f) := by
  cases level <;> rfl

end Level

namespace Expr

open Reading (Tracks tracks_refuse tracks_token)

variable (f : Int → Int)

mutual

/-- Expressions are read without looking at lines. -/
theorem tracks_read (ts : List Token) :
    Tracks f (rewrite (.relined f)) ts (read ts) (read (ts.map (Token.relined f))) := by
  have hLevel := tracks_readLevel .or ts
  rw [read, read]
  generalize readLevel .or ts = r, readLevel .or (ts.map (Token.relined f)) = r' at hLevel
  cases hLevel with
  | failed hProblem hMoved hBlames => exact .failed hProblem hMoved hBlames
  | @done left _ rest _ fewer _ hPhrase hMoved hRest =>
      subst hPhrase
      cases rest with
      | nil =>
          rw [List.map_nil] at hMoved
          subst hMoved
          exact .done rfl rfl hRest
      | cons t rest =>
          rw [List.map_cons] at hMoved
          subst hMoved
          have hTail : rest <:+ ts := (List.suffix_cons t rest).trans hRest
          have hLength : rest.length < ts.length := Nat.lt_of_succ_lt fewer
          dsimp only
          refine .ite Iff.rfl (fun _ => ?_) fun _ => .done rfl rfl hRest
          cases left with
          | name target =>
              have hValue := tracks_read rest
              dsimp only [rewrite]
              generalize read rest = r, read (rest.map (Token.relined f)) = r' at hValue
              cases hValue with
              | failed hProblem hMoved hBlames => exact .failed hProblem hMoved (hBlames.mono hTail)
              | done hPhrase hMoved hRest' =>
                  exact .done (by rw [hPhrase]; rfl) hMoved (hRest'.trans hTail)
          | _ => exact .failed rfl rfl ⟨t :: rest, hRest, rfl, Or.inr ⟨t, rfl⟩⟩
termination_by ts.length * 20 + 19
decreasing_by
  · simp only [Level.height]; omega
  · omega

theorem tracks_readLevel (level : Level) (ts : List Token) :
    Tracks f (rewrite (.relined f)) ts (readLevel level ts)
      (readLevel level (ts.map (Token.relined f))) := by
  have hOperand := tracks_readOperand level ts
  rw [readLevel, readLevel]
  generalize readOperand level ts = r, readOperand level (ts.map (Token.relined f)) = r' at hOperand
  cases hOperand with
  | failed hProblem hMoved hBlames => exact .failed hProblem hMoved hBlames
  | @done left _ rest _ fewer fewer' hPhrase hMoved hRest =>
      subst hPhrase hMoved
      exact ((tracks_readChain level left rest).mono hRest).weaken fewer fewer'
termination_by ts.length * 20 + level.height * 2 + 2

theorem tracks_readOperand (level : Level) (ts : List Token) :
    Tracks f (rewrite (.relined f)) ts (readOperand level ts)
      (readOperand level (ts.map (Token.relined f))) := by
  rw [readOperand, readOperand]
  split
  next next hTighter =>
    have := Level.height_tighter hTighter
    exact tracks_readLevel next ts
  next => exact tracks_readUnary ts
termination_by ts.length * 20 + level.height * 2 + 1
decreasing_by
  · omega
  · have := level.height_pos; omega

/-- Chains of operators are read without looking at lines. -/
theorem tracks_readChain (level : Level) (left : Expr) (ts : List Token) :
    Tracks f (rewrite (.relined f)) ts (readChain level left ts)
      (readChain level (left.rewrite (.relined f)) (ts.map (Token.relined f))) := by
  cases ts with
  | nil =>
      rw [readChain, List.map_nil, readChain]
      exact .done rfl rfl List.suffix_rfl
  | cons op rest =>
      rw [readChain, List.map_cons, readChain]
      refine .ite Iff.rfl (fun _ => ?_) fun _ => .done rfl rfl List.suffix_rfl
      have hOperand := (tracks_readOperand level rest).cons op
      generalize readOperand level rest = r,
        readOperand level (rest.map (Token.relined f)) = r' at hOperand
      cases hOperand with
      | failed hProblem hMoved hBlames => exact .failed hProblem hMoved hBlames
      | @done right _ rest' _ fewer fewer' hPhrase hMoved hRest =>
          subst hPhrase hMoved
          dsimp only
          rw [level.node_relined]
          exact ((tracks_readChain level _ rest').mono hRest).weaken
            (Reading.succ_length_le_of_tail op fewer) (Reading.succ_length_le_of_tail _ fewer')
termination_by ts.length * 20 + level.height * 2

theorem tracks_readUnary (ts : List Token) :
    Tracks f (rewrite (.relined f)) ts (readUnary ts) (readUnary (ts.map (Token.relined f))) := by
  cases ts with
  | nil =>
      rw [readUnary, List.map_nil, readUnary]
      exact tracks_readPrimary []
  | cons op rest =>
      rw [readUnary, List.map_cons, readUnary]
      refine .ite Iff.rfl (fun _ => ?_) fun _ => tracks_readPrimary (op :: rest)
      have hOperand := (tracks_readUnary rest).cons op
      generalize readUnary rest = r, readUnary (rest.map (Token.relined f)) = r' at hOperand
      cases hOperand with
      | failed hProblem hMoved hBlames => exact .failed hProblem hMoved hBlames
      | done hPhrase hMoved hRest => exact .done (by rw [hPhrase]; rfl) hMoved hRest
termination_by ts.length * 20 + 1

theorem tracks_readPrimary (ts : List Token) :
    Tracks f (rewrite (.relined f)) ts (readPrimary ts) (readPrimary (ts.map (Token.relined f))) := by
  cases ts with
  | nil =>
      rw [readPrimary, List.map_nil, readPrimary]
      exact tracks_refuse f _ [] _
  | cons t rest =>
      rw [readPrimary, List.map_cons, readPrimary]
      refine .ite Iff.rfl (fun _ => .done rfl rfl (List.suffix_cons t rest)) fun _ => ?_
      refine .ite Iff.rfl (fun _ => .done rfl rfl (List.suffix_cons t rest)) fun _ => ?_
      refine .ite Iff.rfl (fun _ => ?_) fun _ => tracks_refuse f _ (t :: rest) _
      have hInner := (tracks_read rest).cons t
      generalize read rest = r, read (rest.map (Token.relined f)) = r' at hInner
      cases hInner with
      | failed hProblem hMoved hBlames => exact .failed hProblem hMoved hBlames
      | @done inner _ rest' _ fewer _ hPhrase hMoved hRest =>
          subst hPhrase hMoved
          dsimp only
          have hClosing := (tracks_token f rest' .rightParen
            (.delimiter .rightParen "expression")).mono hRest
          generalize Reading.token .rightParen (.delimiter .rightParen "expression") rest' = r,
            Reading.token .rightParen (.delimiter .rightParen "expression")
              (rest'.map (Token.relined f)) = r' at hClosing
          cases hClosing with
          | failed hProblem hMoved hBlames => exact .failed hProblem hMoved hBlames
          | done _ hMoved hRest => exact .done rfl hMoved hRest
termination_by ts.length * 20

end

end Expr

namespace Stmt

open Reading (Tracks tracks_refuse tracks_token)

variable (f : Int → Int)

theorem tracks_readExpr (ts : List Token) :
    Tracks f (rewrite (.relined f)) ts (readExpr ts) (readExpr (ts.map (Token.relined f))) :=
  (Expr.tracks_read f ts).andThen fun _ rest _ _ =>
    (tracks_token f rest .semicolon _).map fun _ => by rw [rewrite]

theorem tracks_readVariable (ts : List Token) :
    Tracks f (rewrite (.relined f)) ts (readVariable ts)
      (readVariable (ts.map (Token.relined f))) := by
  refine (tracks_token f ts .identifier _).andThen fun name rest _ _ => ?_
  cases rest with
  | nil => exact tracks_refuse f _ [] _
  | cons t rest =>
      refine .ite Iff.rfl (fun _ => ?_) fun _ => ?_
      · exact (((Expr.tracks_read f rest).andThen fun value rest' _ _ =>
          (tracks_token f rest' .semicolon _).map fun _ => by simp [rewrite, Rewriting.relined,
            Token.relined]).cons t).weaken _ _
      · exact (tracks_token f (t :: rest) .semicolon _).map fun _ => by
          simp [rewrite, Rewriting.relined, Token.relined]

theorem tracks_readPrint (keyword : Token) (ts : List Token) :
    Tracks f (rewrite (.relined f)) ts (readPrint keyword ts)
      (readPrint (keyword.relined f) (ts.map (Token.relined f))) :=
  (Expr.tracks_read f ts).andThen fun _ rest _ _ =>
    (tracks_token f rest .semicolon _).map fun _ => by rw [rewrite]; rfl

theorem tracks_readCondition (word what : String) (ts : List Token) :
    Tracks f (Expr.rewrite (.relined f)) ts (readCondition word what ts)
      (readCondition word what (ts.map (Token.relined f))) :=
  (tracks_token f ts .leftParen _).andThen fun _ rest _ _ =>
    (Expr.tracks_read f rest).andThen fun _ rest' _ _ =>
      (tracks_token f rest' .rightParen _).map fun _ => rfl

theorem tracks_readStart (ts : List Token) :
    Tracks f (Option.map (rewrite (.relined f))) ts (readStart ts)
      (readStart (ts.map (Token.relined f))) := by
  cases ts with
  | nil => exact (tracks_readExpr f []).map fun _ => rfl
  | cons t rest =>
      refine .ite Iff.rfl (fun _ => .done rfl rfl (List.suffix_cons t rest)) fun _ => ?_
      refine .ite Iff.rfl (fun _ => ?_) fun _ => (tracks_readExpr f (t :: rest)).map fun _ => rfl
      refine (Tracks.cons ?_ t).weaken _ _
      exact (tracks_readVariable f rest).map fun _ => rfl

theorem tracks_readClause (delimiter : Kind) (after : String) (ts : List Token) :
    Tracks f (Option.map (Expr.rewrite (.relined f))) ts (readClause delimiter after ts)
      (readClause delimiter after (ts.map (Token.relined f))) := by
  refine .ite ?_ (fun _ => ?_) fun _ => ?_
  · cases ts <;> rfl
  · exact (tracks_token f ts delimiter _).map fun _ => rfl
  · exact (Expr.tracks_read f ts).andThen fun e rest _ _ =>
      (tracks_token f rest delimiter _).map fun _ => rfl

def clausesRelined : Option Stmt × Option Expr × Option Expr → Option Stmt × Option Expr × Option Expr
  | (start, condition, step) => (start.map (rewrite (.relined f)),
      condition.map (Expr.rewrite (.relined f)), step.map (Expr.rewrite (.relined f)))

/-- The clauses of a counting loop are read without looking at lines. -/
theorem tracks_readClauses (ts : List Token) :
    Tracks f (clausesRelined f) ts (readClauses ts) (readClauses (ts.map (Token.relined f))) :=
  (tracks_token f ts .leftParen _).andThen fun _ rest _ _ =>
    (tracks_readStart f rest).andThen fun _ rest' _ _ =>
      (tracks_readClause f .semicolon _ rest').andThen fun _ rest'' _ _ =>
        (tracks_readClause f .rightParen _ rest'').map fun _ => rfl

/-- A counting loop on other lines is built from parts on other lines. -/
theorem counting_relined (keyword : Token) (start : Option Stmt) (condition step : Option Expr)
    (body : Stmt) :
    (counting keyword start condition step body).rewrite (.relined f) =
      counting (keyword.relined f) (start.map (rewrite (.relined f)))
        (condition.map (Expr.rewrite (.relined f))) (step.map (Expr.rewrite (.relined f)))
        (body.rewrite (.relined f)) := by
  cases start <;> cases condition <;> cases step <;>
    simp [counting, rewrite, rewriteAll, Expr.rewrite, Rewriting.relined, Token.relined]

mutual

/-- Declarations are read without looking at lines. -/
theorem tracks_readDeclaration (ts : List Token) :
    Tracks f (rewrite (.relined f)) ts (readDeclaration ts)
      (readDeclaration (ts.map (Token.relined f))) := by
  cases ts with
  | nil =>
      rw [readDeclaration, List.map_nil, readDeclaration]
      exact tracks_read []
  | cons t rest =>
      rw [readDeclaration, List.map_cons, readDeclaration]
      refine .ite Iff.rfl (fun _ => ?_) fun _ => tracks_read (t :: rest)
      exact ((tracks_readVariable f rest).cons t).weaken _ _
termination_by ts.length * 4 + 1
decreasing_by all_goals simp only [List.length_cons, List.length_nil]; omega

/-- Statements are read without looking at lines. -/
theorem tracks_read (ts : List Token) :
    Tracks f (rewrite (.relined f)) ts (read ts) (read (ts.map (Token.relined f))) := by
  cases ts with
  | nil =>
      rw [read, List.map_nil, read]
      exact tracks_readExpr f []
  | cons t rest =>
      rw [read, List.map_cons, read, Token.kind_relined]
      split
      · exact ((tracks_readPrint f t rest).cons t).weaken _ _
      · refine (((tracks_readBody rest).map fun body => ?_).cons t).weaken _ _
        rw [rewrite, rewriteAll_eq_map]
        rfl
      · refine (((tracks_readCondition f _ _ rest).andThen fun condition rest' fewer _ => ?_).cons
          t).weaken _ _
        refine (tracks_read rest').andPerhaps fun yes rest'' fewer' _ => ?_
        cases rest'' with
        | nil => exact .done (by rw [rewrite]; rfl) rfl List.suffix_rfl
        | cons e after =>
            have hLength : after.length < rest'.length := Nat.lt_of_succ_lt fewer'
            refine .ite Iff.rfl (fun _ => ?_) fun _ => .done (by rw [rewrite]; rfl) rfl List.suffix_rfl
            refine (((tracks_read after).map fun no => ?_).cons e).weaken _ _
            rw [rewrite]
            rfl
      · refine (((tracks_readCondition f _ _ rest).andThen fun condition rest' fewer _ => ?_).cons
          t).weaken _ _
        refine (tracks_read rest').map fun body => ?_
        rw [rewrite]
        rfl
      · refine (((tracks_readClauses f rest).andThen fun clauses rest' fewer _ => ?_).cons
          t).weaken _ _
        refine (tracks_read rest').map fun body => ?_
        rw [counting_relined]
      · exact tracks_readExpr f (t :: rest)
termination_by ts.length * 4
decreasing_by all_goals simp_all only [List.length_cons]; omega

theorem tracks_readBody (ts : List Token) :
    Tracks f (List.map (rewrite (.relined f))) ts (readBody ts)
      (readBody (ts.map (Token.relined f))) := by
  cases ts with
  | nil =>
      rw [readBody, List.map_nil, readBody]
      exact tracks_refuse f _ [] _
  | cons t rest =>
      rw [readBody, List.map_cons, readBody]
      refine .ite Iff.rfl (fun _ => .done rfl rfl (List.suffix_cons t rest)) fun _ => ?_
      refine .ite Iff.rfl (fun _ => tracks_refuse f _ (t :: rest) _) fun _ => ?_
      refine (tracks_readDeclaration (t :: rest)).andThen fun s rest' fewer _ => ?_
      exact (tracks_readBody rest').map fun body => rfl
termination_by ts.length * 4 + 2
decreasing_by all_goals simp_all only [List.length_cons]; omega

end

variable {ts rest : List Token} {s : Stmt} {problem : Problem}

/-- What is left over after a declaration stands at the end of the tokens. -/
theorem suffix_of_readDeclaration {fewer : rest.length < ts.length}
    (h : readDeclaration ts = .done s rest fewer) : rest <:+ ts := by
  have hTracks := tracks_readDeclaration id ts
  rw [h] at hTracks
  generalize readDeclaration (ts.map (Token.relined id)) = r' at hTracks
  cases hTracks with
  | done _ _ hRest => exact hRest

/-- A problem is blamed on the first token left over or the one before it. -/
theorem blames_of_readDeclaration {atMost : rest.length ≤ ts.length}
    (h : readDeclaration ts = .failed problem rest atMost) : Reading.Blames ts problem rest := by
  have hTracks := tracks_readDeclaration id ts
  rw [h] at hTracks
  generalize readDeclaration (ts.map (Token.relined id)) = r' at hTracks
  cases hTracks with
  | failed _ _ hBlames => exact hBlames

end Stmt

namespace Program

theorem suffix_boundary (last : Token) (ts : List Token) : boundary last ts <:+ ts := by
  induction ts generalizing last with
  | nil => exact List.suffix_rfl
  | cons t rest ih =>
      rw [boundary]
      split
      · exact List.suffix_rfl
      · exact (ih t).trans (List.suffix_cons t rest)

/-- Recovery takes up a token at least. -/
theorem suffix_recover (ts : List Token) : recover ts <:+ ts.tail := by
  cases ts with
  | nil => exact List.suffix_rfl
  | cons t rest => exact suffix_boundary t rest

variable (f : Int → Int)

theorem boundary_relined (last : Token) (ts : List Token) :
    boundary (last.relined f) (ts.map (Token.relined f)) =
      (boundary last ts).map (Token.relined f) := by
  induction ts generalizing last with
  | nil => rfl
  | cons t rest ih =>
      rw [List.map_cons, boundary, boundary, ih, Token.kind_relined, Token.kind_relined]
      split <;> rfl

/-- Recovery does not look at lines. -/
theorem recover_relined (ts : List Token) :
    recover (ts.map (Token.relined f)) = (recover ts).map (Token.relined f) := by
  cases ts with
  | nil => rfl
  | cons t rest => exact boundary_relined f t rest

def relinedResult : Except Problem Stmt → Except Problem Stmt
  | .ok s => .ok (s.rewrite (.relined f))
  | .error problem => .error (problem.relined f)

/-- Tokens on other lines are read as what they are read as, on these lines. -/
theorem attempts_relined (ts : List Token) :
    attempts (ts.map (Token.relined f)) = (attempts ts).map (relinedResult f) := by
  have hAhead (ts : List Token) : Reading.ahead (ts.map (Token.relined f)) = Reading.ahead ts := by
    cases ts <;> rfl
  fun_induction attempts ts with
  | case1 ts hEnd =>
      rw [attempts, dif_pos ((hAhead ts).trans hEnd), List.map_nil]
  | case2 ts hGoesOn s rest fewer hDone ih =>
      have hTracks := Stmt.tracks_readDeclaration f ts
      rw [attempts, dif_neg (hAhead ts ▸ hGoesOn)]
      rw [hDone] at hTracks
      generalize Stmt.readDeclaration (ts.map (Token.relined f)) = r at hTracks
      cases hTracks with
      | done hPhrase hMoved _ =>
          rw [List.map_cons, ← ih, ← hMoved, relinedResult, ← hPhrase]
  | case3 ts hGoesOn problem rest atMost hFailed ih =>
      have hTracks := Stmt.tracks_readDeclaration f ts
      rw [attempts, dif_neg (hAhead ts ▸ hGoesOn)]
      rw [hFailed] at hTracks
      generalize Stmt.readDeclaration (ts.map (Token.relined f)) = r at hTracks
      cases hTracks with
      | failed hProblem hMoved _ =>
          rw [List.map_cons, ← ih, ← recover_relined, ← hMoved, relinedResult, ← hProblem]

end Program
end Lox
