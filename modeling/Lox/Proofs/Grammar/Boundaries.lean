import Lox.Proofs.Grammar.Recovery

/-! Statement boundaries. What stands after the boundary between two statements is read as if nothing
stood before it, and what stands before it as if nothing came after. After tokens with which nothing
is wrong this holds wherever they end. After others it holds at a semicolon, if all before it are
simple statements: no failure goes past the semicolon, and recovering stops there. -/
namespace Lox

namespace Reading

/-- Readings of `u`, a semicolon and what follows it, `b` or `b'`: the same phrase or problem, with the
same tokens left over. The semicolon is left over too, unless the phrase ends with it, as it may if
`closes`. -/
inductive Stays {α : Type} {m n : Nat} (semicolon : Token) (b b' u : List Token) :
    Bool → Reading α m → Reading α n → Prop
  | done {closes : Bool} {a : α} {l : List Token}
      {fewer : (l ++ semicolon :: b).length < m} {fewer' : (l ++ semicolon :: b').length < n}
      (hLeft : l <:+ u) :
      Stays semicolon b b' u closes (.done a (l ++ semicolon :: b) fewer)
        (.done a (l ++ semicolon :: b') fewer')
  | past {a : α} {fewer : b.length < m} {fewer' : b'.length < n} :
      Stays semicolon b b' u true (.done a b fewer) (.done a b' fewer')
  | failed {closes : Bool} {problem : Problem} {l : List Token}
      {atMost : (l ++ semicolon :: b).length ≤ m}
      {atMost' : (l ++ semicolon :: b').length ≤ n} (hLeft : l <:+ u) :
      Stays semicolon b b' u closes (.failed problem (l ++ semicolon :: b) atMost)
        (.failed problem (l ++ semicolon :: b') atMost')

variable {α β : Type} {m n : Nat} {semicolon : Token} {b b' u u' : List Token} {closes : Bool}
  {r : Reading α m} {r' : Reading α n}

/-- More tokens may stand in front. -/
theorem Stays.mono (h : Stays semicolon b b' u closes r r') (hSuffix : u <:+ u') :
    Stays semicolon b b' u' closes r r' := by
  cases h with
  | done hLeft => exact .done (hLeft.trans hSuffix)
  | past => exact .past
  | failed hLeft => exact .failed (hLeft.trans hSuffix)

theorem Stays.cons (h : Stays semicolon b b' u closes r r') (t : Token) :
    Stays semicolon b b' (t :: u) closes r r' :=
  h.mono (List.suffix_cons t u)

theorem Stays.weaken (h : Stays semicolon b b' u closes r r') {m' n' : Nat} (hm : m ≤ m')
    (hn : n ≤ n') : Stays semicolon b b' u closes (r.weaken hm) (r'.weaken hn) := by
  cases h with
  | done hLeft => exact .done hLeft
  | past => exact .past
  | failed hLeft => exact .failed hLeft

theorem Stays.map (h : Stays semicolon b b' u closes r r') (f : α → β) :
    Stays semicolon b b' u closes (r.map f) (r'.map f) := by
  cases h with
  | done hLeft => exact .done hLeft
  | past => exact .past
  | failed hLeft => exact .failed hLeft

theorem Stays.ite {p : Prop} [Decidable p] {s : Reading α m} {s' : Reading α n}
    (hYes : p → Stays semicolon b b' u closes r r')
    (hNo : ¬ p → Stays semicolon b b' u closes s s') :
    Stays semicolon b b' u closes (if p then r else s) (if p then r' else s') := by
  by_cases h : p
  · rw [if_pos h, if_pos h]
    exact hYes h
  · rw [if_neg h, if_neg h]
    exact hNo h

/-- A sequence stays before the semicolon if its first part does. -/
theorem Stays.andThen (h : Stays semicolon b b' u false r r')
    {next : α → (rest : List Token) → rest.length < m → Reading β rest.length}
    {next' : α → (rest : List Token) → rest.length < n → Reading β rest.length}
    (hNext : ∀ a left fewer fewer', Stays semicolon b b' left closes
      (next a (left ++ semicolon :: b) fewer) (next' a (left ++ semicolon :: b') fewer')) :
    Stays semicolon b b' u closes (r.andThen next) (r'.andThen next') := by
  cases h with
  | @done _ a left fewer fewer' hLeft =>
      exact ((hNext a left fewer fewer').mono hLeft).weaken (Nat.le_of_lt fewer) (Nat.le_of_lt fewer')
  | failed hLeft => exact .failed hLeft

variable (b b' u)

theorem stays_refuse (complaint : Complaint) :
    Stays (α := α) semicolon b b' u closes (refuse complaint (u ++ semicolon :: b))
      (refuse complaint (u ++ semicolon :: b')) := by
  have hHead : (u ++ semicolon :: b').head? = (u ++ semicolon :: b).head? := by cases u <;> rfl
  rw [refuse, refuse, hHead]
  exact .failed List.suffix_rfl

/-- No other token is looked for beyond the semicolon. -/
theorem stays_token (hSemicolon : semicolon.kind = .semicolon) {k : Kind}
    (hKind : k ≠ .semicolon) (complaint : Complaint) :
    Stays semicolon b b' u false (token k complaint (u ++ semicolon :: b))
      (token k complaint (u ++ semicolon :: b')) := by
  cases u with
  | nil =>
      have hOther : semicolon.kind ≠ k := hSemicolon ▸ hKind.symm
      rw [List.nil_append, List.nil_append, token, token, if_neg hOther, if_neg hOther]
      exact stays_refuse b b' [] complaint
  | cons t u =>
      refine .ite (fun _ => ?_) fun _ => stays_refuse b b' (t :: u) complaint
      exact .done (List.suffix_cons t u)

/-- A semicolon that is asked for may be the one at which reading stops. -/
theorem stays_semicolon (hSemicolon : semicolon.kind = .semicolon) (complaint : Complaint) :
    Stays semicolon b b' u true (token .semicolon complaint (u ++ semicolon :: b))
      (token .semicolon complaint (u ++ semicolon :: b')) := by
  cases u with
  | nil =>
      rw [List.nil_append, List.nil_append, token, token, if_pos hSemicolon, if_pos hSemicolon]
      exact .past
  | cons t u =>
      refine .ite (fun _ => ?_) fun _ => stays_refuse b b' (t :: u) complaint
      exact .done (List.suffix_cons t u)

end Reading

namespace Expr

open Reading (Stays stays_refuse stays_token)

variable {semicolon : Token} (b b' : List Token)

mutual

/-- No expression is read beyond a semicolon. -/
theorem stays_read (hSemicolon : semicolon.kind = .semicolon) (u : List Token) :
    Stays semicolon b b' u false (read (u ++ semicolon :: b)) (read (u ++ semicolon :: b')) := by
  have hLevel := stays_readLevel hSemicolon .or u
  rw [read, read]
  generalize readLevel .or (u ++ semicolon :: b) = r, readLevel .or (u ++ semicolon :: b') = r' at hLevel
  cases hLevel with
  | failed hLeft => exact .failed hLeft
  | @done _ a left fewer fewer' hLeft =>
      cases left with
      | nil =>
          have hEqual : semicolon.kind ≠ .equal := hSemicolon ▸ Kind.noConfusion
          dsimp only [List.nil_append]
          rw [if_neg hEqual, if_neg hEqual]
          exact .done (l := []) hLeft
      | cons t left =>
          have hTail : left <:+ u := (List.suffix_cons t left).trans hLeft
          have hLength : left.length < u.length := hLeft.length_le
          dsimp only [List.cons_append]
          refine .ite (fun _ => ?_) fun _ => .done (l := t :: left) hLeft
          cases a with
          | name target =>
              have hValue := stays_read hSemicolon left
              dsimp only
              generalize read (left ++ semicolon :: b) = r, read (left ++ semicolon :: b') = r' at hValue
              cases hValue with
              | failed hLeft' => exact .failed (hLeft'.trans hTail)
              | done hLeft' => exact .done (hLeft'.trans hTail)
          | _ => exact .failed hTail
termination_by u.length * 20 + 19
decreasing_by
  · simp only [Level.height]; omega
  · omega

theorem stays_readLevel (hSemicolon : semicolon.kind = .semicolon) (level : Level) (u : List Token) :
    Stays semicolon b b' u false (readLevel level (u ++ semicolon :: b))
      (readLevel level (u ++ semicolon :: b')) := by
  have hOperand := stays_readOperand hSemicolon level u
  rw [readLevel, readLevel]
  generalize readOperand level (u ++ semicolon :: b) = r,
    readOperand level (u ++ semicolon :: b') = r' at hOperand
  cases hOperand with
  | failed hLeft => exact .failed hLeft
  | @done _ a left fewer fewer' hLeft =>
      have hLength := hLeft.length_le
      exact ((stays_readChain hSemicolon level a left).mono hLeft).weaken fewer fewer'
termination_by u.length * 20 + level.height * 2 + 2

theorem stays_readOperand (hSemicolon : semicolon.kind = .semicolon) (level : Level) (u : List Token) :
    Stays semicolon b b' u false (readOperand level (u ++ semicolon :: b))
      (readOperand level (u ++ semicolon :: b')) := by
  rw [readOperand, readOperand]
  split
  next next hTighter =>
    have := Level.height_tighter hTighter
    exact stays_readLevel hSemicolon next u
  next => exact stays_readUnary hSemicolon u
termination_by u.length * 20 + level.height * 2 + 1
decreasing_by
  · omega
  · have := level.height_pos; omega

/-- A semicolon is no operator, so a chain of operators ends before it. -/
theorem stays_readChain (hSemicolon : semicolon.kind = .semicolon) (level : Level) (e : Expr)
    (u : List Token) :
    Stays semicolon b b' u false (readChain level e (u ++ semicolon :: b))
      (readChain level e (u ++ semicolon :: b')) := by
  cases u with
  | nil =>
      have hOther : semicolon.kind ∉ level.operators := by
        rw [hSemicolon]
        cases level <;> decide
      rw [List.nil_append, List.nil_append, readChain, readChain, if_neg hOther, if_neg hOther]
      exact .done (l := []) List.suffix_rfl
  | cons op u =>
      rw [List.cons_append, List.cons_append, readChain, readChain]
      refine .ite (fun _ => ?_) fun _ => .done (l := op :: u) List.suffix_rfl
      have hOperand := (stays_readOperand hSemicolon level u).cons op
      generalize readOperand level (u ++ semicolon :: b) = r,
        readOperand level (u ++ semicolon :: b') = r' at hOperand
      cases hOperand with
      | failed hLeft => exact .failed hLeft
      | @done _ right left fewer fewer' hLeft =>
          have hLength : left.length ≤ u.length := by
            simp only [List.length_append, List.length_cons] at fewer
            omega
          exact ((stays_readChain hSemicolon level (level.node e op right) left).mono hLeft).weaken
            (Reading.succ_length_le_of_tail op fewer) (Reading.succ_length_le_of_tail op fewer')
termination_by u.length * 20 + level.height * 2

theorem stays_readUnary (hSemicolon : semicolon.kind = .semicolon) (u : List Token) :
    Stays semicolon b b' u false (readUnary (u ++ semicolon :: b))
      (readUnary (u ++ semicolon :: b')) := by
  cases u with
  | nil =>
      have hOther : semicolon.kind ∉ unaryOperators := by
        rw [hSemicolon]
        decide
      rw [List.nil_append, List.nil_append, readUnary, readUnary, if_neg hOther, if_neg hOther]
      exact stays_readPrimary hSemicolon []
  | cons op u =>
      rw [List.cons_append, List.cons_append, readUnary, readUnary]
      refine .ite (fun _ => ?_) fun _ => stays_readPrimary hSemicolon (op :: u)
      have hOperand := (stays_readUnary hSemicolon u).cons op
      generalize readUnary (u ++ semicolon :: b) = r, readUnary (u ++ semicolon :: b') = r' at hOperand
      cases hOperand with
      | failed hLeft => exact .failed hLeft
      | done hLeft => exact .done hLeft
termination_by u.length * 20 + 1

theorem stays_readPrimary (hSemicolon : semicolon.kind = .semicolon) (u : List Token) :
    Stays semicolon b b' u false (readPrimary (u ++ semicolon :: b))
      (readPrimary (u ++ semicolon :: b')) := by
  cases u with
  | nil =>
      have hLiteral : semicolon.kind ∉ literalKinds := by
        rw [hSemicolon]
        decide
      have hName : semicolon.kind ≠ .identifier := hSemicolon ▸ Kind.noConfusion
      have hParen : semicolon.kind ≠ .leftParen := hSemicolon ▸ Kind.noConfusion
      rw [List.nil_append, List.nil_append, readPrimary, readPrimary]
      rw [if_neg hLiteral, if_neg hLiteral, if_neg hName, if_neg hName, if_neg hParen, if_neg hParen]
      exact stays_refuse b b' [] _
  | cons t u =>
      rw [List.cons_append, List.cons_append, readPrimary, readPrimary]
      refine .ite (fun _ => .done (List.suffix_cons t u)) fun _ => ?_
      refine .ite (fun _ => .done (List.suffix_cons t u)) fun _ => ?_
      refine .ite (fun _ => ?_) fun _ => stays_refuse b b' (t :: u) _
      have hInner := (stays_read hSemicolon u).cons t
      generalize read (u ++ semicolon :: b) = r, read (u ++ semicolon :: b') = r' at hInner
      cases hInner with
      | failed hLeft => exact .failed hLeft
      | @done _ inner left _ _ hLeft =>
          dsimp only
          have hClosing := (stays_token b b' left hSemicolon (k := .rightParen) Kind.noConfusion
            (.delimiter .rightParen "expression")).mono hLeft
          generalize Reading.token .rightParen (.delimiter .rightParen "expression")
              (left ++ semicolon :: b) = r,
            Reading.token .rightParen (.delimiter .rightParen "expression")
              (left ++ semicolon :: b') = r' at hClosing
          cases hClosing with
          | failed hLeft => exact .failed hLeft
          | done hLeft => exact .done hLeft
termination_by u.length * 20

end

end Expr

def compoundStarts : List Kind := [.leftBrace, .ifWord, .whileWord, .forWord]

namespace Stmt

open Reading (Stays stays_token stays_semicolon)

variable {semicolon : Token} (hSemicolon : semicolon.kind = .semicolon) (b b' u : List Token)

include hSemicolon

theorem stays_readExpr : Stays semicolon b b' u true (readExpr (u ++ semicolon :: b))
    (readExpr (u ++ semicolon :: b')) :=
  (Expr.stays_read b b' hSemicolon u).andThen fun _ left _ _ =>
    (stays_semicolon b b' left hSemicolon _).map _

theorem stays_readPrint (keyword : Token) : Stays semicolon b b' u true
    (readPrint keyword (u ++ semicolon :: b)) (readPrint keyword (u ++ semicolon :: b')) :=
  (Expr.stays_read b b' hSemicolon u).andThen fun _ left _ _ =>
    (stays_semicolon b b' left hSemicolon _).map _

/-- A declaration is read up to its semicolon. -/
theorem stays_readVariable : Stays semicolon b b' u true (readVariable (u ++ semicolon :: b))
    (readVariable (u ++ semicolon :: b')) := by
  refine (stays_token b b' u hSemicolon Kind.noConfusion _).andThen fun name left _ _ => ?_
  cases left with
  | nil =>
      have hEqual : semicolon.kind ≠ .equal := hSemicolon ▸ Kind.noConfusion
      dsimp only [List.nil_append]
      rw [if_neg hEqual, if_neg hEqual]
      exact (stays_semicolon b b' [] hSemicolon _).map _
  | cons t left =>
      refine .ite (fun _ => ?_) fun _ => (stays_semicolon b b' (t :: left) hSemicolon _).map _
      exact (((Expr.stays_read b b' hSemicolon left).andThen fun _ left' _ _ =>
        (stays_semicolon b b' left' hSemicolon _).map _).cons t).weaken _ _

/-- A declaration that is no compound statement is read up to the semicolon at most. -/
theorem stays_readDeclaration (hSimple : ∀ t ∈ u, t.kind ∉ compoundStarts) :
    Stays semicolon b b' u true (readDeclaration (u ++ semicolon :: b))
      (readDeclaration (u ++ semicolon :: b')) := by
  cases u with
  | nil =>
      have hVar : semicolon.kind ≠ .varWord := hSemicolon ▸ Kind.noConfusion
      have hExpr (rest : List Token) : read (semicolon :: rest) = readExpr (semicolon :: rest) := by
        rw [read, hSemicolon]
      rw [List.nil_append, List.nil_append, readDeclaration, readDeclaration, if_neg hVar, if_neg hVar,
        hExpr, hExpr]
      exact stays_readExpr hSemicolon b b' []
  | cons t u =>
      have hFirst := hSimple t List.mem_cons_self
      rw [List.cons_append, List.cons_append, readDeclaration, readDeclaration]
      refine .ite (fun _ => ((stays_readVariable hSemicolon b b' u).cons t).weaken _ _) fun _ => ?_
      rw [read, read]
      split
      next => exact ((stays_readPrint hSemicolon b b' u t).cons t).weaken _ _
      next hKind => exact absurd (by rw [hKind]; decide) hFirst
      next hKind => exact absurd (by rw [hKind]; decide) hFirst
      next hKind => exact absurd (by rw [hKind]; decide) hFirst
      next hKind => exact absurd (by rw [hKind]; decide) hFirst
      next => exact stays_readExpr hSemicolon b b' (t :: u)

end Stmt

namespace Program

open Reading (Blames)

theorem boundary_after {semicolon : Token} (hSemicolon : semicolon.kind = .semicolon)
    (b : List Token) : boundary semicolon b = b := by
  cases b with
  | nil => rfl
  | cons t b => rw [boundary, if_pos (Or.inr (Or.inl hSemicolon))]

/-- Looking for a boundary goes no further than a semicolon. -/
theorem boundary_semicolon {semicolon : Token} (hSemicolon : semicolon.kind = .semicolon)
    (last : Token) (u : List Token) :
    (∀ b, boundary last (u ++ semicolon :: b) = b) ∨
      ∃ left, left <:+ u ∧ ∀ b, boundary last (u ++ semicolon :: b) = left ++ semicolon :: b := by
  induction u generalizing last with
  | nil =>
      by_cases hLast : last.kind = .semicolon
      · exact Or.inr ⟨[], List.suffix_rfl, fun b => boundary_after hLast _⟩
      · have hNone : ¬ (semicolon.kind = .eof ∨ last.kind = .semicolon ∨
            semicolon.kind ∈ statementWords) := by
          rw [hSemicolon]
          simp [hLast, statementWords]
        refine Or.inl fun b => ?_
        rw [List.nil_append, boundary, if_neg hNone, boundary_after hSemicolon]
  | cons t u ih =>
      by_cases hBegins : t.kind = .eof ∨ last.kind = .semicolon ∨ t.kind ∈ statementWords
      · refine Or.inr ⟨t :: u, List.suffix_rfl, fun b => ?_⟩
        rw [List.cons_append, boundary, if_pos hBegins]
      · have hGoesOn (b : List Token) :
            boundary last (t :: u ++ semicolon :: b) = boundary t (u ++ semicolon :: b) := by
          rw [List.cons_append, boundary, if_neg hBegins]
        simp only [hGoesOn]
        rcases ih t with hPast | ⟨left, hLeft, hEq⟩
        · exact Or.inl hPast
        · exact Or.inr ⟨left, hLeft.trans (List.suffix_cons t u), hEq⟩

/-- Recovery goes on after the semicolon, or before it, whatever follows. -/
theorem recover_semicolon {semicolon : Token} (hSemicolon : semicolon.kind = .semicolon)
    (u : List Token) :
    (∀ b, recover (u ++ semicolon :: b) = b) ∨
      ∃ left, left <:+ u ∧ left.length < u.length ∧
        ∀ b, recover (u ++ semicolon :: b) = left ++ semicolon :: b := by
  cases u with
  | nil => exact Or.inl fun b => boundary_after hSemicolon b
  | cons t u =>
      rcases boundary_semicolon hSemicolon t u with hPast | ⟨left, hLeft, hEq⟩
      · exact Or.inl hPast
      · exact Or.inr ⟨left, hLeft.trans (List.suffix_cons t u),
          Nat.lt_succ_of_le hLeft.length_le, hEq⟩

/-- A problem is blamed on a token if one is left. -/
theorem token_ne_none {ts rest : List Token} {problem : Problem} (h : Blames ts problem rest)
    (hRest : rest ≠ []) : problem.token ≠ none := by
  obtain ⟨blamed, -, hToken, rfl | ⟨t, rfl⟩⟩ := h
  · rw [hToken]
    exact mt List.head?_eq_none_iff.mp hRest
  · rw [hToken]
    exact Option.some_ne_none t

/-- After a problem, attempts go on where recovery does. -/
theorem attempts_of_fails {ts rest : List Token} {problem : Problem} (hEnd : Reading.ahead ts ≠ .eof)
    (h : (Stmt.readDeclaration ts).Fails problem rest) :
    attempts ts = .error problem :: attempts (recover rest) := by
  obtain ⟨atMost, hFailed⟩ := h
  rw [attempts.eq_def, dif_neg hEnd, hFailed]

section Semicolon

variable {semicolon : Token} (hSemicolon : semicolon.kind = .semicolon) {u : List Token}
  (hSimple : ∀ t ∈ u, t.kind ∉ compoundStarts) (hEnd : ∀ t ∈ u, t.kind ≠ .eof) (b : List Token)

include hSemicolon hSimple hEnd

/-- The first attempt before a semicolon is the same whatever follows. It leaves what follows, or the
semicolon and fewer tokens before it, and finds no fault with the end. -/
theorem exists_attempt_semicolon :
    ∃ result : Except Problem Stmt, (∀ problem, result = .error problem → problem.token ≠ none) ∧
      ((attempts (u ++ semicolon :: b) = result :: attempts b ∧
          attempts (u ++ [semicolon]) = [result]) ∨
        ∃ left, left <:+ u ∧ left.length < u.length ∧
          attempts (u ++ semicolon :: b) = result :: attempts (left ++ semicolon :: b) ∧
          attempts (u ++ [semicolon]) = result :: attempts (left ++ [semicolon])) := by
  have hGoesOn (b : List Token) : Reading.ahead (u ++ semicolon :: b) ≠ .eof := by
    cases u with
    | nil =>
        rw [List.nil_append, Reading.ahead_cons, hSemicolon]
        exact Kind.noConfusion
    | cons t u => exact hEnd t List.mem_cons_self
  have hStays := Stmt.stays_readDeclaration hSemicolon b [] u hSimple
  cases hWhole : Stmt.readDeclaration (u ++ semicolon :: b) with
  | done s rest fewer =>
      cases hAlone : Stmt.readDeclaration (u ++ [semicolon]) with
      | failed => rw [hWhole, hAlone] at hStays; cases hStays
      | done s' rest' fewer' =>
          have hOk := attempts_of_reads (hGoesOn b) ⟨fewer, hWhole⟩
          have hOk' := attempts_of_reads (hGoesOn []) ⟨fewer', hAlone⟩
          refine ⟨.ok s, by simp, ?_⟩
          rw [hWhole, hAlone] at hStays
          cases hStays with
          | past => exact Or.inl ⟨hOk, by rw [hOk', attempts_nil]⟩
          | @done _ _ left _ _ hLeft =>
              refine Or.inr ⟨left, hLeft, ?_, hOk, hOk'⟩
              simp only [List.length_append, List.length_cons] at fewer
              omega
  | failed problem rest atMost =>
      cases hAlone : Stmt.readDeclaration (u ++ [semicolon]) with
      | done => rw [hWhole, hAlone] at hStays; cases hStays
      | failed problem' rest' atMost' =>
          have hError := attempts_of_fails (hGoesOn b) ⟨atMost, hWhole⟩
          have hError' := attempts_of_fails (hGoesOn []) ⟨atMost', hAlone⟩
          have hBlames := Stmt.blames_of_readDeclaration hWhole
          rw [hWhole, hAlone] at hStays
          cases hStays with
          | @failed _ _ left _ _ hLeft =>
              refine ⟨.error problem, fun p hp => ?_, ?_⟩
              · cases hp
                exact token_ne_none hBlames (by simp)
              · -- recovery stops within the tokens before the semicolon, or passes it
                rcases recover_semicolon hSemicolon left with hPast | ⟨left', hLeft', hLess, hEq⟩
                · rw [hPast] at hError hError'
                  exact Or.inl ⟨hError, by rw [hError', attempts_nil]⟩
                · rw [hEq] at hError hError'
                  exact Or.inr ⟨left', hLeft'.trans hLeft, hLess.trans_le hLeft.length_le, hError, hError'⟩

/-- At a semicolon after simple statements the attempts at a declaration fall into those before it and
those after it. Those before it find no fault with the end. -/
theorem attempts_semicolon :
    attempts (u ++ semicolon :: b) = attempts (u ++ [semicolon]) ++ attempts b ∧
      ∀ problem, .error problem ∈ attempts (u ++ [semicolon]) → problem.token ≠ none := by
  -- an attempt that does not go past the semicolon leaves fewer tokens before it
  induction hLength : u.length using Nat.strong_induction_on generalizing u with
  | _ n ih =>
      obtain ⟨result, hToken, ⟨hWhole, hAlone⟩ | ⟨left, hLeft, hLess, hWhole, hAlone⟩⟩ :=
        exists_attempt_semicolon hSemicolon hSimple hEnd b
      · rw [hWhole, hAlone, List.singleton_append]
        refine ⟨rfl, fun problem hMem => hToken problem ?_⟩
        exact (List.mem_singleton.mp hMem).symm
      · obtain ⟨hRest, hTokens⟩ := ih left.length (hLength ▸ hLess)
          (fun t ht => hSimple t (hLeft.subset ht)) (fun t ht => hEnd t (hLeft.subset ht)) rfl
        rw [hWhole, hAlone, hRest, List.cons_append]
        refine ⟨rfl, fun problem hMem => ?_⟩
        rcases List.mem_cons.mp hMem with hFirst | hLater
        · exact hToken problem hFirst.symm
        · exact hTokens problem hLater

end Semicolon

end Program

/-- What is reported about the end of the input, in an input that ends on line `last`. -/
def Diagnostic.endingOn (last : Int) (d : Diagnostic) : Diagnostic :=
  if d.place = .endOfInput then { d with line := last } else d

namespace Program

/-- What is read from one input and then from another, where only the end of the input is now on line
`last`. -/
def Parse.andThen (first second : Parse) (last : Int) : Parse where
  program := ⟨first.program.statements ++ second.program.statements⟩
  diagnostics := first.diagnostics ++ second.diagnostics.map (Diagnostic.endingOn last)

def endLine (tokens : List Token) : Int := (splitEnd tokens).2

theorem splitEnd_toList {w : List Token} (hTokens : ∀ t ∈ w, t.kind ≠ .eof) {last : Option Token}
    (hLast : ∀ t ∈ last, t.kind = .eof) : (splitEnd (w ++ last.toList)).1 = w := by
  cases last with
  | some t => rw [Option.toList_some, splitEnd_append (hLast t rfl)]
  | none =>
      rw [Option.toList_none, List.append_nil, splitEnd]
      split
      next hNone => rw [List.getLast?_eq_none_iff.mp hNone]
      next t hSome => rw [if_neg (hTokens t (List.mem_of_getLast? hSome))]

/-- A problem is about one of the tokens or about the end. -/
theorem mem_of_error_mem {w : List Token} (hTokens : ∀ t ∈ w, t.kind ≠ .eof) {problem : Problem}
    (h : .error problem ∈ attempts w) : ∀ t ∈ problem.token, t ∈ w := by
  obtain ⟨as, -, hResults⟩ := exists_course hTokens (Nat.zero_le w.length)
  rw [List.drop_zero] at hResults
  rw [hResults] at h
  obtain ⟨a, -, hProblem⟩ := List.mem_map.mp h
  cases a with
  | read s => cases hProblem
  | failed complaint position =>
      cases hProblem
      exact fun t ht => List.mem_of_getElem? ht

/-- A diagnostic about a token of the input does not depend on where the input ends. -/
theorem endingOn_diagnostic {problem : Problem} (h : ∀ t ∈ problem.token, t.kind ≠ .eof)
    (last last' : Int) : (problem.diagnostic last').endingOn last = problem.diagnostic last := by
  obtain ⟨complaint, token⟩ := problem
  cases token with
  | none => rfl
  | some t =>
      have hPlace : t.kind ≠ .eof := h t rfl
      simp [Problem.diagnostic, Diagnostic.atToken, Diagnostic.endingOn, hPlace]

/-- Diagnostics about the end of the input are all that depends on its line. -/
theorem map_endingOn_diagnostics {w : List Token} (hTokens : ∀ t ∈ w, t.kind ≠ .eof)
    (last last' : Int) :
    ((attempts w).filterMap (report? last')).map (Diagnostic.endingOn last) =
      (attempts w).filterMap (report? last) := by
  rw [List.map_filterMap]
  refine List.filterMap_congr fun result hMem => ?_
  cases result with
  | ok s => rfl
  | error problem =>
      have hToken := fun t ht => hTokens t (mem_of_error_mem hTokens hMem t ht)
      exact congrArg some (endingOn_diagnostic hToken last last')

theorem diagnostics_of_token_ne_none {results : List (Except Problem Stmt)}
    (h : ∀ problem, .error problem ∈ results → problem.token ≠ none) (last last' : Int) :
    results.filterMap (report? last) = results.filterMap (report? last') := by
  refine List.filterMap_congr fun result hMem => ?_
  cases result with
  | ok s => rfl
  | error problem =>
      obtain ⟨t, hToken⟩ := Option.ne_none_iff_exists'.mp (h problem hMem)
      simp only [report?, Problem.diagnostic, hToken]

/-- Where the attempts at a declaration fall into two parts, so do the program and what is reported. -/
theorem ofTokens_of_attempts {w w₁ w₂ : List Token} {last last₁ last₂ : Option Token}
    (hTokens : ∀ t ∈ w, t.kind ≠ .eof) (hTokens₁ : ∀ t ∈ w₁, t.kind ≠ .eof)
    (hTokens₂ : ∀ t ∈ w₂, t.kind ≠ .eof) (hLast : ∀ t ∈ last, t.kind = .eof)
    (hLast₁ : ∀ t ∈ last₁, t.kind = .eof) (hLast₂ : ∀ t ∈ last₂, t.kind = .eof)
    (hAttempts : attempts w = attempts w₁ ++ attempts w₂)
    (hInside : ∀ problem, .error problem ∈ attempts w₁ → problem.token ≠ none) :
    ofTokens (w ++ last.toList) = (ofTokens (w₁ ++ last₁.toList)).andThen
      (ofTokens (w₂ ++ last₂.toList)) (endLine (w ++ last.toList)) := by
  have hStatements : (ofTokens (w ++ last.toList)).program.statements =
      (ofTokens (w₁ ++ last₁.toList)).program.statements ++
        (ofTokens (w₂ ++ last₂.toList)).program.statements := by
    rw [statements_ofTokens, statements_ofTokens, statements_ofTokens, splitEnd_toList hTokens hLast,
      splitEnd_toList hTokens₁ hLast₁, splitEnd_toList hTokens₂ hLast₂, hAttempts,
      List.filterMap_append]
  have hDiagnostics : (ofTokens (w ++ last.toList)).diagnostics =
      (ofTokens (w₁ ++ last₁.toList)).diagnostics ++
        (ofTokens (w₂ ++ last₂.toList)).diagnostics.map
          (Diagnostic.endingOn (endLine (w ++ last.toList))) := by
    rw [diagnostics_ofTokens, diagnostics_ofTokens, diagnostics_ofTokens,
      splitEnd_toList hTokens hLast, splitEnd_toList hTokens₁ hLast₁, splitEnd_toList hTokens₂ hLast₂,
      hAttempts, List.filterMap_append, map_endingOn_diagnostics hTokens₂, endLine,
      diagnostics_of_token_ne_none hInside]
  exact congrArg₂ Parse.mk (congrArg Program.mk hStatements) hDiagnostics

/-- Where nothing is reported, every attempt has read a statement. -/
theorem eq_map_ok_of_reports {results : List (Except Problem Stmt)} {last : Int}
    (h : results.filterMap (report? last) = []) :
    results = (results.filterMap Except.toOption).map .ok := by
  induction results with
  | nil => rfl
  | cons result results ih =>
      cases result with
      | ok s =>
          rw [List.filterMap_cons, Except.toOption, List.map_cons, ← ih h]
      | error problem => cases h

/-- Programs are read statement by statement, and so is what is wrong with them. Tokens that are read
without complaint, and do not go on with `else`, can be read apart from those after them. So can tokens
up to a semicolon, whatever is wrong with them, if no compound statement begins among them. -/
theorem ofTokens_at_boundary {a b : List Token} {last last₁ last₂ : Option Token}
    (hFirst : ∀ t ∈ a, t.kind ≠ .eof) (hSecond : ∀ t ∈ b, t.kind ≠ .eof)
    (hLast : ∀ t ∈ last, t.kind = .eof) (hLast₁ : ∀ t ∈ last₁, t.kind = .eof)
    (hLast₂ : ∀ t ∈ last₂, t.kind = .eof) :
    ((ofTokens (a ++ last₁.toList)).diagnostics = [] → Reading.ahead b ≠ .elseWord →
      ofTokens (a ++ b ++ last.toList) = (ofTokens (a ++ last₁.toList)).andThen
        (ofTokens (b ++ last₂.toList)) (endLine (a ++ b ++ last.toList))) ∧
    ∀ semicolon : Token, semicolon.kind = .semicolon → (∀ t ∈ a, t.kind ∉ compoundStarts) →
      ofTokens (a ++ [semicolon] ++ b ++ last.toList) =
        (ofTokens (a ++ [semicolon] ++ last₁.toList)).andThen (ofTokens (b ++ last₂.toList))
          (endLine (a ++ [semicolon] ++ b ++ last.toList)) := by
  constructor
  · intro hNone hElse
    rw [diagnostics_ofTokens, splitEnd_toList hFirst hLast₁] at hNone
    have hRead := eq_map_ok_of_reports hNone
    have hAttempts := attempts_append (derives_of_attempts hFirst hRead) hElse
    rw [← hRead] at hAttempts
    refine ofTokens_of_attempts (List.forall_mem_append.mpr ⟨hFirst, hSecond⟩) hFirst hSecond hLast
      hLast₁ hLast₂ hAttempts fun problem hMem => ?_
    rw [hRead] at hMem
    obtain ⟨s, -, hOk⟩ := List.mem_map.mp hMem
    cases hOk
  · intro semicolon hSemicolon hSimple
    obtain ⟨hAttempts, hInside⟩ := attempts_semicolon hSemicolon hSimple hFirst b
    have hEnds : ∀ t ∈ a ++ [semicolon], t.kind ≠ .eof := by
      refine List.forall_mem_append.mpr ⟨hFirst, List.forall_mem_singleton.mpr ?_⟩
      rw [hSemicolon]
      exact Kind.noConfusion
    rw [← List.singleton_append, ← List.append_assoc] at hAttempts
    exact ofTokens_of_attempts (List.forall_mem_append.mpr ⟨hEnds, hSecond⟩) hEnds hSecond hLast hLast₁
      hLast₂ hAttempts hInside

/-- The tokens of `if (a) a;` before `{ a`, which is left open at the end, and those of `(a` before
`; else`, where both sides fail. -/
theorem ofTokens_at_boundary_failing :
    let tokens : List Kind → List Token := List.map fun k => Token.read k "a" 1
    let branch := tokens [.ifWord, .leftParen, .identifier, .rightParen, .identifier, .semicolon]
    let opened := tokens [.leftBrace, .identifier]
    let broken := tokens [.leftParen, .identifier]
    let semicolon := Token.read .semicolon ";" 2
    let other := tokens [.elseWord]
    let last (line : Int) := some (Token.endOfInput line)
    ((∀ t ∈ branch ++ opened ++ broken ++ other, t.kind ≠ .eof) ∧ ∀ t ∈ last 3, t.kind = .eof) ∧
    ((ofTokens (branch ++ (last 1).toList)).diagnostics = [] ∧ Reading.ahead opened ≠ .elseWord ∧
      ofTokens (branch ++ opened ++ (last 3).toList) = (ofTokens (branch ++ (last 1).toList)).andThen
        (ofTokens (opened ++ (last 2).toList)) (endLine (branch ++ opened ++ (last 3).toList))) ∧
    semicolon.kind = .semicolon ∧ (∀ t ∈ broken, t.kind ∉ compoundStarts) ∧
      ofTokens (broken ++ [semicolon] ++ other ++ (last 3).toList) =
        (ofTokens (broken ++ [semicolon] ++ (last 1).toList)).andThen
          (ofTokens (other ++ (last 2).toList))
          (endLine (broken ++ [semicolon] ++ other ++ (last 3).toList)) := by
  intro tokens branch opened broken semicolon other last
  have hEnd (line : Int) : ∀ t ∈ last line, t.kind = .eof := by simp [last, Token.endOfInput]
  have hBranch := @ofTokens_at_boundary branch opened _ _ _ (by decide) (by decide) (hEnd 3) (hEnd 1)
    (hEnd 2)
  have hBroken := @ofTokens_at_boundary broken other _ _ _ (by decide) (by decide) (hEnd 3) (hEnd 1)
    (hEnd 2)
  have hRead : (ofTokens (branch ++ (last 1).toList)).diagnostics = [] := by decide +kernel
  exact ⟨⟨by decide, hEnd 3⟩, ⟨hRead, by decide, hBranch.1 hRead (by decide)⟩, rfl, by decide,
    hBroken.2 semicolon rfl (by decide)⟩

end Program
end Lox
