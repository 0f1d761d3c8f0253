import Lox.Program.StmtReader
import Lox.Proofs.Grammar.Expr

/-! The grammar of statements as a relation between tokens and trees, and the proof that the reader
of statements takes exactly the phrases of the grammar. The grammar alone leaves open which `if` an
`else` belongs to; the reader settles that in favour of the nearest. -/
namespace Lox

namespace Stmt

/-- A condition in parentheses. -/
inductive Condition : List Token → Expr → Prop where
  | mk {opening closing : Token} {w : List Token} {e : Expr}
      (hOpening : opening.kind = .leftParen) (h : Expr.Derives .expression w e)
      (hClosing : closing.kind = .rightParen) :
      Condition (opening :: w ++ [closing]) e

/-- An expression as a statement. -/
inductive Simple : List Token → Stmt → Prop where
  | mk {semicolon : Token} {w : List Token} {e : Expr}
      (h : Expr.Derives .expression w e) (hSemicolon : semicolon.kind = .semicolon) :
      Simple (w ++ [semicolon]) (.expr e)

/-- What follows the word `var` in a variable declaration. -/
inductive Variable : List Token → Stmt → Prop where
  | bare {name semicolon : Token}
      (hName : name.kind = .identifier) (hSemicolon : semicolon.kind = .semicolon) :
      Variable [name, semicolon] (.declare name.lexeme name none)
  | initialized {name equal semicolon : Token} {w : List Token} {value : Expr}
      (hName : name.kind = .identifier) (hEqual : equal.kind = .equal)
      (h : Expr.Derives .expression w value) (hSemicolon : semicolon.kind = .semicolon) :
      Variable (name :: equal :: w ++ [semicolon]) (.declare name.lexeme name (some value))

/-- The first clause of a counting loop. -/
inductive Start : List Token → Option Stmt → Prop where
  | missing {semicolon : Token} (hSemicolon : semicolon.kind = .semicolon) :
      Start [semicolon] none
  | declaration {var : Token} {w : List Token} {s : Stmt} (hVar : var.kind = .varWord)
      (h : Variable w s) : Start (var :: w) (some s)
  | expression {w : List Token} {s : Stmt} (h : Simple w s) : Start w (some s)

/-- A further clause of a counting loop with the delimiter after it. -/
inductive Clause (delimiter : Kind) : List Token → Option Expr → Prop where
  | missing {t : Token} (hDelimiter : t.kind = delimiter) : Clause delimiter [t] none
  | expression {t : Token} {w : List Token} {e : Expr} (h : Expr.Derives .expression w e)
      (hDelimiter : t.kind = delimiter) : Clause delimiter (w ++ [t]) (some e)

/-- The three clauses of a counting loop in parentheses. -/
inductive Clauses : List Token → Option Stmt × Option Expr × Option Expr → Prop where
  | mk {opening : Token} {w₁ w₂ w₃ : List Token} {start : Option Stmt}
      {condition step : Option Expr} (hOpening : opening.kind = .leftParen)
      (hStart : Start w₁ start) (hCondition : Clause .semicolon w₂ condition)
      (hStep : Clause .rightParen w₃ step) :
      Clauses (opening :: w₁ ++ w₂ ++ w₃) (start, condition, step)

/-- Whether the statement declares a variable. A declaration is no branch and no body. -/
def isDeclaration : Stmt → Bool
  | .declare .. => true
  | _ => false

/-- The nonterminals of the grammar of statements. A statement is `dangling` if it ends with an
`if` without an `else`, so that an `else` after it would belong to that `if`. -/
inductive Part where
  | statement (dangling : Bool)
  | declaration
  | declarations
  deriving DecidableEq, Repr

/-- The tokens are derivable from a nonterminal, and the statements are the trees of the derivation,
one tree unless the nonterminal is `declarations`. With `nearest` every `else` belongs to the
nearest `if` that has none, so that what stands before an `else` is not dangling. -/
inductive Derives (nearest : Bool) : Part → List Token → List Stmt → Prop where
  | expr {w : List Token} {s : Stmt} (h : Simple w s) :
      Derives nearest (.statement false) w [s]
  | print {keyword semicolon : Token} {w : List Token} {e : Expr}
      (hKeyword : keyword.kind = .printWord) (h : Expr.Derives .expression w e)
      (hSemicolon : semicolon.kind = .semicolon) :
      Derives nearest (.statement false) (keyword :: w ++ [semicolon]) [.print keyword e]
  | block {opening closing : Token} {w : List Token} {body : List Stmt}
      (hOpening : opening.kind = .leftBrace) (h : Derives nearest .declarations w body)
      (hClosing : closing.kind = .rightBrace) :
      Derives nearest (.statement false) (opening :: w ++ [closing])
        [.block opening.line body]
  | ifThen {keyword : Token} {c w : List Token} {condition : Expr} {yes : Stmt} {d : Bool}
      (hKeyword : keyword.kind = .ifWord) (hCondition : Condition c condition)
      (hYes : Derives nearest (.statement d) w [yes]) :
      Derives nearest (.statement true) (keyword :: c ++ w) [.branch keyword condition yes none]
  | ifElse {keyword other : Token} {c w₁ w₂ : List Token} {condition : Expr} {yes no : Stmt}
      {d₁ d₂ : Bool}
      (hKeyword : keyword.kind = .ifWord) (hCondition : Condition c condition)
      (hYes : Derives nearest (.statement d₁) w₁ [yes]) (hNearest : nearest = true → d₁ = false)
      (hOther : other.kind = .elseWord) (hNo : Derives nearest (.statement d₂) w₂ [no]) :
      Derives nearest (.statement d₂) (keyword :: c ++ w₁ ++ other :: w₂)
        [.branch keyword condition yes (some no)]
  | whileLoop {keyword : Token} {c w : List Token} {condition : Expr} {body : Stmt} {d : Bool}
      (hKeyword : keyword.kind = .whileWord) (hCondition : Condition c condition)
      (hBody : Derives nearest (.statement d) w [body]) :
      Derives nearest (.statement d) (keyword :: c ++ w) [.loop keyword condition body]
  | forLoop {keyword : Token} {c w : List Token} {start : Option Stmt}
      {condition step : Option Expr} {body : Stmt} {d : Bool}
      (hKeyword : keyword.kind = .forWord) (hClauses : Clauses c (start, condition, step))
      (hBody : Derives nearest (.statement d) w [body]) :
      Derives nearest (.statement d) (keyword :: c ++ w)
        [.block keyword.line (start.toList ++
          [.loop keyword (condition.getD (.literal (some (.bool true)) keyword.line))
            (.block keyword.line (body :: (step.map Stmt.expr).toList))])]
  | varDecl {var : Token} {w : List Token} {s : Stmt} (hVar : var.kind = .varWord)
      (h : Variable w s) : Derives nearest .declaration (var :: w) [s]
  | statement {w : List Token} {s : Stmt} {d : Bool}
      (h : Derives nearest (.statement d) w [s]) : Derives nearest .declaration w [s]
  | nil : Derives nearest .declarations [] []
  | cons {w₁ w₂ : List Token} {s : Stmt} {body : List Stmt}
      (hHead : Derives nearest .declaration w₁ [s])
      (hTail : Derives nearest .declarations w₂ body) :
      Derives nearest .declarations (w₁ ++ w₂) (s :: body)

end Stmt

def exprStarts : List Kind :=
  [.number, .string, .trueWord, .falseWord, .nilWord, .identifier, .leftParen, .bang, .minus]

/-- An expression begins with one of the kinds that can begin one. -/
theorem Expr.Derives.exists_cons {rank : Rank} {w : List Token} {e : Expr}
    (h : Expr.Derives rank w e) : ∃ t w', w = t :: w' ∧ t.kind ∈ exprStarts := by
  induction h with
  | @assign target equal w _ hTarget => exact ⟨target, equal :: w, rfl, by simp [hTarget, exprStarts]⟩
  | loosest _ ih => exact ih
  | operand _ ih => exact ih
  | @chain _ _ _ w₂ _ _ op _ _ _ ih =>
      obtain ⟨t, w', rfl, hStarts⟩ := ih
      exact ⟨t, w' ++ op :: w₂, rfl, hStarts⟩
  | @unary op w _ hOp =>
      refine ⟨op, w, rfl, ?_⟩
      rcases hOp with h | h <;> simp [h, exprStarts]
  | primary _ ih => exact ih
  | @literal t hKind =>
      refine ⟨t, [], rfl, ?_⟩
      rcases hKind with h | h | h | h | h <;> simp [h, exprStarts]
  | @name t hKind => exact ⟨t, [], rfl, by simp [hKind, exprStarts]⟩
  | @group opening closing w _ hOpening =>
      exact ⟨opening, w ++ [closing], rfl, by simp [hOpening, exprStarts]⟩

/-- Before a token that cannot go on an expression, the reader takes exactly an expression. -/
theorem Expr.reads_read_before {ts rest : List Token} {e : Expr} {t : Token}
    (h : t.kind.EndsExpr) :
    (Expr.read ts).Reads e (t :: rest) ↔
      ∃ w, ts = w ++ t :: rest ∧ Expr.Derives .expression w e := by
  rw [Expr.reads_read_iff]
  constructor
  · rintro ⟨w, hTokens, hDerives, _⟩
    exact ⟨w, hTokens, hDerives⟩
  · rintro ⟨w, hTokens, hDerives⟩
    exact ⟨w, hTokens, hDerives, h⟩

theorem Kind.endsExpr_semicolon : Kind.EndsExpr .semicolon :=
  ⟨fun level _ => by cases level <;> decide, by decide⟩

theorem Kind.endsExpr_rightParen : Kind.EndsExpr .rightParen :=
  ⟨fun level _ => by cases level <;> decide, by decide⟩

namespace Stmt

open Reading (token ahead)

/-- An expression statement is an expression and a semicolon. -/
theorem reads_readExpr {ts rest : List Token} {s : Stmt} :
    (readExpr ts).Reads s rest ↔ ∃ w, ts = w ++ rest ∧ Simple w s := by
  simp only [readExpr, Reading.reads_andThen, exists_prop, Reading.reads_map, Reading.reads_token]
  constructor
  · rintro ⟨e, _, hExpr, t, ⟨rfl, hKind⟩, rfl⟩
    obtain ⟨w, rfl, hDerives⟩ :=
      (Expr.reads_read_before (hKind ▸ Kind.endsExpr_semicolon)).mp hExpr
    exact ⟨w ++ [t], by simp, .mk hDerives hKind⟩
  · rintro ⟨_, rfl, ⟨hDerives, hKind⟩⟩
    rename_i t w e
    refine ⟨e, t :: rest, ?_, t, ⟨rfl, hKind⟩, rfl⟩
    exact (Expr.reads_read_before (hKind ▸ Kind.endsExpr_semicolon)).mpr ⟨w, by simp, hDerives⟩

/-- A declaration is a name, perhaps a value, and a semicolon. -/
theorem reads_readVariable {ts rest : List Token} {s : Stmt} :
    (readVariable ts).Reads s rest ↔ ∃ w, ts = w ++ rest ∧ Variable w s := by
  simp only [readVariable, Reading.reads_andThen, Reading.reads_token]
  constructor
  · rintro ⟨name, middle, ⟨rfl, hName⟩, hReads⟩
    cases middle with
    | nil => simp at hReads
    | cons t middle' =>
      dsimp only at hReads
      split at hReads
      next hEqual =>
        simp only [Reading.reads_weaken, Reading.reads_andThen, exists_prop, Reading.reads_map,
          Reading.reads_token] at hReads
        obtain ⟨value, _, hValue, semicolon, ⟨rfl, hKind⟩, rfl⟩ := hReads
        obtain ⟨w, rfl, hDerives⟩ :=
          (Expr.reads_read_before (hKind ▸ Kind.endsExpr_semicolon)).mp hValue
        exact ⟨name :: t :: w ++ [semicolon], by simp, .initialized hName hEqual hDerives hKind⟩
      next hEqual =>
        simp only [Reading.reads_map, Reading.reads_token] at hReads
        obtain ⟨semicolon, ⟨hTokens, hKind⟩, rfl⟩ := hReads
        exact ⟨[name, semicolon], by simp [hTokens], .bare hName hKind⟩
  · rintro ⟨_, rfl, hVariable⟩
    cases hVariable with
    | @bare name semicolon hName hKind =>
        refine ⟨name, semicolon :: rest, ⟨rfl, hName⟩, ?_⟩
        simp [hKind]
    | @initialized name equal semicolon w value hName hEqual hDerives hKind =>
        refine ⟨name, equal :: (w ++ semicolon :: rest), ⟨by simp, hName⟩, ?_⟩
        simp only [hEqual, ↓reduceIte, Reading.reads_weaken, Reading.reads_andThen, exists_prop,
          Reading.reads_map, Reading.reads_token]
        refine ⟨value, semicolon :: rest, ?_, semicolon, ⟨rfl, hKind⟩, rfl⟩
        exact (Expr.reads_read_before (hKind ▸ Kind.endsExpr_semicolon)).mpr ⟨w, rfl, hDerives⟩

theorem reads_readPrint {keyword : Token} {ts rest : List Token} {s : Stmt} :
    (readPrint keyword ts).Reads s rest ↔
      ∃ w e semicolon, ts = w ++ semicolon :: rest ∧ Expr.Derives .expression w e ∧
        semicolon.kind = .semicolon ∧ s = .print keyword e := by
  simp only [readPrint, Reading.reads_andThen, exists_prop, Reading.reads_map, Reading.reads_token]
  constructor
  · rintro ⟨e, _, hExpr, t, ⟨rfl, hKind⟩, rfl⟩
    obtain ⟨w, rfl, hDerives⟩ :=
      (Expr.reads_read_before (hKind ▸ Kind.endsExpr_semicolon)).mp hExpr
    exact ⟨w, e, t, rfl, hDerives, hKind, rfl⟩
  · rintro ⟨w, e, t, rfl, hDerives, hKind, rfl⟩
    refine ⟨e, t :: rest, ?_, t, ⟨rfl, hKind⟩, rfl⟩
    exact (Expr.reads_read_before (hKind ▸ Kind.endsExpr_semicolon)).mpr ⟨w, rfl, hDerives⟩

/-- A condition is an expression in parentheses. -/
theorem reads_readCondition {word what : String} {ts rest : List Token} {e : Expr} :
    (readCondition word what ts).Reads e rest ↔ ∃ w, ts = w ++ rest ∧ Condition w e := by
  simp only [readCondition, Reading.reads_andThen, exists_prop, Reading.reads_map, Reading.reads_token]
  constructor
  · rintro ⟨opening, _, ⟨rfl, hOpening⟩, e', _, hExpr, closing, ⟨rfl, hClosing⟩, rfl⟩
    obtain ⟨w, rfl, hDerives⟩ :=
      (Expr.reads_read_before (hClosing ▸ Kind.endsExpr_rightParen)).mp hExpr
    exact ⟨opening :: w ++ [closing], by simp, .mk hOpening hDerives hClosing⟩
  · rintro ⟨_, rfl, ⟨hOpening, hDerives, hClosing⟩⟩
    rename_i opening closing w
    refine ⟨opening, w ++ closing :: rest, ⟨by simp, hOpening⟩, e, closing :: rest, ?_, closing,
      ⟨rfl, hClosing⟩, rfl⟩
    exact (Expr.reads_read_before (hClosing ▸ Kind.endsExpr_rightParen)).mpr ⟨w, rfl, hDerives⟩

/-- A counting loop starts with a declaration, an expression or nothing. -/
theorem reads_readStart {ts rest : List Token} {start : Option Stmt} :
    (readStart ts).Reads start rest ↔ ∃ w, ts = w ++ rest ∧ Start w start := by
  constructor
  · intro hReads
    unfold readStart at hReads
    split at hReads
    next =>
      simp only [Reading.reads_map, reads_readExpr] at hReads
      obtain ⟨s, ⟨w, hTokens, hSimple⟩, rfl⟩ := hReads
      exact ⟨w, hTokens, .expression hSimple⟩
    next t middle =>
      split at hReads
      next hSemicolon =>
        simp only [Reading.reads_done] at hReads
        obtain ⟨rfl, rfl⟩ := hReads
        exact ⟨[t], rfl, .missing hSemicolon⟩
      next =>
        split at hReads
        next hVar =>
          simp only [Reading.reads_weaken, Reading.reads_map, reads_readVariable] at hReads
          obtain ⟨s, ⟨w, rfl, hVariable⟩, rfl⟩ := hReads
          exact ⟨t :: w, rfl, .declaration hVar hVariable⟩
        next =>
          simp only [Reading.reads_map, reads_readExpr] at hReads
          obtain ⟨s, ⟨w, hTokens, hSimple⟩, rfl⟩ := hReads
          exact ⟨w, hTokens, .expression hSimple⟩
  · rintro ⟨w, rfl, hStart⟩
    cases hStart with
    | missing hSemicolon => simp [readStart, hSemicolon]
    | @declaration _ w s hVar hVariable =>
        simp only [readStart, List.cons_append, hVar, reduceCtorEq, ↓reduceIte,
          Reading.reads_weaken, Reading.reads_map, reads_readVariable]
        exact ⟨s, ⟨w, rfl, hVariable⟩, rfl⟩
    | @expression _ s hSimple =>
        have hReads : (readExpr (w ++ rest)).Reads s rest := reads_readExpr.mpr ⟨w, rfl, hSimple⟩
        cases hSimple with
        | @mk semicolon w e hDerives hKind =>
            obtain ⟨t, w', rfl, hStarts⟩ := hDerives.exists_cons
            have hNotSemicolon : t.kind ≠ .semicolon := by
              intro h
              simp [h, exprStarts] at hStarts
            have hNotVar : t.kind ≠ .varWord := by
              intro h
              simp [h, exprStarts] at hStarts
            simp only [readStart, List.cons_append, hNotSemicolon, hNotVar, ↓reduceIte,
              Reading.reads_map]
            exact ⟨_, hReads, rfl⟩

theorem reads_readClause {delimiter : Kind} {after : String} {ts rest : List Token}
    {clause : Option Expr} (hEnds : delimiter.EndsExpr) (hStarts : delimiter ∉ exprStarts) :
    (readClause delimiter after ts).Reads clause rest ↔
      ∃ w, ts = w ++ rest ∧ Clause delimiter w clause := by
  unfold readClause
  split
  next hAhead =>
    simp only [Reading.reads_map, Reading.reads_token]
    constructor
    · rintro ⟨t, ⟨rfl, hKind⟩, rfl⟩
      exact ⟨[t], rfl, .missing hKind⟩
    · rintro ⟨_, rfl, hClause⟩
      cases hClause with
      | missing hKind => exact ⟨_, ⟨rfl, hKind⟩, rfl⟩
      | expression hDerives =>
          obtain ⟨t, w', rfl, hMem⟩ := hDerives.exists_cons
          exact absurd (hAhead ▸ hMem) hStarts
  next hAhead =>
    simp only [Reading.reads_andThen, exists_prop, Reading.reads_map, Reading.reads_token]
    constructor
    · rintro ⟨e, _, hExpr, t, ⟨rfl, hKind⟩, rfl⟩
      obtain ⟨w, rfl, hDerives⟩ := (Expr.reads_read_before (hKind ▸ hEnds)).mp hExpr
      exact ⟨w ++ [t], by simp, .expression hDerives hKind⟩
    · rintro ⟨_, rfl, hClause⟩
      cases hClause with
      | missing hKind => exact absurd hKind hAhead
      | @expression t w e hDerives hKind =>
          refine ⟨e, t :: rest, ?_, t, ⟨rfl, hKind⟩, rfl⟩
          exact (Expr.reads_read_before (hKind ▸ hEnds)).mpr ⟨w, by simp, hDerives⟩

/-- A counting loop has three clauses in parentheses. -/
theorem reads_readClauses {ts rest : List Token}
    {clauses : Option Stmt × Option Expr × Option Expr} :
    (readClauses ts).Reads clauses rest ↔ ∃ w, ts = w ++ rest ∧ Clauses w clauses := by
  simp only [readClauses, Reading.reads_andThen, exists_prop, Reading.reads_map, Reading.reads_token,
    reads_readStart, reads_readClause Kind.endsExpr_semicolon (by decide),
    reads_readClause Kind.endsExpr_rightParen (by decide)]
  constructor
  · rintro ⟨opening, _, ⟨rfl, hOpening⟩, start, _, ⟨w₁, rfl, hStart⟩, condition, _,
      ⟨w₂, rfl, hCondition⟩, step, ⟨w₃, rfl, hStep⟩, rfl⟩
    exact ⟨opening :: w₁ ++ w₂ ++ w₃, by simp, .mk hOpening hStart hCondition hStep⟩
  · rintro ⟨_, rfl, ⟨hOpening, hStart, hCondition, hStep⟩⟩
    rename_i opening w₁ w₂ w₃ start condition step
    exact ⟨opening, w₁ ++ (w₂ ++ (w₃ ++ rest)), ⟨by simp, hOpening⟩, start, w₂ ++ (w₃ ++ rest),
      ⟨w₁, rfl, hStart⟩, condition, w₃ ++ rest, ⟨w₂, rfl, hCondition⟩, step, ⟨w₃, rfl, hStep⟩,
      rfl⟩

/-- A statement that is dangling is not followed by an `else`. -/
def NoElse (d : Bool) (rest : List Token) : Prop := d = true → ahead rest ≠ .elseWord

mutual

/-- What is read as a declaration is one of the grammar. -/
theorem derives_of_readDeclaration {ts rest : List Token} {s : Stmt}
    (h : (readDeclaration ts).Reads s rest) :
    ∃ w, ts = w ++ rest ∧ Derives true .declaration w [s] := by
  rw [readDeclaration.eq_def] at h
  split at h
  next =>
    obtain ⟨w, d, hTokens, hDerives, _⟩ := derives_of_read h
    exact ⟨w, hTokens, .statement hDerives⟩
  next t middle =>
    split at h
    next hVar =>
      rw [Reading.reads_weaken, reads_readVariable] at h
      obtain ⟨w, rfl, hVariable⟩ := h
      exact ⟨t :: w, rfl, .varDecl hVar hVariable⟩
    next =>
      obtain ⟨w, d, hTokens, hDerives, _⟩ := derives_of_read h
      exact ⟨w, hTokens, .statement hDerives⟩
termination_by ts.length * 4 + 1

/-- What is read as a statement is one of the grammar, and takes up an `else` that may follow. -/
theorem derives_of_read {ts rest : List Token} {s : Stmt} (h : (read ts).Reads s rest) :
    ∃ w d, ts = w ++ rest ∧ Derives true (.statement d) w [s] ∧ NoElse d rest := by
  rw [read.eq_def] at h
  split at h
  next =>
    obtain ⟨w, hTokens, hSimple⟩ := reads_readExpr.mp h
    exact ⟨w, false, hTokens, .expr hSimple, by simp [NoElse]⟩
  next t middle =>
    split at h
    next hKind =>
      rw [Reading.reads_weaken, reads_readPrint] at h
      obtain ⟨w, e, semicolon, rfl, hDerives, hSemicolon, rfl⟩ := h
      exact ⟨t :: w ++ [semicolon], false, by simp, .print hKind hDerives hSemicolon,
        by simp [NoElse]⟩
    next hKind =>
      simp only [Reading.reads_weaken, Reading.reads_map] at h
      obtain ⟨body, hBody, rfl⟩ := h
      obtain ⟨w, closing, rfl, hDerives, hClosing⟩ := derives_of_readBody hBody
      exact ⟨t :: w ++ [closing], false, by simp, .block hKind hDerives hClosing,
        by simp [NoElse]⟩
    next hKind =>
      simp only [Reading.reads_weaken, Reading.reads_andThen, reads_readCondition] at h
      obtain ⟨condition, middle₁, ⟨c, rfl, hCondition⟩, h⟩ := h
      rw [Reading.reads_andPerhaps] at h
      obtain ⟨yes, middle₂, hYes, h⟩ := h
      obtain ⟨w₁, d₁, rfl, hDerives₁, hNoElse₁⟩ := derives_of_read hYes
      cases middle₂ with
      | nil =>
          simp only [Reading.reads_done] at h
          obtain ⟨rfl, rfl⟩ := h
          exact ⟨t :: c ++ w₁, true, by simp, .ifThen hKind hCondition hDerives₁,
            by simp [NoElse, ahead]⟩
      | cons other middle₃ =>
          dsimp only at h
          split at h
          next hOther =>
            simp only [Reading.reads_weaken, Reading.reads_map] at h
            obtain ⟨no, hNo, rfl⟩ := h
            obtain ⟨w₂, d₂, rfl, hDerives₂, hNoElse₂⟩ := derives_of_read hNo
            -- a dangling branch would have taken this `else` itself
            have hClosed : d₁ = false := by
              cases d₁ with
              | false => rfl
              | true => exact absurd hOther (hNoElse₁ rfl)
            exact ⟨t :: c ++ w₁ ++ other :: w₂, d₂, by simp,
              .ifElse hKind hCondition hDerives₁ (fun _ => hClosed) hOther hDerives₂, hNoElse₂⟩
          next hOther =>
            simp only [Reading.reads_done] at h
            obtain ⟨rfl, rfl⟩ := h
            exact ⟨t :: c ++ w₁, true, by simp, .ifThen hKind hCondition hDerives₁,
              fun _ => hOther⟩
    next hKind =>
      simp only [Reading.reads_weaken, Reading.reads_andThen, Reading.reads_map,
        reads_readCondition] at h
      obtain ⟨condition, middle₁, ⟨c, rfl, hCondition⟩, body, hBody, rfl⟩ := h
      obtain ⟨w, d, rfl, hDerives, hNoElse⟩ := derives_of_read hBody
      exact ⟨t :: c ++ w, d, by simp, .whileLoop hKind hCondition hDerives, hNoElse⟩
    next hKind =>
      simp only [Reading.reads_weaken, Reading.reads_andThen, Reading.reads_map,
        reads_readClauses] at h
      obtain ⟨⟨start, condition, step⟩, middle₁, ⟨c, rfl, hClauses⟩, body, hBody, rfl⟩ := h
      obtain ⟨w, d, rfl, hDerives, hNoElse⟩ := derives_of_read hBody
      exact ⟨t :: c ++ w, d, by simp, .forLoop hKind hClauses hDerives, hNoElse⟩
    next =>
      obtain ⟨w, hTokens, hSimple⟩ := reads_readExpr.mp h
      exact ⟨w, false, hTokens, .expr hSimple, by simp [NoElse]⟩
termination_by ts.length * 4

/-- What is read as the body of a block are declarations of the grammar. -/
theorem derives_of_readBody {ts rest : List Token} {body : List Stmt}
    (h : (readBody ts).Reads body rest) :
    ∃ w closing, ts = w ++ closing :: rest ∧ Derives true .declarations w body ∧
      closing.kind = .rightBrace := by
  rw [readBody.eq_def] at h
  split at h
  next => simp at h
  next t middle =>
    split at h
    next hClosing =>
      simp only [Reading.reads_done] at h
      obtain ⟨rfl, rfl⟩ := h
      exact ⟨[], t, rfl, .nil, hClosing⟩
    next =>
      split at h
      next => simp at h
      next =>
        simp only [Reading.reads_andThen, Reading.reads_map] at h
        obtain ⟨s, middle₁, hHead, body', hTail, rfl⟩ := h
        have hLength := hHead.length_lt
        obtain ⟨w₁, hTokens, hDerives₁⟩ := derives_of_readDeclaration hHead
        obtain ⟨w₂, closing, rfl, hDerives₂, hClosing⟩ := derives_of_readBody hTail
        exact ⟨w₁ ++ w₂, closing, by simp [hTokens], .cons hDerives₁ hDerives₂, hClosing⟩
termination_by ts.length * 4 + 2

end

def declarationStarts : List Kind :=
  exprStarts ++ [.printWord, .leftBrace, .ifWord, .whileWord, .forWord, .varWord]

/-- An expression statement begins like an expression. -/
theorem Simple.exists_cons {w : List Token} {s : Stmt} (h : Simple w s) :
    ∃ t w', w = t :: w' ∧ t.kind ∈ exprStarts := by
  cases h with
  | @mk semicolon w e hDerives _ =>
      obtain ⟨t, w', rfl, hStarts⟩ := hDerives.exists_cons
      exact ⟨t, w' ++ [semicolon], rfl, hStarts⟩

/-- A statement or declaration begins with one of the kinds that can begin one. -/
theorem Derives.exists_cons {nearest : Bool} {part : Part} {w : List Token} {ss : List Stmt}
    (h : Derives nearest part w ss) (hPart : part ≠ .declarations) :
    ∃ t w', w = t :: w' ∧ t.kind ∈ declarationStarts := by
  induction h with
  | expr hSimple =>
      obtain ⟨t, w', rfl, hStarts⟩ := hSimple.exists_cons
      exact ⟨t, w', rfl, List.mem_append_left _ hStarts⟩
  | print hKeyword => exact ⟨_, _, rfl, by simp [hKeyword, declarationStarts]⟩
  | block hOpening => exact ⟨_, _, rfl, by simp [hOpening, declarationStarts]⟩
  | ifThen hKeyword => exact ⟨_, _, rfl, by simp [hKeyword, declarationStarts]⟩
  | ifElse hKeyword => exact ⟨_, _, rfl, by simp [hKeyword, declarationStarts]⟩
  | whileLoop hKeyword => exact ⟨_, _, rfl, by simp [hKeyword, declarationStarts]⟩
  | forLoop hKeyword => exact ⟨_, _, rfl, by simp [hKeyword, declarationStarts]⟩
  | varDecl hVar => exact ⟨_, _, rfl, by simp [hVar, declarationStarts]⟩
  | statement _ ih => exact ih (by simp)
  | nil => exact absurd rfl hPart
  | cons => exact absurd rfl hPart

/-- Only a declaration begins with the word `var`. -/
theorem Derives.ahead_ne_var {nearest d : Bool} {w : List Token} {ss : List Stmt}
    (h : Derives nearest (.statement d) w ss) (rest : List Token) :
    ahead (w ++ rest) ≠ .varWord := by
  cases h with
  | expr hSimple =>
      obtain ⟨t, w', rfl, hStarts⟩ := hSimple.exists_cons
      intro hVar
      simp only [List.cons_append, Reading.ahead_cons] at hVar
      simp [hVar, exprStarts] at hStarts
  | print hKeyword => simp [hKeyword]
  | block hOpening => simp [hOpening]
  | ifThen hKeyword => simp [hKeyword]
  | ifElse hKeyword => simp [hKeyword]
  | whileLoop hKeyword => simp [hKeyword]
  | forLoop hKeyword => simp [hKeyword]

theorem read_of_exprStarts {t : Token} (h : t.kind ∈ exprStarts) (ts : List Token) :
    read (t :: ts) = readExpr (t :: ts) := by
  rw [read.eq_def]
  dsimp only
  split <;> first | rfl | simp_all [exprStarts]

theorem readDeclaration_of_ne_var {ts : List Token} (h : ahead ts ≠ .varWord) :
    readDeclaration ts = read ts := by
  rw [readDeclaration.eq_def]
  cases ts with
  | nil => rfl
  | cons t ts =>
      dsimp only
      rw [if_neg (by simpa using h)]

/-- What a derivation promises about the reader of its nonterminal. -/
def IsRead : Part → List Token → List Stmt → Prop
  | .statement d, w, ss => ∀ s rest, ss = [s] → NoElse d rest → (read (w ++ rest)).Reads s rest
  | .declaration, w, ss => ∀ s rest, ss = [s] → ahead rest ≠ .elseWord →
      (readDeclaration (w ++ rest)).Reads s rest
  | .declarations, w, body => ∀ closing rest, closing.kind = .rightBrace →
      (readBody (w ++ closing :: rest)).Reads body rest

/-- No declaration begins with `else`. -/
theorem ahead_declarations_ne_else {nearest : Bool} {w : List Token} {body : List Stmt}
    (h : Derives nearest .declarations w body) {rest : List Token}
    (hRest : ahead rest ≠ .elseWord) : ahead (w ++ rest) ≠ .elseWord := by
  cases h with
  | nil => exact hRest
  | cons hHead =>
      obtain ⟨t, w', rfl, hStarts⟩ := hHead.exists_cons (by simp)
      intro hElse
      simp only [List.cons_append, Reading.ahead_cons] at hElse
      simp [hElse, declarationStarts, exprStarts] at hStarts

/-- Every phrase of the grammar is read as the trees of its derivation. -/
theorem Derives.isRead {part : Part} {w : List Token} {ss : List Stmt}
    (h : Derives true part w ss) : IsRead part w ss := by
  induction h with
  | @expr w s hSimple =>
      rintro _ rest ⟨⟩ _
      have hReads : (readExpr (w ++ rest)).Reads s rest := reads_readExpr.mpr ⟨w, rfl, hSimple⟩
      obtain ⟨t, w', rfl, hStarts⟩ := hSimple.exists_cons
      rw [List.cons_append, read_of_exprStarts hStarts]
      exact hReads
  | @print keyword semicolon w e hKeyword hDerives hSemicolon =>
      rintro _ rest ⟨⟩ _
      rw [read.eq_def]
      simp only [List.cons_append, hKeyword, Reading.reads_weaken, reads_readPrint]
      exact ⟨w, e, semicolon, by simp, hDerives, hSemicolon, rfl⟩
  | @block opening closing w body hOpening _ hClosing ih =>
      rintro _ rest ⟨⟩ _
      rw [read.eq_def]
      simp only [List.cons_append, hOpening, Reading.reads_weaken, Reading.reads_map]
      refine ⟨body, ?_, rfl⟩
      rw [List.append_assoc]
      exact ih closing rest hClosing
  | @ifThen keyword c w condition yes d hKeyword hCondition _ ih =>
      rintro _ rest ⟨⟩ hNoElse
      have hYes := ih yes rest rfl (fun _ => hNoElse rfl)
      rw [read.eq_def]
      simp only [List.cons_append, hKeyword, Reading.reads_weaken, Reading.reads_andThen,
        reads_readCondition]
      refine ⟨condition, w ++ rest, ⟨c, by simp, hCondition⟩, ?_⟩
      rw [Reading.reads_andPerhaps]
      refine ⟨yes, rest, hYes, ?_⟩
      cases rest with
      | nil => simp
      | cons other rest =>
          have hOther : other.kind ≠ .elseWord := hNoElse rfl
          simp [hOther]
  | @ifElse keyword other c w₁ w₂ condition yes no d₁ d₂ hKeyword hCondition _ hNearest hOther _
      ihYes ihNo =>
      rintro _ rest ⟨⟩ hNoElse
      -- what stands before the `else` does not dangle, so reading it leaves the `else`
      have hYes := ihYes yes (other :: (w₂ ++ rest)) rfl (by simp [NoElse, hNearest rfl])
      have hNo := ihNo no rest rfl hNoElse
      rw [read.eq_def]
      simp only [List.cons_append, hKeyword, Reading.reads_weaken, Reading.reads_andThen,
        reads_readCondition]
      refine ⟨condition, w₁ ++ other :: (w₂ ++ rest), ⟨c, by simp, hCondition⟩, ?_⟩
      rw [Reading.reads_andPerhaps]
      refine ⟨yes, other :: (w₂ ++ rest), hYes, ?_⟩
      dsimp only
      rw [if_pos hOther]
      simp only [Reading.reads_weaken, Reading.reads_map]
      exact ⟨no, hNo, rfl⟩
  | @whileLoop keyword c w condition body d hKeyword hCondition _ ih =>
      rintro _ rest ⟨⟩ hNoElse
      rw [read.eq_def]
      simp only [List.cons_append, hKeyword, Reading.reads_weaken, Reading.reads_andThen,
        Reading.reads_map, reads_readCondition]
      exact ⟨condition, w ++ rest, ⟨c, by simp, hCondition⟩, body, ih body rest rfl hNoElse, rfl⟩
  | @forLoop keyword c w start condition step body d hKeyword hClauses _ ih =>
      rintro _ rest ⟨⟩ hNoElse
      rw [read.eq_def]
      simp only [List.cons_append, hKeyword, Reading.reads_weaken, Reading.reads_andThen,
        Reading.reads_map, reads_readClauses]
      exact ⟨(start, condition, step), w ++ rest, ⟨c, by simp, hClauses⟩, body,
        ih body rest rfl hNoElse, rfl⟩
  | @varDecl var w s hVar hVariable =>
      rintro _ rest ⟨⟩ _
      rw [readDeclaration.eq_def]
      simp only [List.cons_append, hVar, ↓reduceIte, Reading.reads_weaken, reads_readVariable]
      exact ⟨w, rfl, hVariable⟩
  | @statement w s d hDerives ih =>
      rintro _ rest ⟨⟩ hNoElse
      rw [readDeclaration_of_ne_var (hDerives.ahead_ne_var rest)]
      exact ih s rest rfl (fun _ => hNoElse)
  | nil =>
      intro closing rest hClosing
      rw [readBody.eq_def]
      simp [hClosing]
  | @cons w₁ w₂ s body hHead hTail ihHead ihTail =>
      intro closing rest hClosing
      have hReads := ihHead s (w₂ ++ closing :: rest) rfl
        (ahead_declarations_ne_else hTail (by simp [hClosing]))
      rw [List.append_assoc]
      obtain ⟨t, w', rfl, hStarts⟩ := hHead.exists_cons (by simp)
      -- a token that begins a declaration does not end the body
      have hNotClosing : t.kind ≠ .rightBrace := by
        intro h
        simp [h, declarationStarts, exprStarts] at hStarts
      have hNotEnd : t.kind ≠ .eof := by
        intro h
        simp [h, declarationStarts, exprStarts] at hStarts
      rw [readBody.eq_def]
      simp only [List.cons_append, hNotClosing, hNotEnd, ↓reduceIte, Reading.reads_andThen,
        Reading.reads_map]
      exact ⟨s, w₂ ++ closing :: rest, hReads, body, ihTail closing rest hClosing, rfl⟩

end Stmt
end Lox
