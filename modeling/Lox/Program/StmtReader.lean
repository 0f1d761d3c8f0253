import Lox.Program.ExprReader

/-! Reading statements and whole programs. A declaration that cannot be read is reported, and
reading goes on where the next statement seems to begin. -/
namespace Lox

namespace Stmt

open Reading (token ahead)

def readExpr (ts : List Token) : Reading Stmt ts.length :=
  (Expr.read ts).andThen fun e rest _ =>
    (token .semicolon (.delimiter .semicolon "expression") rest).map fun _ => .expr e

/-- What follows the word `var`. -/
def readVariable (ts : List Token) : Reading Stmt ts.length :=
  (token .identifier .variableName ts).andThen fun name rest _ =>
    match rest with
    | [] => Reading.refuse (.delimiter .semicolon "variable declaration") []
    | t :: rest =>
      if t.kind = .equal then
        ((Expr.read rest).andThen fun value rest _ =>
          (token .semicolon (.delimiter .semicolon "variable declaration") rest).map fun _ =>
            Stmt.declare name.lexeme name (some value)).weaken (Nat.le_succ _)
      else
        (token .semicolon (.delimiter .semicolon "variable declaration") (t :: rest)).map fun _ =>
          .declare name.lexeme name none

def readPrint (keyword : Token) (ts : List Token) : Reading Stmt ts.length :=
  (Expr.read ts).andThen fun e rest _ =>
    (token .semicolon (.delimiter .semicolon "value") rest).map fun _ => .print keyword e

/-- A condition in parentheses after the word `word`; `what` names it where its end is missing. -/
def readCondition (word what : String) (ts : List Token) : Reading Expr ts.length :=
  (token .leftParen (.delimiter .leftParen word) ts).andThen fun _ rest _ =>
    (Expr.read rest).andThen fun condition rest _ =>
      (token .rightParen (.delimiter .rightParen what) rest).map fun _ => condition

def readStart (ts : List Token) : Reading (Option Stmt) ts.length :=
  match ts with
  | [] => (readExpr []).map some
  | t :: rest =>
    if t.kind = .semicolon then .done none rest (Reading.length_tail_lt t rest)
    else if t.kind = .varWord then ((readVariable rest).map some).weaken (Nat.le_succ _)
    else (readExpr (t :: rest)).map some

/-- An expression that may be missing, and the delimiter after it. -/
def readClause (delimiter : Kind) (after : String) (ts : List Token) :
    Reading (Option Expr) ts.length :=
  if ahead ts = delimiter then (token delimiter (.delimiter delimiter after) ts).map fun _ => none
  else (Expr.read ts).andThen fun e rest _ =>
    (token delimiter (.delimiter delimiter after) rest).map fun _ => some e

def readClauses (ts : List Token) :
    Reading (Option Stmt × Option Expr × Option Expr) ts.length :=
  (token .leftParen (.delimiter .leftParen "'for'") ts).andThen fun _ rest _ =>
    (readStart rest).andThen fun start rest _ =>
      (readClause .semicolon "loop condition" rest).andThen fun condition rest _ =>
        (readClause .rightParen "for clauses" rest).map fun step => (start, condition, step)

mutual

def readDeclaration (ts : List Token) : Reading Stmt ts.length :=
  match ts with
  | [] => read []
  | t :: rest =>
    if t.kind = .varWord then (readVariable rest).weaken (Nat.le_succ _) else read (t :: rest)
termination_by ts.length * 4 + 1
decreasing_by all_goals simp only [List.length_cons, List.length_nil]; omega

/-- A statement. An `else` belongs to the nearest `if` that has none yet. -/
def read (ts : List Token) : Reading Stmt ts.length :=
  match ts with
  | [] => readExpr []
  | t :: rest =>
    match t.kind with
    | .printWord => (readPrint t rest).weaken (Nat.le_succ _)
    | .leftBrace => ((readBody rest).map (Stmt.block t.line)).weaken (Nat.le_succ _)
    | .ifWord =>
      ((readCondition "'if'" "if condition" rest).andThen fun condition rest' _ =>
        (read rest').andPerhaps fun yes rest'' _ =>
          match rest'' with
          | [] => .done (.branch t condition yes none) [] (Nat.lt_succ_self _)
          | e :: rest''' =>
            if e.kind = .elseWord then
              ((read rest''').map fun no => Stmt.branch t condition yes (some no)).weaken
                (Nat.le_succ_of_le (Nat.le_succ _))
            else .done (.branch t condition yes none) (e :: rest''') (Nat.lt_succ_self _)).weaken
        (Nat.le_succ _)
    | .whileWord =>
      ((readCondition "'while'" "condition" rest).andThen fun condition rest' _ =>
        (read rest').map fun body => .loop t condition body).weaken (Nat.le_succ _)
    | .forWord =>
      ((readClauses rest).andThen fun (start, condition, step) rest' _ =>
        (read rest').map fun body => .counting t start condition step body).weaken (Nat.le_succ _)
    | _ => readExpr (t :: rest)
termination_by ts.length * 4
decreasing_by all_goals simp_all only [List.length_cons]; omega

/-- The declarations of a block up to and with its closing brace. -/
def readBody (ts : List Token) : Reading (List Stmt) ts.length :=
  match ts with
  | [] => Reading.refuse (.delimiter .rightBrace "block") []
  | t :: rest =>
    if t.kind = .rightBrace then .done [] rest (Nat.lt_succ_self _)
    else if t.kind = .eof then Reading.refuse (.delimiter .rightBrace "block") (t :: rest)
    else (readDeclaration (t :: rest)).andThen fun s rest' _ =>
      (readBody rest').map fun body => s :: body
termination_by ts.length * 4 + 2
decreasing_by all_goals simp_all only [List.length_cons]; omega

end

end Stmt

namespace Program

/-- The words that begin a statement, where reading can go on after a failure. -/
def statementWords : List Kind :=
  [.classWord, .funWord, .varWord, .forWord, .ifWord, .whileWord, .printWord, .returnWord]

/-- The tokens from the next statement boundary: just after a semicolon or just before a word that
begins a statement. `last` is the token before them. -/
def boundary (last : Token) : List Token → List Token
  | [] => []
  | t :: rest =>
    if t.kind = .eof ∨ last.kind = .semicolon ∨ t.kind ∈ statementWords then t :: rest
    else boundary t rest

/-- The tokens at which reading goes on after a failure. At least one token is given up. -/
def recover : List Token → List Token
  | [] => []
  | t :: rest => boundary t rest

theorem length_boundary (last : Token) (ts : List Token) :
    (boundary last ts).length ≤ ts.length := by
  induction ts generalizing last with
  | nil => simp [boundary]
  | cons t rest ih =>
    simp only [boundary]
    split
    · exact Nat.le_refl _
    · exact Nat.le_succ_of_le (ih t)

theorem length_recover (ts : List Token) : (recover ts).length ≤ ts.length - 1 := by
  cases ts with
  | nil => simp [recover]
  | cons t rest => simpa [recover] using length_boundary t rest

/-- The attempts to read a declaration, from the front of the tokens to the end of the input. -/
def attempts (ts : List Token) : List (Except Problem Stmt) :=
  if _ends : Reading.ahead ts = .eof then []
  else
    match Stmt.readDeclaration ts with
    | .done s rest _ => .ok s :: attempts rest
    | .failed problem rest _ => .error problem :: attempts (recover rest)
termination_by ts.length
decreasing_by
  · assumption
  · have := length_recover rest
    have : 0 < ts.length := by
      cases ts with
      | nil => simp [Reading.ahead] at _ends
      | cons => simp
    omega

/-- The tokens before the end of the input and the line of that end. An end is supplied where the
last token is none. -/
def splitEnd (tokens : List Token) : List Token × Int :=
  match tokens.getLast? with
  | none => ([], 1)
  | some t => if t.kind = .eof then (tokens.dropLast, t.line) else (tokens, t.line)

structure Parse where
  program : Program
  diagnostics : List Diagnostic
  deriving Repr

/-- The program of a list of tokens: the declarations that could be read, and a diagnostic for
each that could not. -/
def ofTokens (tokens : List Token) : Parse :=
  let (ts, last) := splitEnd tokens
  let results := attempts ts
  { program := ⟨results.filterMap fun r => r.toOption⟩
    diagnostics := results.filterMap fun
      | .ok _ => none
      | .error problem => some (problem.diagnostic last) }

/-- The program of a source text. Lexical diagnostics come first. -/
def ofSource (source : Text) : Parse :=
  let scan := Scan.ofSource source
  let parse := ofTokens scan.tokens
  { parse with diagnostics := scan.diagnostics ++ parse.diagnostics }

end Program
end Lox
