import Lox.Program.Printer
import Lox.Proofs.Grammar.Program
import Lox.Proofs.Lexing.Words
import Lox.Proofs.Rewriting

/-! Programs up to what their text does not show. The text of a program shows neither its lines nor
whether a loop was written with `for`, and it has no literal for an infinite number. -/
namespace Lox

def Expr.overflow : Expr :=
  .group (.binary (.literal (some (.number 1)) 0) (Token.read .slash "/" 0)
    (.literal (some (.number 0)) 0))

/-- A value as its text is read back: an infinite number comes back as a division. -/
def Expr.plainLiteral : Slot → Expr
  | some (.number x) =>
    if x.isInf && !Decimal.isNegative x then overflow else .literal (some (.number x)) 0
  | value => .literal value 0

def Stmt.plainWord (keyword : Token) : Token :=
  if keyword.kind = .forWord then Token.read .whileWord "while" 0 else keyword.unlined

namespace Rewriting

def unlined : Rewriting where
  token := Token.unlined
  loopWord := Token.unlined
  line _ := 0
  literal value _ := .literal value 0

/-- Puts everything on line 0 as its text is read back. -/
def plain : Rewriting where
  token := Token.unlined
  loopWord := Stmt.plainWord
  line _ := 0
  literal value _ := Expr.plainLiteral value

@[simp] theorem token_unlined (t : Token) : unlined.token t = t.unlined := rfl
@[simp] theorem loopWord_unlined (t : Token) : unlined.loopWord t = t.unlined := rfl
@[simp] theorem line_unlined (line : Int) : unlined.line line = 0 := rfl
@[simp] theorem literal_unlined (value : Slot) (line : Int) :
    unlined.literal value line = .literal value 0 := rfl

@[simp] theorem token_plain (t : Token) : plain.token t = t.unlined := rfl
@[simp] theorem loopWord_plain (t : Token) : plain.loopWord t = Stmt.plainWord t := rfl
@[simp] theorem line_plain (line : Int) : plain.line line = 0 := rfl
@[simp] theorem literal_plain (value : Slot) (line : Int) :
    plain.literal value line = Expr.plainLiteral value := rfl

end Rewriting

namespace Expr

def unlined (e : Expr) : Expr := e.rewrite .unlined

def plain (e : Expr) : Expr := e.rewrite .plain

/-- A finite number is read back as it is. -/
theorem plainLiteral_of_finite {x : Float} (h : x.isInf = false) :
    plainLiteral (some (.number x)) = .literal (some (.number x)) 0 := by
  simp [plainLiteral, h]

/-- An infinite number is read back as one divided by zero. -/
theorem plainLiteral_of_infinite {x : Float} (h : x.isInf = true)
    (hSign : Decimal.isNegative x = false) : plainLiteral (some (.number x)) = overflow := by
  simp [plainLiteral, h, hSign]

/-- A literal that was read back is on line 0 already. -/
theorem unlined_plainLiteral (value : Slot) : (plainLiteral value).unlined = plainLiteral value := by
  fun_cases plainLiteral value <;> rfl

end Expr

namespace Rewriting

/-- What was read back is on line 0 already. -/
theorem unlined_comp_plain : unlined.comp plain = plain := by
  have hWord : Token.unlined ∘ Stmt.plainWord = Stmt.plainWord := by
    funext t
    simp only [Function.comp, Stmt.plainWord]
    split <;> rfl
  have hLiteral : (fun value (line : Int) => (plain.literal value line).rewrite unlined) =
      plain.literal :=
    funext fun value => funext fun _ => Expr.unlined_plainLiteral value
  rw [comp, hLiteral]
  simp only [unlined, plain, hWord]
  rfl

/-- The rewriting does not show in the text: what a text shows of a token stays, and a literal is
replaced by an operand with its text. -/
structure KeepsText (r : Rewriting) : Prop where
  kind : ∀ t, (r.token t).kind = t.kind
  lexeme : ∀ t, (r.token t).lexeme = t.lexeme
  text : ∀ value line, (r.literal value line).format = Expr.literalText value
  binding : ∀ value line, (r.literal value line).binding = 7

/-- Lines do not show in the text. -/
theorem keepsText_unlined : KeepsText unlined :=
  ⟨fun _ => rfl, fun _ => rfl, fun _ _ => rfl, fun _ _ => rfl⟩

/-- Reading back does not show in the text. -/
theorem keepsText_plain : KeepsText plain := by
  have hOverflow : Expr.overflow.format = "(1 / 0)" := by decide +kernel
  have hLiteral (value : Slot) : (Expr.plainLiteral value).format = Expr.literalText value ∧
      (Expr.plainLiteral value).binding = 7 := by
    fun_cases Expr.plainLiteral value with
    | case1 x h =>
        simp only [Bool.and_eq_true, Bool.not_eq_true'] at h
        refine ⟨?_, rfl⟩
        simp only [hOverflow, Expr.literalText, Decimal.isNaN_of_isInf h.1, h.1, h.2,
          Bool.false_eq_true, ↓reduceIte]
    | case2 x h => exact ⟨rfl, rfl⟩
    | case3 value h => exact ⟨rfl, rfl⟩
  exact ⟨fun _ => rfl, fun _ => rfl, fun value _ => (hLiteral value).1,
    fun value _ => (hLiteral value).2⟩

end Rewriting

namespace Expr

/-- An expression with the same text holds together as tightly. -/
theorem binding_rewrite {r : Rewriting} (h : r.KeepsText) (e : Expr) :
    (e.rewrite r).binding = e.binding := by
  cases e with
  | literal value line => exact h.binding value line
  | binary left op right => exact congrArg Kind.binding (h.kind op)
  | logical left op right => exact congrArg Kind.binding (h.kind op)
  | _ => rfl

/-- The text of an expression does not depend on what does not show in it. -/
theorem format_rewrite {r : Rewriting} (h : r.KeepsText) (e : Expr) :
    (e.rewrite r).format = e.format := by
  induction e with
  | literal value line => exact h.text value line
  | name token => exact h.lexeme token
  | assign target value ih => simp [rewrite, format, ih, h.lexeme]
  | binary left op right ihLeft ihRight =>
      simp [rewrite, format, ihLeft, ihRight, binding_rewrite h, h.lexeme, h.kind]
  | logical left op right ihLeft ihRight =>
      simp [rewrite, format, ihLeft, ihRight, binding_rewrite h, h.lexeme, h.kind]
  | unary op operand ih => simp [rewrite, format, ih, binding_rewrite h, h.lexeme]
  | group inner ih => simp [rewrite, format, ih]

end Expr

namespace Stmt

def unlined (s : Stmt) : Stmt := s.rewrite .unlined

def plain (s : Stmt) : Stmt := s.rewrite .plain

theorem unlined_plain (s : Stmt) : s.plain.unlined = s.plain := by
  rw [plain, unlined, rewrite_rewrite, Rewriting.unlined_comp_plain]

/-- Where a statement is put does not depend on its words. -/
theorem staysOnLine_rewrite (r : Rewriting) (afterElse : Bool) (s : Stmt) :
    (s.rewrite r).staysOnLine afterElse = s.staysOnLine afterElse := by
  cases s with
  | branch keyword condition yes no => cases no <;> rfl
  | _ => rfl

mutual

/-- The text of a statement does not depend on what does not show in it. -/
theorem format_rewrite {r : Rewriting} (h : r.KeepsText) (depth : Nat) :
    (s : Stmt) → (s.rewrite r).format depth = s.format depth
  | .expr e => by simp [rewrite, format, Expr.format_rewrite h]
  | .print _ e => by simp [rewrite, format, Expr.format_rewrite h]
  | .declare _ _ none => by simp [rewrite, format]
  | .declare _ _ (some value) => by simp [rewrite, format, Expr.format_rewrite h]
  | .block _ [] => by simp [rewrite, rewriteAll, format]
  | .block _ (s :: rest) => by
      have hBody := formatLines_rewriteAll h (depth + 1) (s :: rest)
      simp only [rewriteAll] at hBody
      simp [rewrite, rewriteAll, format, hBody]
  | .branch _ condition yes none => by
      simp [rewrite, format, lead, governedDepth, staysOnLine_rewrite, Expr.format_rewrite h,
        format_rewrite h _ yes]
  | .branch _ condition yes (some no) => by
      simp [rewrite, format, lead, governedDepth, elseText, staysOnLine_rewrite,
        Expr.format_rewrite h, format_rewrite h _ yes, format_rewrite h _ no]
  | .loop _ condition body => by
      simp [rewrite, format, lead, governedDepth, staysOnLine_rewrite, Expr.format_rewrite h,
        format_rewrite h _ body]

theorem formatLines_rewriteAll {r : Rewriting} (h : r.KeepsText) (depth : Nat) :
    (ss : List Stmt) → formatLines depth (rewriteAll r ss) = formatLines depth ss
  | [] => by simp [rewriteAll]
  | s :: ss => by
      simp [rewriteAll, formatLines, format_rewrite h depth s, formatLines_rewriteAll h depth ss]

end

end Stmt

namespace Program

def unlined (p : Program) : Program := p.rewrite .unlined

/-- The program as its text is read back: all its parts are on line 0, every loop is written with
`while`, and a literal that overflowed is the division of one by zero. -/
def plain (p : Program) : Program := p.rewrite .plain

theorem unlined_plain (p : Program) : p.plain.unlined = p.plain := by
  simp only [unlined, plain, rewrite, List.map_map]
  exact congrArg (fun f => Program.mk (p.statements.map f)) (funext Stmt.unlined_plain)

/-- The text of a program does not depend on what does not show in it. -/
theorem format_rewrite {r : Rewriting} (h : r.KeepsText) (p : Program) :
    (p.rewrite r).format = p.format := by
  have hLines := Stmt.formatLines_rewriteAll h 0 p.statements
  rw [Stmt.rewriteAll_eq_map] at hLines
  simp only [format, rewrite, List.isEmpty_map]
  exact congrArg (fun lines => if p.statements.isEmpty then [] else
    Text.concat [Text.join "\n" lines, "\n"]) hLines

end Program
end Lox
