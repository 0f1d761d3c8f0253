import Lox.Proofs.Decimal.Numerals
import Lox.Proofs.Format.Program

/-! Parentheses in the text of an expression. An expression need not come from a source: its
operands may bind looser than the operators above them, and its numbers may be negative or not
finite. Parentheses are put in where they are needed, so the text is read back as the same
expression apart from them. -/
namespace Lox

open Segment (Lexeme)

/-- The text is a name, as scanning it on its own shows. -/
def Text.IsName (t : Text) : Prop :=
  Scan.ofSource t = ⟨[Token.read .identifier t 1, Token.endOfInput 1], []⟩

instance (t : Text) : Decidable t.IsName := inferInstanceAs (Decidable (_ = _))

/-- A name is a lexeme of its own. -/
theorem Text.IsName.lexeme {t : Text} (h : t.IsName) : Lexeme .identifier t := by
  have hMem : Token.read .identifier t 1 ∈ (Scan.ofSource t).tokens := by
    rw [h]
    exact List.mem_cons_self
  rcases List.mem_append.mp hMem with hFront | hEnd
  · exact (Scan.isScanned_of_mem hFront).lexeme
  · cases List.mem_singleton.mp hEnd

/-- The kind of the token has one spelling, and the token has it. -/
def Token.IsSpelled (t : Token) : Prop := (t.kind, t.lexeme) ∈ Kind.fixed

instance (t : Token) : Decidable t.IsSpelled := inferInstanceAs (Decidable (_ ∈ _))

theorem Token.IsSpelled.lexeme {t : Token} (h : t.IsSpelled) : Lexeme t.kind t.lexeme := by
  rcases List.mem_append.mp h with hSign | hWord
  · exact .sign hSign
  · obtain ⟨⟨s, k⟩, hKeyword, hEq⟩ := List.mem_map.mp hWord
    obtain ⟨rfl, hText⟩ := Prod.mk.injEq .. ▸ hEq
    rw [← hText]
    exact Segment.lexeme_keyword hKeyword

/-- There is a value, and if it is a string it can stand between quotes. -/
def Slot.IsQuotable : Slot → Prop
  | none => False
  | some (.string s) => ∀ b ∈ s, b ≠ Text.quote ∧ b ≠ Text.newline
  | some _ => True

instance : (value : Slot) → Decidable (Slot.IsQuotable value)
  | none => .isFalse id
  | some .nil | some (.bool _) | some (.number _) => .isTrue trivial
  | some (.string s) => inferInstanceAs (Decidable (∀ b ∈ s, b ≠ Text.quote ∧ b ≠ Text.newline))

/-- Operators stand where the language has them and are spelled as it spells them, names are names,
literals have values, and strings can stand between quotes. Nothing is asked of operands or of numbers. -/
def Expr.IsSpelled : Expr → Prop
  | .literal value _ => Slot.IsQuotable value
  | .name token => token.lexeme.IsName
  | .assign target value => target.lexeme.IsName ∧ value.IsSpelled
  | .binary left op right =>
    ((BinaryOp.ofKind? op.kind).isSome ∧ op.IsSpelled) ∧ left.IsSpelled ∧ right.IsSpelled
  | .logical left op right =>
    ((op.kind = .orWord ∨ op.kind = .andWord) ∧ op.IsSpelled) ∧ left.IsSpelled ∧ right.IsSpelled
  | .unary op operand => ((UnaryOp.ofKind? op.kind).isSome ∧ op.IsSpelled) ∧ operand.IsSpelled
  | .group inner => inner.IsSpelled

def Expr.decideIsSpelled : (e : Expr) → Decidable e.IsSpelled
  | .literal value _ => inferInstanceAs (Decidable (Slot.IsQuotable value))
  | .name token => inferInstanceAs (Decidable token.lexeme.IsName)
  | .assign _ value => @instDecidableAnd _ _ _ value.decideIsSpelled
  | .binary left _ right =>
    @instDecidableAnd _ _ _ (@instDecidableAnd _ _ left.decideIsSpelled right.decideIsSpelled)
  | .logical left _ right =>
    @instDecidableAnd _ _ _ (@instDecidableAnd _ _ left.decideIsSpelled right.decideIsSpelled)
  | .unary _ operand => @instDecidableAnd _ _ _ operand.decideIsSpelled
  | .group inner => inner.decideIsSpelled

instance (e : Expr) : Decidable e.IsSpelled := e.decideIsSpelled

/-- Every binary operator belongs to a level of the grammar. -/
theorem BinaryOp.exists_level {k : Kind} (h : (ofKind? k).isSome) :
    ∃ level : Level, k ∈ level.operators ∧ level.node = .binary := by
  have hMem : k ∈ Level.equality.operators ∨ k ∈ Level.comparison.operators ∨
      k ∈ Level.term.operators ∨ k ∈ Level.factor.operators := by
    revert h
    cases k <;> decide
  rcases hMem with hMem | hMem | hMem | hMem <;> exact ⟨_, hMem, rfl⟩

/-- Every unary operator is one of the grammar. -/
theorem UnaryOp.mem_of_ofKind? {k : Kind} (h : (ofKind? k).isSome) : k ∈ unaryOperators := by
  revert h
  cases k <;> decide

namespace Expr

def ungrouped : Expr → Expr
  | .literal value line => .literal value line
  | .name token => .name token
  | .assign target value => .assign target value.ungrouped
  | .binary left op right => .binary left.ungrouped op right.ungrouped
  | .logical left op right => .logical left.ungrouped op right.ungrouped
  | .unary op operand => .unary op operand.ungrouped
  | .group inner => inner.ungrouped

def minus (operand : Expr) : Expr := .unary (Token.read .minus "-" 0) operand

/-- A number as its text is read back. A numeral has no sign, and what has no numeral is written as
a division by zero. -/
def shownNumber (x : Float) : Expr :=
  let numeral (x : Float) : Expr := .literal (some (.number x)) 0
  if x.isNaN then quotient (numeral 0)
  else if x.isInf then
    quotient (if Decimal.isNegative x then minus (numeral 1) else numeral 1)
  else if Decimal.isNegative x then minus (numeral x.abs)
  else numeral x

/-- The expression as its text is read back, with all its parts on line 0 and without parentheses. -/
def shown : Expr → Expr
  | .literal (some (.number x)) _ => shownNumber x
  | .literal value _ => .literal value 0
  | .name token => .name (Token.read .identifier token.lexeme 0)
  | .assign target value => .assign (Token.read .identifier target.lexeme 0) value.shown
  | .binary left op right => .binary left.shown (Token.read op.kind op.lexeme 0) right.shown
  | .logical left op right => .logical left.shown (Token.read op.kind op.lexeme 0) right.shown
  | .unary op operand => .unary (Token.read op.kind op.lexeme 0) operand.shown
  | .group inner => inner.shown

end Expr

/-- The nonterminal of expressions that hold together at least as tightly as `n`. -/
def Rank.ofBinding : Nat → Rank
  | 0 => .expression
  | 1 => .level .or
  | 2 => .level .and
  | 3 => .level .equality
  | 4 => .level .comparison
  | 5 => .level .term
  | 6 => .level .factor
  | _ => .unary

/-- The operands of an operator are of the ranks that its level asks for. -/
theorem Level.ofBinding_operator {level : Level} {k : Kind} (h : k ∈ level.operators) :
    Rank.ofBinding k.binding = .level level ∧ Rank.ofBinding (k.binding + 1) = level.operand := by
  rw [binding_of_operator h]
  cases level <;> decide

namespace Expr

/-- What holds together more tightly can stand where less is needed. -/
theorem Derives.of_ofBinding_succ {n : Nat} {w : List Token} {e : Expr}
    (h : Derives (Rank.ofBinding (n + 1)) w e) : Derives (Rank.ofBinding n) w e := by
  rcases n with _ | _ | _ | _ | _ | _ | _ | n
  · exact .loosest h
  iterate 6 · exact .operand h
  exact h

/-- What holds together more tightly than it has to may stand there. -/
theorem Derives.of_binding_le {m n : Nat} {w : List Token} {e : Expr} (hLe : m ≤ n)
    (h : Derives (Rank.ofBinding n) w e) : Derives (Rank.ofBinding m) w e := by
  induction hLe with
  | refl => exact h
  | step _ ih => exact ih h.of_ofBinding_succ

/-- The text says an expression that is the given one apart from parentheses. -/
def SaysBare (rank : Rank) (text : Text) (e : Expr) : Prop :=
  ∃ e', Says rank text e' ∧ e'.unlined.ungrouped = e

theorem SaysBare.mono {rank rank' : Rank} {text : Text} {e : Expr}
    (hRank : ∀ w e, Derives rank w e → Derives rank' w e) (h : SaysBare rank text e) :
    SaysBare rank' text e := by
  obtain ⟨e', hSays, hBare⟩ := h
  exact ⟨e', hSays.mono fun w => hRank w e', hBare⟩

/-- An operand can stand anywhere. -/
theorem SaysBare.primary {n : Nat} {text : Text} {e : Expr} (h : SaysBare .primary text e)
    (hLe : n ≤ 7) : SaysBare (Rank.ofBinding n) text e :=
  h.mono fun _ _ hDerives => Derives.of_binding_le hLe (.primary hDerives)

/-- Parentheses do not count. -/
theorem saysBare_group {text : Text} {e : Expr} (h : SaysBare .expression text e) :
    SaysBare .primary (40 :: (text ++ [41])) e := by
  obtain ⟨e', hSays, hBare⟩ := h
  exact ⟨.group e', says_group hSays, hBare⟩

/-- An operand in the parentheses that it needs. -/
theorem saysBare_operand {m n : Nat} {text : Text} {e : Expr} (hLe : n ≤ 7)
    (h : SaysBare (Rank.ofBinding m) text e) :
    SaysBare (Rank.ofBinding n) (parenthesized (m < n) text) e := by
  by_cases hLoose : m < n
  · rw [decide_eq_true hLoose, parenthesized_true]
    exact (saysBare_group (h.mono fun _ _ => Derives.of_binding_le (Nat.zero_le m))).primary hLe
  · rw [decide_eq_false hLoose]
    exact h.mono fun _ _ => Derives.of_binding_le (Nat.not_lt.mp hLoose)

/-- The text of a binary expression says it, with the parentheses that its operands need. -/
theorem saysBare_node {level : Level} {left right : Expr} {op : Token} (hOp : op.IsSpelled)
    (hKind : op.kind ∈ level.operators)
    (hLeft : SaysBare (Rank.ofBinding left.binding) left.format left.shown)
    (hRight : SaysBare (Rank.ofBinding right.binding) right.format right.shown) :
    SaysBare (Rank.ofBinding op.kind.binding) (level.node left op right).format
      (level.node left.shown (Token.read op.kind op.lexeme 0) right.shown) := by
  obtain ⟨hRank, hOperand⟩ := Level.ofBinding_operator hKind
  have hLe : op.kind.binding + 1 ≤ 7 := by
    rw [Level.binding_of_operator hKind]
    have := level.height_pos
    omega
  -- operators group to the left, so the right operand has to be one tighter than the operator
  obtain ⟨left', hSaysLeft, hBareLeft⟩ := saysBare_operand (Nat.le_of_succ_le hLe) hLeft
  obtain ⟨right', hSaysRight, hBareRight⟩ := saysBare_operand hLe hRight
  rw [hRank] at hSaysLeft ⊢
  rw [hOperand] at hSaysRight
  refine ⟨level.node left' (Token.read op.kind op.lexeme 0) right', ?_, ?_⟩
  · have hChain := says_chain hKind hOp.lexeme hSaysLeft hSaysRight
    simpa [Level.format_node, Text.concat, Text.ofString_blank, Nat.lt_succ_iff] using hChain
  · rw [← hBareLeft, ← hBareRight]
    cases level <;> rfl

theorem says_minus {text : Text} {e : Expr} (h : Says .unary text e) :
    Says .unary (45 :: text) (minus e) :=
  says_unary (by decide) (.sign (k := .minus) (t := [45]) (by decide)) h

/-- The text of a number says the number as it is shown. -/
theorem saysBare_number (x : Float) :
    SaysBare .unary (literalText (some (.number x))) (shownNumber x) := by
  have hZero : Says .unary [48] (.literal (some (.number 0)) 0) :=
    (says_digit (by decide) (by decide +kernel)).mono fun _ => .primary
  have hOne : Says .unary [49] (.literal (some (.number 1)) 0) :=
    (says_digit (by decide) (by decide +kernel)).mono fun _ => .primary
  have hQuotient : ∀ {text e}, Says .unary text e → Says .unary
      (40 :: (text ++ [32, 47, 32, 48, 41])) (.group (quotient e)) := fun h =>
    (says_quotient (h.mono fun _ => .operand)).mono fun _ => .primary
  rw [literalText, shownNumber]
  cases hNaN : x.isNaN with
  | true => exact ⟨_, hQuotient hZero, rfl⟩
  | false =>
    cases hInf : x.isInf with
    | true =>
      cases hSign : Decimal.isNegative x with
      | true => exact ⟨_, hQuotient (says_minus hOne), rfl⟩
      | false => exact ⟨_, hQuotient hOne, rfl⟩
    | false =>
      cases hSign : Decimal.isNegative x with
      | true =>
        obtain ⟨hNaN', hInf', hSign', -⟩ := Decimal.abs_of_finite hNaN hInf
        have hNumeral := says_numeral hNaN' hInf' hSign'
        have hMinus := says_minus (hNumeral.mono fun _ => .primary)
        rw [← Decimal.numberText_of_negative hNaN hInf hSign] at hMinus
        exact ⟨_, hMinus, rfl⟩
      | false => exact ⟨_, (says_numeral hNaN hInf hSign).mono fun _ => .primary, rfl⟩

/-- The text of a literal says it as it is shown. -/
theorem saysBare_literal {value : Slot} {line : Int} (h : (literal value line).IsSpelled) :
    SaysBare .unary (literalText value) (literal value line).shown := by
  have hWord : ∀ {k : Kind} {s : String} {v : Value}, k ∈ literalKinds → (s, k) ∈ Kind.keywords →
      k.literal s = some v → SaysBare .unary (Text.ofString s) (.literal (some v) 0) := by
    intro k s v hKind hKeyword hValue
    exact ⟨_, (says_literal hKind (Segment.lexeme_keyword hKeyword) hValue).mono fun _ => .primary,
      rfl⟩
  rcases value with _ | _ | b | x | s
  · cases h
  · exact hWord (k := .nilWord) (by decide) (by decide) rfl
  · cases b with
    | true => exact hWord (k := .trueWord) (by decide) (by decide) rfl
    | false => exact hWord (k := .falseWord) (by decide) (by decide) rfl
  · exact saysBare_number x
  · have hText : literalText (some (.string s)) = Text.quote :: (s ++ [Text.quote]) := rfl
    rw [hText]
    exact ⟨_, (says_literal (k := .string) (by decide) (.string h) (by simp [Kind.literal])).mono
      fun _ => .primary, rfl⟩

/-- The text of an expression says it, apart from parentheses. -/
theorem IsSpelled.saysBare {e : Expr} (h : e.IsSpelled) :
    SaysBare (Rank.ofBinding e.binding) e.format e.shown := by
  induction e with
  | literal value line => exact saysBare_literal h
  | name token => exact SaysBare.primary ⟨_, says_name h.lexeme, rfl⟩ (Nat.le_refl 7)
  | assign target value ih =>
      obtain ⟨hTarget, hValue⟩ := h
      obtain ⟨value', hSays, hBare⟩ := ih hValue
      have hValue' := hSays.mono fun _ => Derives.of_binding_le (Nat.zero_le _)
      rw [format_assign, shown, ← hBare]
      exact ⟨_, says_assign hTarget.lexeme hValue', rfl⟩
  | binary left op right ihLeft ihRight =>
      obtain ⟨⟨hKind, hOp⟩, hLeft, hRight⟩ := h
      obtain ⟨level, hLevel, hNode⟩ := BinaryOp.exists_level hKind
      have hSays := saysBare_node hOp hLevel (ihLeft hLeft) (ihRight hRight)
      rw [hNode] at hSays
      exact hSays
  | logical left op right ihLeft ihRight =>
      obtain ⟨⟨hKind, hOp⟩, hLeft, hRight⟩ := h
      rcases hKind with hKind | hKind
      · exact @saysBare_node .or _ _ _ hOp (by simp [hKind, Level.operators]) (ihLeft hLeft)
          (ihRight hRight)
      · exact @saysBare_node .and _ _ _ hOp (by simp [hKind, Level.operators]) (ihLeft hLeft)
          (ihRight hRight)
  | unary op operand ih =>
      obtain ⟨⟨hKind, hOp⟩, hOperand⟩ := h
      obtain ⟨operand', hSays, hBare⟩ := saysBare_operand (Nat.le_refl 7) (ih hOperand)
      rw [shown, ← hBare]
      exact ⟨_, says_unary (UnaryOp.mem_of_ofKind? hKind) hOp.lexeme hSays, rfl⟩
  | group inner ih =>
      have hInner := (ih h).mono fun _ _ => Derives.of_binding_le (Nat.zero_le inner.binding)
      rw [format_group]
      exact (saysBare_group hInner).primary (Nat.le_refl 7)

end Expr

namespace Program

/-- The text of any expression that can be written down is read without complaint, as that
expression apart from parentheses. -/
theorem ofSource_format_expr {e : Expr} (h : e.IsSpelled) :
    (ofSource (format ⟨[.expr e]⟩)).diagnostics = [] ∧
      ∃ e', (ofSource (format ⟨[.expr e]⟩)).program.unlined = ⟨[.expr e']⟩ ∧
        e'.ungrouped = e.shown := by
  obtain ⟨e', hSays, hBare⟩ := h.saysBare
  have hExpr := hSays.mono fun _ => Expr.Derives.of_binding_le (Nat.zero_le e.binding)
  have hStmt : Stmt.ReadsAs true .declaration (.expr e) (.expr e') :=
    (Stmt.readsAs_expr hExpr).declaration
  obtain ⟨w, hPrints, hDerives⟩ := @exists_prints_of_readsAs _ ⟨[.expr e]⟩ ⟨[.expr e']⟩
    (.cons hStmt .nil)
  obtain ⟨hDiagnostics, hProgram⟩ := ofSource_of_prints hPrints hDerives
  exact ⟨hDiagnostics, e'.unlined, hProgram, hBare⟩

/-- A difference on the right of a difference, an assignment as an operand, and a negative number
after a minus sign. -/
theorem ofSource_format_expr_nested :
    let minus := Token.read .minus "-" 3
    let name (s : String) := Token.read .identifier s 3
    let e := Expr.binary (.name (name "a")) minus (.binary (.assign (name "b") (.name (name "c")))
      minus (.unary minus (.literal (some (.number (-1.5))) 3)))
    e.IsSpelled ∧ e.format = "a - ((b = c) - --1.5)" ∧
      (ofSource (format ⟨[.expr e]⟩)).diagnostics = [] ∧
      ∃ e', (ofSource (format ⟨[.expr e]⟩)).program.unlined = ⟨[.expr e']⟩ ∧
        e'.ungrouped = e.shown := by
  intro minus name e
  have hSpelled : e.IsSpelled := by decide +kernel
  exact ⟨hSpelled, by decide +kernel, ofSource_format_expr hSpelled⟩

end Program
end Lox
