import Lox.Proofs.Format.Plain

/-! The text of an expression spells tokens from which the expression can be derived again. This is
shown for each form of expression from its parts, and so for every one that a source derives. -/
namespace Lox

open Segment (Prints Begins Lexeme prints_lexeme begins_cons)

theorem Text.ofString_newline : Text.ofString "\n" = [10] := by decide
theorem Text.ofString_blank : Text.ofString " " = [32] := by decide
theorem Text.ofString_equal : Text.ofString " = " = [32, 61, 32] := by decide
theorem Text.ofString_semicolon : Text.ofString ";" = [59] := by decide
theorem Text.ofString_rightParen : Text.ofString ")" = [41] := by decide
theorem Text.ofString_if : Text.ofString "if (" = Text.ofString "if" ++ [32, 40] := by decide

/-- A scanned token that stands for a value: a number, a string without its quotes, or a word. -/
theorem Token.IsScanned.literal_cases {t : Token} (h : t.IsScanned) (hKind : t.kind ∈ literalKinds) :
    (t.kind = .number ∧ t.literal = some (Value.ofNumeral t.lexeme)) ∨
      (t.kind = .string ∧ ∃ s, t.lexeme = Text.quote :: (s ++ [Text.quote]) ∧
        t.literal = some (.string s) ∧ ∀ b ∈ s, b ≠ Text.quote ∧ b ≠ Text.newline) ∨
      (t.kind = .trueWord ∧ t.literal = some (.bool true)) ∨
      (t.kind = .falseWord ∧ t.literal = some (.bool false)) ∨
      (t.kind = .nilWord ∧ t.literal = some .nil) := by
  have hLiteral := h.literal
  simp only [literalKinds, List.mem_cons, List.not_mem_nil, or_false] at hKind
  rcases hKind with hKind | hKind | hKind | hKind | hKind <;> rw [hKind] at hLiteral
  · exact Or.inl ⟨hKind, hLiteral⟩
  · obtain ⟨s, hText, hInside⟩ := (hKind ▸ h.lexeme).exists_of_string
    refine Or.inr (Or.inl ⟨hKind, s, hText, ?_, hInside⟩)
    rw [hLiteral, hText]
    simp [Kind.literal]
  · exact Or.inr (Or.inr (Or.inl ⟨hKind, hLiteral⟩))
  · exact Or.inr (Or.inr (Or.inr (Or.inl ⟨hKind, hLiteral⟩)))
  · exact Or.inr (Or.inr (Or.inr (Or.inr ⟨hKind, hLiteral⟩)))

/-- How tightly the expressions of a rank hold together at least. -/
def Rank.binding : Rank → Nat
  | .expression => 0
  | .level l => 7 - l.height
  | .unary | .primary => 7

/-- An operator binds the tighter the lower its level is. -/
theorem Level.binding_of_operator {level : Level} {k : Kind} (h : k ∈ level.operators) :
    k.binding = 7 - level.height := by
  cases level <;> simp only [operators, List.mem_cons, List.not_mem_nil, or_false] at h <;>
    rcases h with rfl | rfl | rfl | rfl <;> rfl

/-- The operand of a level binds tighter than its operators. -/
theorem Level.binding_operand (level : Level) : level.operand.binding = 7 - level.height + 1 := by
  cases level <;> rfl

/-- A binary expression holds together as its operator does. -/
theorem Level.binding_node (level : Level) (left right : Expr) (op : Token) :
    (level.node left op right).binding = op.kind.binding := by
  cases level <;> rfl

/-- A left operand is put in parentheses if it is looser than the operator, a right one also if equal.
-/
theorem Level.format_node (level : Level) (left right : Expr) (op : Token) :
    (level.node left op right).format = Text.concat
      [Expr.parenthesized (left.binding < op.kind.binding) left.format, " ", op.lexeme, " ",
       Expr.parenthesized (right.binding ≤ op.kind.binding) right.format] := by
  cases level <;> rfl

theorem Level.plain_node (level : Level) (left right : Expr) (op : Token) :
    (level.node left op right).plain = level.node left.plain op.unlined right.plain := by
  cases level <;> rfl

namespace Expr

/-- What is derived from a rank holds together at least as the rank does. -/
theorem Derives.binding_le {rank : Rank} {w : List Token} {e : Expr} (h : Derives rank w e) :
    rank.binding ≤ e.binding := by
  induction h with
  | assign => exact Nat.le_refl 0
  | loosest => exact Nat.zero_le _
  | @operand level _ _ _ ih =>
      rw [Level.binding_operand] at ih
      exact Nat.le_of_succ_le ih
  | chain _ hForms =>
      obtain ⟨hOp, rfl⟩ := Level.forms_iff.mp hForms
      rw [Level.binding_node, Level.binding_of_operator hOp]
      exact Nat.le_refl _
  | unary => exact Nat.le_refl 7
  | primary _ ih => exact ih
  | literal => exact Nat.le_refl 7
  | name => exact Nat.le_refl 7
  | group => exact Nat.le_refl 7

/-- What has no loose operator is an expression. -/
theorem Derives.of_factor {w : List Token} {e : Expr} (h : Derives (.level .factor) w e) :
    Derives .expression w e := by
  have hTerm : Derives (.level .term) w e := .operand h
  have hComparison : Derives (.level .comparison) w e := .operand hTerm
  have hEquality : Derives (.level .equality) w e := .operand hComparison
  have hAnd : Derives (.level .and) w e := .operand hEquality
  exact .loosest (.operand hAnd)

theorem parenthesized_true (text : Text) : parenthesized true text = 40 :: (text ++ [41]) := by
  have hOpen : Text.ofString "(" = [40] := by decide
  simp [parenthesized, Text.concat, hOpen, Text.ofString_rightParen]

theorem format_group (e : Expr) : (Expr.group e).format = 40 :: (e.format ++ [41]) :=
  parenthesized_true e.format

theorem format_assign (target : Token) (value : Expr) :
    (Expr.assign target value).format = target.lexeme ++ 32 :: ([61] ++ 32 :: value.format) := by
  simp [format, Text.concat, Text.ofString_equal]

/-- The text spells tokens from which the expression can be derived. -/
def Says (rank : Rank) (text : Text) (e : Expr) : Prop := ∃ w, Prints text w ∧ Derives rank w e

/-- A text that says an expression of one rank says it of every wider one. -/
theorem Says.mono {rank rank' : Rank} {text : Text} {e : Expr}
    (hRank : ∀ w, Derives rank w e → Derives rank' w e) (h : Says rank text e) :
    Says rank' text e := by
  obtain ⟨w, hPrints, hDerives⟩ := h
  exact ⟨w, hPrints, hRank w hDerives⟩

/-- A name is spelled by its own text. -/
theorem says_name {text : Text} (h : Lexeme .identifier text) :
    Says .primary text (.name (Token.read .identifier text 0)) :=
  ⟨_, prints_lexeme h, .name rfl⟩

/-- A token that stands for a value. -/
theorem says_literal {k : Kind} {text : Text} {v : Value} (hKind : k ∈ literalKinds)
    (h : Lexeme k text) (hValue : k.literal text = some v) :
    Says .primary text (.literal (some v) 0) := by
  have hDerives := @Derives.literal (Token.read k text 0) (mem_literalKinds.mp hKind)
  have hLiteral : (Token.read k text 0).literal = some v := hValue
  rw [hLiteral] at hDerives
  exact ⟨_, prints_lexeme h, hDerives⟩

/-- Parentheses make an operand of any expression. -/
theorem says_group {text : Text} {e : Expr} (h : Says .expression text e) :
    Says .primary (40 :: (text ++ [41])) (.group e) := by
  obtain ⟨w, hPrints, hDerives⟩ := h
  refine ⟨Token.read .leftParen [40] 0 :: w ++ [Token.read .rightParen [41] 0], ?_,
    .group rfl hDerives rfl⟩
  have hClose := hPrints.append (begins_cons (by decide) [])
    (Segment.prints_nil.firm (b := 41) (k := .rightParen) (by decide))
  exact hClose.firm (b := 40) (k := .leftParen) (by decide)

/-- An operator in front of an operand needs no blank. -/
theorem says_unary {k : Kind} {op text : Text} {e : Expr} (hKind : k ∈ unaryOperators)
    (hOp : Lexeme k op) (h : Says .unary text e) :
    Says .unary (op ++ text) (.unary (Token.read k op 0) e) := by
  obtain ⟨w, hPrints, hDerives⟩ := h
  refine ⟨Token.read k op 0 :: w, ?_, .unary (mem_unaryOperators.mp hKind) hDerives⟩
  obtain ⟨first, w, rfl, hStarts⟩ := hDerives.exists_cons
  simp only [unaryOperators, List.mem_cons, List.not_mem_nil, or_false] at hKind
  rcases hKind with rfl | rfl
  · obtain rfl : op = [33] := hOp.eq_of_fixed (by decide)
    refine hPrints.bang ⟨?_, ?_⟩ <;>
    · intro hFirst
      rw [hFirst] at hStarts
      exact absurd hStarts (by decide)
  · obtain rfl : op = [45] := hOp.eq_of_fixed (by decide)
    exact hPrints.firm (b := 45) (k := .minus) (by decide)

/-- A binary operator stands between blanks. -/
theorem says_chain {level : Level} {k : Kind} {op textLeft textRight : Text} {left right : Expr}
    (hKind : k ∈ level.operators) (hOp : Lexeme k op) (hLeft : Says (.level level) textLeft left)
    (hRight : Says level.operand textRight right) :
    Says (.level level) (textLeft ++ 32 :: (op ++ 32 :: textRight))
      (level.node left (Token.read k op 0) right) := by
  obtain ⟨w₁, hPrintsLeft, hDerivesLeft⟩ := hLeft
  obtain ⟨w₂, hPrintsRight, hDerivesRight⟩ := hRight
  refine ⟨w₁ ++ Token.read k op 0 :: w₂, ?_, .chain hDerivesLeft
    (Level.forms_iff.mpr ⟨hKind, rfl⟩) hDerivesRight⟩
  have hMore := (prints_lexeme hOp).append (begins_cons (by decide) _) hPrintsRight.blank
  exact hPrintsLeft.append (begins_cons (by decide) _) hMore.blank

/-- An assignment has blanks around its sign. -/
theorem says_assign {target text : Text} {value : Expr} (hTarget : Lexeme .identifier target)
    (h : Says .expression text value) :
    Says .expression (target ++ 32 :: ([61] ++ 32 :: text))
      (.assign (Token.read .identifier target 0) value) := by
  obtain ⟨w, hPrints, hDerives⟩ := h
  refine ⟨Token.read .identifier target 0 :: Token.read .equal [61] 0 :: w, ?_,
    .assign rfl rfl hDerives⟩
  have hMore := (prints_lexeme (.sign (k := .equal) (t := [61]) (by decide))).append
    (begins_cons (by decide) _) hPrints.blank
  exact (prints_lexeme hTarget).append (begins_cons (by decide) _) hMore.blank

theorem says_digit {b : UInt8} {x : Float} (hb : Decimal.isDigit b = true)
    (hValue : Value.ofNumeral [b] = .number x) : Says .primary [b] (.literal (some (.number x)) 0) :=
  says_literal (k := .number) (by decide) (.number (.whole ⟨by simp, by simpa using hb⟩))
    (congrArg some hValue)

/-- A finite number that is not negative. -/
theorem says_numeral {x : Float} (hNaN : x.isNaN = false) (hInf : x.isInf = false)
    (hSign : Decimal.isNegative x = false) :
    Says .primary (Value.numberText x) (.literal (some (.number x)) 0) := by
  obtain ⟨hNumeral, hValue⟩ := Decimal.ofNumeral_numberText hNaN hInf hSign
  exact says_literal (k := .number) (by decide) (.number hNumeral) (congrArg some hValue)

/-- A division by zero, which is how a number is written that has no numeral. -/
def quotient (e : Expr) : Expr :=
  .binary e (Token.read .slash "/" 0) (.literal (some (.number 0)) 0)

/-- A division by zero in parentheses is an operand. -/
theorem says_quotient {text : Text} {e : Expr} (h : Says (.level .factor) text e) :
    Says .primary (40 :: (text ++ [32, 47, 32, 48, 41])) (.group (quotient e)) := by
  have hZero : Says .unary [48] (.literal (some (.number 0)) 0) :=
    (says_digit (by decide) (by decide +kernel)).mono fun _ => .primary
  have hDivision := says_chain (by decide) (.sign (k := .slash) (t := [47]) (by decide)) h hZero
  have hGroup := says_group (hDivision.mono fun _ => Derives.of_factor)
  rw [List.append_assoc] at hGroup
  exact hGroup

/-- The text of the expression spells tokens from which it can be derived. -/
def Printed (rank : Rank) (e : Expr) : Prop :=
  ∃ w, Prints e.format w ∧ Derives rank w e.plain

theorem printed_name {t : Token} (h : t.IsScanned) (hKind : t.kind = .identifier) :
    Printed .primary (.name t) := by
  have hName := says_name (hKind ▸ h.lexeme)
  rw [← hKind, ← h.unlined_eq] at hName
  exact hName

/-- A token that stands for a value, spelled as the value is written. -/
theorem printed_of_lexeme {k : Kind} {v : Value} {line : Int} (hKind : k ∈ literalKinds)
    (hLexeme : Lexeme k (literalText (some v))) (hValue : k.literal (literalText (some v)) = some v)
    (hPlain : plainLiteral (some v) = .literal (some v) 0) :
    Printed .primary (.literal (some v) line) := by
  have hLiteral := says_literal hKind hLexeme hValue
  rw [← hPlain] at hLiteral
  exact hLiteral

/-- An infinite number is written as a division by zero. -/
theorem printed_overflow {x : Float} {line : Int} (hInf : x.isInf = true)
    (hSign : Decimal.isNegative x = false) : Printed .primary (.literal (some (.number x)) line) := by
  have hText : (Expr.literal (some (.number x)) line).format = [40, 49, 32, 47, 32, 48, 41] := by
    have hBytes : Text.ofString "(1 / 0)" = [40, 49, 32, 47, 32, 48, 41] := by decide
    simp only [format, literalText, Decimal.isNaN_of_isInf hInf, hInf, hSign, hBytes,
      Bool.false_eq_true, ↓reduceIte]
  have hOne : Says (.level .factor) [49] (.literal (some (.number 1)) 0) :=
    (says_digit (by decide) (by decide +kernel)).mono fun _ h => .operand (.primary h)
  have hQuotient := says_quotient hOne
  rw [Printed, hText, plain, rewrite, Rewriting.literal_plain, plainLiteral_of_infinite hInf hSign]
  exact hQuotient

/-- A number without a minus sign is an operand. -/
theorem printed_number {x : Float} {line : Int} (hNaN : x.isNaN = false)
    (hSign : Decimal.isNegative x = false) : Printed .primary (.literal (some (.number x)) line) := by
  cases hInf : x.isInf with
  | true => exact printed_overflow hInf hSign
  | false =>
      have hText : literalText (some (.number x)) = Value.numberText x := by
        simp only [literalText, hNaN, hInf, Bool.false_eq_true, ↓reduceIte]
      have hNumeral := says_numeral hNaN hInf hSign
      rw [← hText, ← plainLiteral_of_finite hInf] at hNumeral
      exact hNumeral

/-- A literal of the source is written as an operand. -/
theorem printed_literal {t : Token} (h : t.IsScanned) (hKind : t.kind ∈ literalKinds) (line : Int) :
    Printed .primary (.literal (some (t.literal.getD .nil)) line) := by
  rcases h.literal_cases hKind with ⟨-, hLiteral⟩ | ⟨hString, s, hText, hLiteral, -⟩ | ⟨-, hLiteral⟩ |
    ⟨-, hLiteral⟩ | ⟨-, hLiteral⟩ <;> rw [hLiteral, Option.getD_some]
  · obtain ⟨hNaN, hSign⟩ := Decimal.ofScientific_sign
      (Decimal.digitsValue (t.lexeme.takeWhile (· != 46) ++ (t.lexeme.dropWhile (· != 46)).drop 1))
      ((t.lexeme.dropWhile (· != 46)).drop 1).length
    exact printed_number hNaN hSign
  · have hWritten : literalText (some (.string s)) = t.lexeme := by
      simp [literalText, Value.text, hText]
    refine printed_of_lexeme (k := .string) (by decide) ?_ ?_ rfl
    · rw [hWritten, ← hString]
      exact h.lexeme
    · rw [hWritten, ← hString, ← h.literal, hLiteral]
  · exact printed_of_lexeme (k := .trueWord) (by decide) (Segment.lexeme_keyword (by decide)) rfl rfl
  · exact printed_of_lexeme (k := .falseWord) (by decide) (Segment.lexeme_keyword (by decide)) rfl rfl
  · exact printed_of_lexeme (k := .nilWord) (by decide) (Segment.lexeme_keyword (by decide)) rfl rfl

theorem printed_group {e : Expr} (h : Printed .expression e) : Printed .primary (.group e) := by
  rw [Printed, format_group]
  exact says_group h

theorem printed_unary {op : Token} {e : Expr} (hOp : op.IsScanned) (hKind : op.kind ∈ unaryOperators)
    (h : Printed .unary e) : Printed .unary (.unary op e) := by
  have hBinding : ¬ e.binding < 7 := by
    obtain ⟨_, _, hDerives⟩ := h
    rw [← binding_rewrite Rewriting.keepsText_plain]
    exact Nat.not_lt.mpr hDerives.binding_le
  have hText : (Expr.unary op e).format = op.lexeme ++ e.format := by
    simp [format, parenthesized, hBinding]
  have hUnary := says_unary hKind hOp.lexeme h
  rw [← hOp.unlined_eq, ← hText] at hUnary
  exact hUnary

/-- Binary expressions of a level are written in the order they associate in. -/
theorem printed_chain {level : Level} {left right : Expr} {op : Token} (hOp : op.IsScanned)
    (hKind : op.kind ∈ level.operators) (hLeft : Printed (.level level) left)
    (hRight : Printed level.operand right) :
    Printed (.level level) (level.node left op right) := by
  have hBinding := Level.binding_of_operator hKind
  have hLoose : ¬ left.binding < op.kind.binding := by
    obtain ⟨_, _, hDerives⟩ := hLeft
    have hLe := hDerives.binding_le
    rw [plain, binding_rewrite Rewriting.keepsText_plain] at hLe
    rw [hBinding]
    exact Nat.not_lt.mpr hLe
  have hTight : ¬ right.binding ≤ op.kind.binding := by
    obtain ⟨_, _, hDerives⟩ := hRight
    have hLe := hDerives.binding_le
    rw [plain, binding_rewrite Rewriting.keepsText_plain, Level.binding_operand] at hLe
    rw [hBinding]
    exact Nat.not_le.mpr hLe
  have hText : (level.node left op right).format =
      left.format ++ 32 :: (op.lexeme ++ 32 :: right.format) := by
    simp [Level.format_node, parenthesized, hLoose, hTight, Text.concat, Text.ofString_blank]
  have hChain := says_chain hKind hOp.lexeme hLeft hRight
  rw [← hOp.unlined_eq, ← hText, ← Level.plain_node] at hChain
  exact hChain

theorem printed_assign {target : Token} {value : Expr} (hTarget : target.IsScanned)
    (hKind : target.kind = .identifier) (h : Printed .expression value) :
    Printed .expression (.assign target value) := by
  have hAssign := says_assign (hKind ▸ hTarget.lexeme) h
  rw [← hKind, ← hTarget.unlined_eq, ← format_assign] at hAssign
  exact hAssign

/-- An expression that was derived from scanned tokens is printed. -/
theorem Derives.printed {rank : Rank} {w : List Token} {e : Expr} (h : Derives rank w e)
    (hScanned : ∀ t ∈ w, t.IsScanned) : Printed rank e := by
  induction h with
  | assign hTarget _ _ ih =>
      exact printed_assign (hScanned _ (by simp)) hTarget
        (ih fun t ht => hScanned t (by simp [ht]))
  | loosest _ ih => exact Says.mono (fun _ => .loosest) (ih hScanned)
  | operand _ ih => exact Says.mono (fun _ => .operand) (ih hScanned)
  | chain _ hForms _ ihLeft ihRight =>
      obtain ⟨hOp, rfl⟩ := Level.forms_iff.mp hForms
      exact printed_chain (hScanned _ (by simp)) hOp (ihLeft fun t ht => hScanned t (by simp [ht]))
        (ihRight fun t ht => hScanned t (by simp [ht]))
  | unary hOp _ ih =>
      exact printed_unary (hScanned _ (by simp)) (mem_unaryOperators.mpr hOp)
        (ih fun t ht => hScanned t (by simp [ht]))
  | primary _ ih => exact Says.mono (fun _ => .primary) (ih hScanned)
  | literal hKind => exact printed_literal (hScanned _ (by simp)) (mem_literalKinds.mpr hKind) _
  | name hKind => exact printed_name (hScanned _ (by simp)) hKind
  | group _ _ _ ih => exact printed_group (ih fun t ht => hScanned t (by simp [ht]))

end Expr
end Lox
