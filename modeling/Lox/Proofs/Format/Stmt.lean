import Lox.Proofs.Format.Expr

/-! The text of a statement spells tokens from which the statement can be derived again, at every
depth of nesting that it may be printed at. -/
namespace Lox

open Segment (Prints Begins Lexeme prints_lexeme begins_cons lexeme_keyword)

namespace Stmt

/-- Blanks at the start of a line spell no token. -/
theorem prints_indent {t : Text} {w : List Token} (h : Prints t w) (depth : Nat) :
    Prints (indent depth ++ t) w := by
  have hBlanks : Text.ofString "  " = [32, 32] := by decide
  induction depth with
  | zero => exact h
  | succ depth ih =>
      rw [indent, Text.times] at ih ⊢
      rw [List.replicate_succ, List.flatten_cons, hBlanks, List.append_assoc]
      rw [hBlanks] at ih
      exact ih.blank.blank

/-- What stands between a condition or `else` and the statement that it governs. -/
theorem prints_lead {t : Text} {w : List Token} (h : Prints t w) (afterElse : Bool) (depth : Nat)
    (s : Stmt) : Begins (lead afterElse depth s ++ t) ∧ Prints (lead afterElse depth s ++ t) w := by
  rw [lead]
  split
  · rw [Text.ofString_blank]
    exact ⟨begins_cons (by decide) _, h.blank⟩
  · have hText : Text.concat ["\n", indent (depth + 1)] ++ t = 10 :: (indent (depth + 1) ++ t) := by
      simp [Text.concat, Text.ofString_newline]
    rw [hText]
    exact ⟨begins_cons (by decide) _, (prints_indent h _).newline⟩

/-- An `else` is spelled on the line of the block before it or on a new one. -/
theorem prints_elseText {t : Text} {w : List Token} (h : Prints t w) (hBegins : Begins t)
    (depth : Nat) (yes : Stmt) :
    Begins (elseText depth yes ++ t) ∧
      Prints (elseText depth yes ++ t) (Token.read .elseWord "else" 0 :: w) := by
  have hElse := (prints_lexeme (@lexeme_keyword "else" .elseWord (by decide))).append hBegins h
  have hText : Text.ofString " else" = 32 :: Text.ofString "else" := by decide
  rw [elseText]
  split
  · rw [hText]
    exact ⟨begins_cons (by decide) _, hElse.blank⟩
  · have hLine : Text.concat ["\n", indent depth, "else"] ++ t =
        10 :: (indent depth ++ (Text.ofString "else" ++ t)) := by
      simp [Text.concat, Text.ofString_newline]
    rw [hLine]
    exact ⟨begins_cons (by decide) _, (prints_indent hElse _).newline⟩

/-- A word and a condition in parentheses after it. -/
theorem exists_prints_condition {s : String} {k : Kind} (hWord : (s, k) ∈ Kind.keywords)
    {text : Text} {c : Expr} (h : Expr.Says .expression text c) :
    ∃ wc, Condition wc c ∧ ∀ t w, Prints t w →
      Prints (Text.ofString s ++ 32 :: 40 :: (text ++ 41 :: t))
        (Token.read k (Text.ofString s) 0 :: wc ++ w) := by
  obtain ⟨wc, hPrints, hDerives⟩ := h
  refine ⟨Token.read .leftParen [40] 0 :: wc ++ [Token.read .rightParen [41] 0],
    .mk rfl hDerives rfl, fun t w ht => ?_⟩
  have hClose := hPrints.append (begins_cons (by decide) t)
    (ht.firm (b := 41) (k := .rightParen) (by decide))
  have hOpen := (hClose.firm (b := 40) (k := .leftParen) (by decide)).blank
  have hAll := (prints_lexeme (lexeme_keyword hWord)).append (begins_cons (by decide) _) hOpen
  simpa using hAll

/-- At every depth the text of the first statement spells tokens from which the second can be
derived. -/
def ReadsAs (nearest : Bool) (part : Part) (s s' : Stmt) : Prop :=
  ∀ depth, ∃ w, Prints (s.format depth) w ∧ Derives nearest part w [s']

section ReadsAs

variable {nearest : Bool}

/-- An expression statement is read back if its expression is. -/
theorem readsAs_expr {e e' : Expr} (h : Expr.Says .expression e.format e') :
    ReadsAs nearest (.statement false) (.expr e) (.expr e') := by
  intro depth
  obtain ⟨w, hPrints, hDerives⟩ := h
  refine ⟨w ++ [Token.read .semicolon [59] 0], ?_, .expr (.mk hDerives rfl)⟩
  have hText : (Stmt.expr e).format depth = e.format ++ [59] := by
    simp [format, Text.concat, Text.ofString_semicolon]
  rw [hText]
  exact hPrints.append (begins_cons (by decide) [])
    (Segment.prints_nil.firm (b := 59) (k := .semicolon) (by decide))

theorem readsAs_print {e e' : Expr} (h : Expr.Says .expression e.format e') (keyword : Token) :
    ReadsAs nearest (.statement false) (.print keyword e)
      (.print (Token.read .printWord "print" 0) e') := by
  intro depth
  obtain ⟨w, hPrints, hDerives⟩ := h
  have hText : (Stmt.print keyword e).format depth =
      Text.ofString "print" ++ 32 :: (e.format ++ [59]) := by
    have hWord : Text.ofString "print " = Text.ofString "print" ++ [32] := by decide
    simp [format, Text.concat, hWord, Text.ofString_semicolon]
  refine ⟨Token.read .printWord "print" 0 :: w ++ [Token.read .semicolon [59] 0], ?_,
    .print rfl hDerives rfl⟩
  rw [hText]
  have hEnd := hPrints.append (begins_cons (by decide) [])
    (Segment.prints_nil.firm (b := 59) (k := .semicolon) (by decide))
  exact (prints_lexeme (@lexeme_keyword "print" .printWord (by decide))).append
    (begins_cons (by decide) _) hEnd.blank

/-- A declaration is read back if its name is one and its value is read back. -/
theorem readsAs_declare {name : Text} {value value' : Option Expr} (hName : Lexeme .identifier name)
    (h : Option.Rel (fun e e' => Expr.Says .expression e.format e') value value') (token : Token) :
    ReadsAs nearest .declaration (.declare name token value)
      (.declare name (Token.read .identifier name 0) value') := by
  intro depth
  have hVar : Text.ofString "var " = Text.ofString "var" ++ [32] := by decide
  have hWord := prints_lexeme (@lexeme_keyword "var" .varWord (by decide))
  have hEnd := Segment.prints_nil.firm (b := 59) (k := .semicolon) (by decide)
  cases h with
  | none =>
      have hText : (Stmt.declare name token none).format depth =
          Text.ofString "var" ++ 32 :: (name ++ [59]) := by
        simp [format, Text.concat, hVar, Text.ofString_semicolon]
      refine ⟨Token.read .varWord "var" 0 :: Token.read .identifier name 0 ::
        [Token.read .semicolon [59] 0], ?_, .varDecl rfl (.bare rfl rfl)⟩
      rw [hText]
      have hMore := (prints_lexeme hName).append (begins_cons (by decide) []) hEnd
      exact hWord.append (begins_cons (by decide) _) hMore.blank
  | @some e e' hValue =>
      obtain ⟨w, hPrints, hDerives⟩ := hValue
      have hText : (Stmt.declare name token (some e)).format depth =
          Text.ofString "var" ++ 32 :: (name ++ 32 :: ([61] ++ 32 :: (e.format ++ [59]))) := by
        simp [format, Text.concat, hVar, Text.ofString_semicolon, Text.ofString_equal]
      refine ⟨Token.read .varWord "var" 0 :: Token.read .identifier name 0 ::
        Token.read .equal [61] 0 :: w ++ [Token.read .semicolon [59] 0], ?_,
        .varDecl rfl (.initialized rfl rfl hDerives rfl)⟩
      rw [hText]
      have hValue := (hPrints.append (begins_cons (by decide) []) hEnd).blank
      have hEqual := (prints_lexeme (.sign (k := .equal) (t := [61]) (by decide))).append
        (begins_cons (by decide) _) hValue
      have hMore := (prints_lexeme hName).append (begins_cons (by decide) _) hEqual.blank
      exact hWord.append (begins_cons (by decide) _) hMore.blank

/-- Declarations one to a line. -/
theorem prints_lines {ss ss' : List Stmt} (h : List.Forall₂ (ReadsAs nearest .declaration) ss ss')
    (depth : Nat) :
    ∃ w, Prints (Text.join "\n" (formatLines depth ss)) w ∧
      Derives nearest .declarations w ss' := by
  induction h with
  | nil => exact ⟨[], Segment.prints_nil, .nil⟩
  | @cons s s' ss ss' hHead hTail ih =>
      obtain ⟨w, hPrints, hDerives⟩ := hHead depth
      obtain ⟨w', hPrints', hDerives'⟩ := ih
      refine ⟨w ++ w', ?_, .cons hDerives hDerives'⟩
      cases hTail with
      | nil =>
          cases hDerives'
          simpa [formatLines, Text.join] using prints_indent hPrints depth
      | @cons next _ ss =>
          have hText : Text.join "\n" (formatLines depth (s :: next :: ss)) =
              indent depth ++ (s.format depth ++
                10 :: Text.join "\n" (formatLines depth (next :: ss))) := by
            simp [formatLines, Text.join, Text.ofString_newline, List.intercalate]
          rw [hText]
          exact prints_indent (hPrints.append (begins_cons (by decide) _) hPrints'.newline) depth

/-- A block is read back if its statements are. -/
theorem readsAs_block {body body' : List Stmt}
    (h : List.Forall₂ (ReadsAs nearest .declaration) body body') (line : Int) :
    ReadsAs nearest (.statement false) (.block line body) (.block 0 body') := by
  intro depth
  obtain ⟨w, hPrints, hDerives⟩ := prints_lines h (depth + 1)
  have hClose := Segment.prints_nil.firm (b := 125) (k := .rightBrace) (by decide)
  refine ⟨Token.read .leftBrace [123] 0 :: w ++ [Token.read .rightBrace [125] 0], ?_,
    .block rfl hDerives rfl⟩
  cases body with
  | nil =>
      cases h
      cases hDerives
      have hText : Text.ofString "\x7b\x7d" = [123, 125] := by decide
      rw [format, hText]
      exact hClose.firm (b := 123) (k := .leftBrace) (by decide)
  | cons s body =>
      have hText : (Stmt.block line (s :: body)).format depth =
          123 :: 10 :: (Text.join "\n" (formatLines (depth + 1) (s :: body)) ++
            10 :: (indent depth ++ [125])) := by
        have hOpen : Text.ofString "\x7b\n" = [123, 10] := by decide
        have hEnd : Text.ofString "\x7d" = [125] := by decide
        simp [format, Text.concat, hOpen, Text.ofString_newline, hEnd]
      rw [hText]
      have hEnd := (prints_indent hClose depth).newline
      have hBody := (hPrints.append (begins_cons (by decide) _) hEnd).newline
      exact hBody.firm (b := 123) (k := .leftBrace) (by decide)

variable {condition condition' : Expr}
  (hCondition : Expr.Says .expression condition.format condition')
include hCondition

/-- A loop is read back with the word `while`. -/
theorem readsAs_loop {body body' : Stmt} {d : Bool}
    (hBody : ReadsAs nearest (.statement d) body body') (keyword : Token) :
    ReadsAs nearest (.statement d) (.loop keyword condition body)
      (.loop (Token.read .whileWord "while" 0) condition' body') := by
  intro depth
  obtain ⟨w, hPrints, hDerives⟩ := hBody (governedDepth false depth body)
  obtain ⟨wc, hDerivesCondition, hPrintsCondition⟩ :=
    @exists_prints_condition "while" .whileWord (by decide) _ _ hCondition
  have hText : (Stmt.loop keyword condition body).format depth =
      Text.ofString "while" ++ 32 :: 40 :: (condition.format ++
        41 :: (lead false depth body ++ body.format (governedDepth false depth body))) := by
    have hWord : Text.ofString "while (" = Text.ofString "while" ++ [32, 40] := by decide
    simp [format, Text.concat, hWord, Text.ofString_rightParen]
  refine ⟨Token.read .whileWord "while" 0 :: wc ++ w, ?_, .whileLoop rfl hDerivesCondition hDerives⟩
  rw [hText]
  exact hPrintsCondition _ _ (prints_lead hPrints false depth body).2

/-- A branch without `else` is read back as one that dangles. -/
theorem readsAs_branch {yes yes' : Stmt} {d : Bool}
    (hYes : ReadsAs nearest (.statement d) yes yes') (keyword : Token) :
    ReadsAs nearest (.statement true) (.branch keyword condition yes none)
      (.branch (Token.read .ifWord "if" 0) condition' yes' none) := by
  intro depth
  obtain ⟨w, hPrints, hDerives⟩ := hYes (governedDepth false depth yes)
  obtain ⟨wc, hDerivesCondition, hPrintsCondition⟩ :=
    @exists_prints_condition "if" .ifWord (by decide) _ _ hCondition
  have hText : (Stmt.branch keyword condition yes none).format depth =
      Text.ofString "if" ++ 32 :: 40 :: (condition.format ++
        41 :: (lead false depth yes ++ yes.format (governedDepth false depth yes))) := by
    simp [format, Text.concat, Text.ofString_if, Text.ofString_rightParen]
  refine ⟨Token.read .ifWord "if" 0 :: wc ++ w, ?_, .ifThen rfl hDerivesCondition hDerives⟩
  rw [hText]
  exact hPrintsCondition _ _ (prints_lead hPrints false depth yes).2

/-- An `else` is read back with its own `if` if the branch before it is not dangling. -/
theorem readsAs_branchElse {yes yes' no no' : Stmt} {d₁ d₂ : Bool}
    (hYes : ReadsAs nearest (.statement d₁) yes yes') (hNearest : nearest = true → d₁ = false)
    (hNo : ReadsAs nearest (.statement d₂) no no') (keyword : Token) :
    ReadsAs nearest (.statement d₂) (.branch keyword condition yes (some no))
      (.branch (Token.read .ifWord "if" 0) condition' yes' (some no')) := by
  intro depth
  obtain ⟨w₁, hPrintsYes, hDerivesYes⟩ := hYes (governedDepth false depth yes)
  obtain ⟨w₂, hPrintsNo, hDerivesNo⟩ := hNo (governedDepth true depth no)
  obtain ⟨wc, hDerivesCondition, hPrintsCondition⟩ :=
    @exists_prints_condition "if" .ifWord (by decide) _ _ hCondition
  have hText : (Stmt.branch keyword condition yes (some no)).format depth =
      Text.ofString "if" ++ 32 :: 40 :: (condition.format ++
        41 :: (lead false depth yes ++ (yes.format (governedDepth false depth yes) ++
          (elseText depth yes ++ (lead true depth no ++
            no.format (governedDepth true depth no)))))) := by
    simp [format, Text.concat, Text.ofString_if, Text.ofString_rightParen]
  refine ⟨Token.read .ifWord "if" 0 :: wc ++ w₁ ++ Token.read .elseWord "else" 0 :: w₂, ?_,
    .ifElse rfl hDerivesCondition hDerivesYes hNearest rfl hDerivesNo⟩
  obtain ⟨hBeginsNo, hPrintsNo'⟩ := prints_lead hPrintsNo true depth no
  obtain ⟨hBeginsElse, hPrintsElse⟩ := prints_elseText hPrintsNo' hBeginsNo depth yes
  have hBranches := hPrintsYes.append hBeginsElse hPrintsElse
  rw [hText, List.append_assoc]
  exact hPrintsCondition _ _ (prints_lead hBranches false depth yes).2

end ReadsAs

theorem ReadsAs.declaration {nearest d : Bool} {s s' : Stmt}
    (h : ReadsAs nearest (.statement d) s s') : ReadsAs nearest .declaration s s' := by
  intro depth
  obtain ⟨w, hPrints, hDerives⟩ := h depth
  exact ⟨w, hPrints, .statement hDerives⟩

/-- At every depth the text of the statement spells tokens from which it can be derived. -/
def Printed (part : Part) (s : Stmt) : Prop :=
  ∀ depth, ∃ w, Prints (s.format depth) w ∧ Derives true part w [s.plain]

/-- A scanned word of a kind with one spelling. -/
theorem unlined_of_keyword {t : Token} {s : String} {k : Kind} (h : t.IsScanned) (hKind : t.kind = k)
    (hWord : (s, k) ∈ Kind.keywords) : t.unlined = Token.read k (Text.ofString s) 0 := by
  subst hKind
  have hFixed : (t.kind, Text.ofString s) ∈ Kind.fixed :=
    List.mem_append_right _ (List.mem_map.mpr ⟨(s, t.kind), hWord, rfl⟩)
  rw [h.unlined_eq, h.lexeme.eq_of_fixed hFixed]

/-- Every loop of a source is written back with `while`. -/
theorem plainWord_eq {t : Token} (h : t.IsScanned)
    (hKind : t.kind = .whileWord ∨ t.kind = .forWord) :
    plainWord t = Token.read .whileWord "while" 0 := by
  rw [plainWord]
  split
  next => rfl
  next hFor => exact unlined_of_keyword h (hKind.resolve_right hFor) (by decide)

theorem plain_block (line : Int) (body : List Stmt) :
    (Stmt.block line body).plain = .block 0 (body.map plain) := by
  rw [plain, rewrite, rewriteAll_eq_map]
  rfl

theorem printed_print {keyword : Token} {e : Expr} (hKeyword : keyword.IsScanned)
    (hKind : keyword.kind = .printWord) (h : Expr.Printed .expression e) :
    Printed (.statement false) (.print keyword e) := by
  have hPrint := @readsAs_print true e _ h keyword
  rw [← @unlined_of_keyword keyword "print" .printWord hKeyword hKind (by decide)] at hPrint
  exact hPrint

/-- A declaration of the source spells its name by a token. -/
theorem printed_declare {name : Token} {value : Option Expr} (hName : name.IsScanned)
    (hKind : name.kind = .identifier) (h : ∀ e ∈ value, Expr.Printed .expression e) :
    Printed .declaration (.declare name.lexeme name value) := by
  have hValue : Option.Rel (fun e e' => Expr.Says .expression e.format e') value
      (value.map Expr.plain) := by
    cases value with
    | none => exact .none
    | some e => exact .some (h e rfl)
  have hDeclare := @readsAs_declare true _ _ _ (hKind ▸ hName.lexeme) hValue name
  rw [← hKind, ← hName.unlined_eq] at hDeclare
  exact hDeclare

theorem forall₂_printed {ss : List Stmt} (h : ∀ s ∈ ss, Printed .declaration s) :
    List.Forall₂ (ReadsAs true .declaration) ss (ss.map plain) := by
  rw [List.forall₂_map_right_iff, List.forall₂_same]
  exact h

theorem printed_block {body : List Stmt} (h : ∀ s ∈ body, Printed .declaration s) (line : Int) :
    Printed (.statement false) (.block line body) := by
  rw [Printed, plain_block]
  exact readsAs_block (forall₂_printed h) line

/-- A loop of the source is written with `while`, whatever its word was. -/
theorem printed_loop {keyword : Token} {condition : Expr} {body : Stmt} {d : Bool}
    (hKeyword : keyword.IsScanned) (hKind : keyword.kind = .whileWord ∨ keyword.kind = .forWord)
    (hCondition : Expr.Printed .expression condition) (hBody : Printed (.statement d) body) :
    Printed (.statement d) (.loop keyword condition body) := by
  have hLoop := readsAs_loop hCondition hBody keyword
  rw [← plainWord_eq hKeyword hKind] at hLoop
  rw [Printed, plain, rewrite, Rewriting.loopWord_plain]
  exact hLoop

theorem printed_branch {keyword : Token} {condition : Expr} {yes : Stmt} {d : Bool}
    (hKeyword : keyword.IsScanned) (hKind : keyword.kind = .ifWord)
    (hCondition : Expr.Printed .expression condition) (hYes : Printed (.statement d) yes) :
    Printed (.statement true) (.branch keyword condition yes none) := by
  have hBranch := readsAs_branch hCondition hYes keyword
  rw [← @unlined_of_keyword keyword "if" .ifWord hKeyword hKind (by decide)] at hBranch
  exact hBranch

/-- An `else` is written where the nearest `if` is the one it belongs to. -/
theorem printed_branchElse {keyword : Token} {condition : Expr} {yes no : Stmt} {d : Bool}
    (hKeyword : keyword.IsScanned) (hKind : keyword.kind = .ifWord)
    (hCondition : Expr.Printed .expression condition) (hYes : Printed (.statement false) yes)
    (hNo : Printed (.statement d) no) :
    Printed (.statement d) (.branch keyword condition yes (some no)) := by
  have hBranch := readsAs_branchElse hCondition hYes (fun _ => rfl) hNo keyword
  rw [← @unlined_of_keyword keyword "if" .ifWord hKeyword hKind (by decide)] at hBranch
  exact hBranch

/-- A statement may stand where a declaration may. -/
theorem Printed.declaration {s : Stmt} {d : Bool} (h : Printed (.statement d) s) :
    Printed .declaration s :=
  ReadsAs.declaration h

/-- The condition of a statement is written as an expression. -/
theorem Condition.printed {w : List Token} {e : Expr} (h : Condition w e)
    (hScanned : ∀ t ∈ w, t.IsScanned) : Expr.Printed .expression e := by
  cases h with
  | mk _ hExpr _ => exact hExpr.printed fun t ht => hScanned t (by simp [ht])

/-- A simple statement of the source spells tokens that it can be derived from. -/
theorem Simple.printed {w : List Token} {s : Stmt} (h : Simple w s)
    (hScanned : ∀ t ∈ w, t.IsScanned) : Printed (.statement false) s := by
  cases h with
  | mk hExpr _ => exact readsAs_expr (hExpr.printed fun t ht => hScanned t (by simp [ht]))

theorem Variable.printed {w : List Token} {s : Stmt} (h : Variable w s)
    (hScanned : ∀ t ∈ w, t.IsScanned) : Printed .declaration s := by
  cases h with
  | bare hName _ => exact printed_declare (hScanned _ (by simp)) hName (by simp)
  | initialized hName _ hValue _ =>
      refine printed_declare (hScanned _ (by simp)) hName fun e he => ?_
      cases he
      exact hValue.printed fun t ht => hScanned t (by simp [ht])

theorem Start.printed {w : List Token} {start : Option Stmt} (h : Start w start)
    (hScanned : ∀ t ∈ w, t.IsScanned) : ∀ s ∈ start, Printed .declaration s := by
  intro s hs
  cases h with
  | missing => cases hs
  | declaration _ hVariable =>
      cases hs
      exact hVariable.printed fun t ht => hScanned t (by simp [ht])
  | expression hSimple =>
      cases hs
      exact (hSimple.printed hScanned).declaration

theorem Clause.printed {delimiter : Kind} {w : List Token} {clause : Option Expr}
    (h : Clause delimiter w clause) (hScanned : ∀ t ∈ w, t.IsScanned) :
    ∀ e ∈ clause, Expr.Printed .expression e := by
  intro e he
  cases h with
  | missing => cases he
  | expression hExpr _ =>
      cases he
      exact hExpr.printed fun t ht => hScanned t (by simp [ht])

/-- What is printed for a missing condition. -/
theorem printed_true (line : Int) : Expr.Printed .expression (.literal (some (.bool true)) line) := by
  obtain ⟨w, hPrints, hDerives⟩ := @Expr.printed_of_lexeme .trueWord (.bool true) line (by decide)
    (lexeme_keyword (by decide)) rfl rfl
  exact ⟨w, hPrints, Expr.Derives.of_factor (.operand (.primary hDerives))⟩

/-- What a derivation promises about the text of its trees. A counting loop is printed as a block, so
a dangling statement may be printed as one that is not. -/
def IsPrinted : Part → List Stmt → Prop
  | .statement d, ss => ∀ s ∈ ss, ∃ d', (d' = true → d = true) ∧ Printed (.statement d') s
  | .declaration, ss => ∀ s ∈ ss, Printed .declaration s
  | .declarations, ss => ∀ s ∈ ss, Printed .declaration s

/-- A counting loop is written as the block that it stands for. -/
theorem printed_counting {keyword : Token} {c : List Token} {start : Option Stmt}
    {condition step : Option Expr} {body : Stmt} {d : Bool} (hKeyword : keyword.IsScanned)
    (hKind : keyword.kind = .forWord) (hClauses : Clauses c (start, condition, step))
    (hScanned : ∀ t ∈ c, t.IsScanned) (hBody : Printed (.statement d) body) :
    Printed (.statement false) (counting keyword start condition step body) := by
  cases hClauses with
  | mk _ hStart hCondition hStep =>
      have hStart' := hStart.printed fun t ht => hScanned t (by simp [ht])
      have hCondition' := hCondition.printed fun t ht => hScanned t (by simp [ht])
      have hStep' := hStep.printed fun t ht => hScanned t (by simp [ht])
      have hTest : Expr.Printed .expression
          (condition.getD (.literal (some (.bool true)) keyword.line)) := by
        cases condition with
        | none => exact printed_true _
        | some e => exact hCondition' e rfl
      have hIteration : Printed (.statement false)
          (.block keyword.line (body :: (step.map Stmt.expr).toList)) := by
        refine printed_block (fun s hs => ?_) _
        rcases List.mem_cons.mp hs with rfl | hIn
        · exact hBody.declaration
        · obtain ⟨e, he, rfl⟩ := Option.map_eq_some_iff.mp (Option.mem_toList.mp hIn)
          exact ReadsAs.declaration (readsAs_expr (hStep' e he))
      have hLoop := printed_loop hKeyword (Or.inr hKind) hTest hIteration
      refine printed_block (fun s hs => ?_) _
      rcases List.mem_append.mp hs with hIn | hIn
      · exact hStart' s (Option.mem_toList.mp hIn)
      · rw [List.mem_singleton.mp hIn]
        exact hLoop.declaration

/-- A statement that was derived from scanned tokens is printed. -/
theorem Derives.printed {part : Part} {w : List Token} {ss : List Stmt}
    (h : Derives true part w ss) (hScanned : ∀ t ∈ w, t.IsScanned) : IsPrinted part ss := by
  induction h with
  | expr hSimple =>
      intro s hs
      rw [List.mem_singleton.mp hs]
      exact ⟨false, by simp, hSimple.printed hScanned⟩
  | print hKeyword hExpr _ =>
      intro s hs
      rw [List.mem_singleton.mp hs]
      exact ⟨false, by simp, printed_print (hScanned _ (by simp)) hKeyword
        (hExpr.printed fun t ht => hScanned t (by simp [ht]))⟩
  | block _ _ _ ih =>
      intro s hs
      rw [List.mem_singleton.mp hs]
      exact ⟨false, by simp, printed_block (ih fun t ht => hScanned t (by simp [ht])) _⟩
  | ifThen hKeyword hCondition _ ih =>
      intro s hs
      rw [List.mem_singleton.mp hs]
      obtain ⟨d', _, hYes⟩ := ih (fun t ht => hScanned t (by simp [ht])) _ List.mem_cons_self
      exact ⟨true, fun _ => rfl, printed_branch (hScanned _ (by simp)) hKeyword
        (hCondition.printed fun t ht => hScanned t (by simp [ht])) hYes⟩
  | ifElse hKeyword hCondition _ hNearest _ _ ihYes ihNo =>
      intro s hs
      rw [List.mem_singleton.mp hs]
      obtain ⟨d₁, hDangling, hYes⟩ :=
        ihYes (fun t ht => hScanned t (by simp [ht])) _ List.mem_cons_self
      obtain ⟨d₂, hDangling', hNo⟩ :=
        ihNo (fun t ht => hScanned t (by simp [ht])) _ List.mem_cons_self
      -- printing may close a dangling statement, but never opens one
      obtain rfl : d₁ = false := by simpa [hNearest rfl] using hDangling
      exact ⟨d₂, hDangling', printed_branchElse (hScanned _ (by simp)) hKeyword
        (hCondition.printed fun t ht => hScanned t (by simp [ht])) hYes hNo⟩
  | whileLoop hKeyword hCondition _ ih =>
      intro s hs
      rw [List.mem_singleton.mp hs]
      obtain ⟨d', hDangling, hBody⟩ :=
        ih (fun t ht => hScanned t (by simp [ht])) _ List.mem_cons_self
      exact ⟨d', hDangling, printed_loop (hScanned _ (by simp)) (Or.inl hKeyword)
        (hCondition.printed fun t ht => hScanned t (by simp [ht])) hBody⟩
  | forLoop hKeyword hClauses _ ih =>
      intro s hs
      rw [List.mem_singleton.mp hs]
      obtain ⟨d', _, hBody⟩ := ih (fun t ht => hScanned t (by simp [ht])) _ List.mem_cons_self
      exact ⟨false, by simp, printed_counting (hScanned _ (by simp)) hKeyword hClauses
        (fun t ht => hScanned t (by simp [ht])) hBody⟩
  | varDecl _ hVariable =>
      intro s hs
      rw [List.mem_singleton.mp hs]
      exact hVariable.printed fun t ht => hScanned t (by simp [ht])
  | statement _ ih =>
      intro s hs
      obtain ⟨_, _, hPrinted⟩ := ih hScanned s hs
      exact hPrinted.declaration
  | nil => exact fun s hs => absurd hs (by simp)
  | cons _ _ ihHead ihTail =>
      intro s hs
      rcases List.mem_cons.mp hs with rfl | hIn
      · exact ihHead (fun t ht => hScanned t (by simp [ht])) _ List.mem_cons_self
      · exact ihTail (fun t ht => hScanned t (by simp [ht])) s hIn

end Stmt
end Lox
