import Lox.Proofs.Format.Meaning
import Lox.Proofs.Grammar.Joining

/-! The tokens of a program and those of its text. A tree shows every token that it was read from, up
to lines, the spelling of numbers and the rewriting of `for`. So two sources that are read as the same
tree have the same tokens, and formatting neither adds nor drops one. -/
namespace Lox

namespace Token

/-- The tokens have the same kind and value, and the same spelling unless they are numbers. -/
structure Alike (t t' : Token) : Prop where
  kind : t.kind = t'.kind
  literal : t.literal = t'.literal
  lexeme : t.kind ≠ .number → t.lexeme = t'.lexeme

/-- What tokens that are alike have in common. -/
def gist (t : Token) : Token :=
  { t with lexeme := if t.kind = .number then [] else t.lexeme, line := 0 }

@[simp]
theorem gist_unlined (t : Token) : t.unlined.gist = t.gist := rfl

/-- Tokens with the same gist are alike. -/
theorem alike_of_gist_eq {t t' : Token} (h : t.gist = t'.gist) : t.Alike t' := by
  simp only [gist, Token.mk.injEq, and_true] at h
  obtain ⟨hKind, hLexeme, hLiteral⟩ := h
  refine ⟨hKind, hLiteral, fun hNumber => ?_⟩
  rwa [if_neg hNumber, if_neg (hKind ▸ hNumber)] at hLexeme

theorem forall₂_alike {w w' : List Token} (h : w.map gist = w'.map gist) :
    List.Forall₂ Alike w w' := by
  have hEq : List.Forall₂ (· = ·) (w.map gist) (w'.map gist) := by
    rwa [List.forall₂_eq_eq_eq]
  have hGists := List.forall₂_map_right_iff.mp (List.forall₂_map_left_iff.mp hEq)
  exact hGists.imp fun _ _ => alike_of_gist_eq

namespace IsScanned

/-- A scanned token that is no number is told by its kind and lexeme. -/
theorem gist_eq {t : Token} (h : t.IsScanned) (hKind : t.kind ≠ .number) :
    t.gist = Token.read t.kind t.lexeme 0 := by
  rw [← h.unlined_eq, gist, if_neg hKind, unlined]

/-- A scanned token of a kind with one spelling is told by its kind. -/
theorem gist_of_fixed {t : Token} {k : Kind} {s : Text} (h : t.IsScanned) (hKind : t.kind = k)
    (hFixed : (k, s) ∈ Kind.fixed) : t.gist = Token.read k s 0 := by
  have hNumber : ∀ entry ∈ Kind.fixed, entry.1 ≠ .number := by decide
  subst hKind
  rw [h.gist_eq (hNumber _ hFixed), h.lexeme.eq_of_fixed hFixed]

end IsScanned

/-- The token is not a number that overflowed. -/
def isFinite (t : Token) : Bool :=
  match t.literal with
  | some (.number x) => !x.isInf
  | _ => true

end Token

/-- The token of a value, where the spelling of a number is left out. -/
def Slot.token : Slot → Token
  | some (.number x) => ⟨.number, [], some (.number x), 0⟩
  | some (.string s) => ⟨.string, Text.quote :: (s ++ [Text.quote]), some (.string s), 0⟩
  | some (.bool true) => Token.read .trueWord "true" 0
  | some (.bool false) => Token.read .falseWord "false" 0
  | some .nil => Token.read .nilWord "nil" 0
  | none => Token.read .nilWord "nil" 0

/-- A scanned literal is told by its value. -/
theorem Token.IsScanned.gist_of_literal {t : Token} (h : t.IsScanned)
    (hKind : t.kind ∈ literalKinds) : t.gist = Slot.token (some (t.literal.getD .nil)) := by
  rcases h.literal_cases hKind with ⟨hNumber, hLiteral⟩ | ⟨hString, s, hText, hLiteral, -⟩ |
    ⟨hWord, hLiteral⟩ | ⟨hWord, hLiteral⟩ | ⟨hWord, hLiteral⟩ <;> rw [hLiteral, Option.getD_some]
  · rw [gist, if_pos hNumber, hLiteral, hNumber]
    rfl
  · rw [gist, if_neg (by simp [hString]), hLiteral, hString, hText]
    rfl
  · exact h.gist_of_fixed hWord (by decide)
  · exact h.gist_of_fixed hWord (by decide)
  · exact h.gist_of_fixed hWord (by decide)

namespace Expr

def yield : Expr → List Token
  | .literal value _ => [value.token]
  | .name token => [token.gist]
  | .assign target value => target.gist :: Token.read .equal "=" 0 :: value.yield
  | .binary left op right => left.yield ++ op.gist :: right.yield
  | .logical left op right => left.yield ++ op.gist :: right.yield
  | .unary op operand => op.gist :: operand.yield
  | .group inner =>
    Token.read .leftParen "(" 0 :: inner.yield ++ [Token.read .rightParen ")" 0]

@[simp]
theorem yield_node (level : Level) (left right : Expr) (op : Token) :
    (level.node left op right).yield = left.yield ++ op.gist :: right.yield := by
  cases level <;> rfl

/-- The tokens of an expression do not depend on lines. -/
@[simp]
theorem yield_unlined (e : Expr) : (e.rewrite .unlined).yield = e.yield := by
  induction e <;> simp_all [rewrite, yield]

/-- A literal that did not overflow is read back as it is. -/
theorem plainLiteral_of_isFinite {value : Slot} (h : (Slot.token value).isFinite = true) :
    plainLiteral value = .literal value 0 := by
  fun_cases plainLiteral value with
  | case1 x hInf =>
      have hFinite : (!x.isInf) = true := h
      simp_all
  | case2 => rfl
  | case3 => rfl

/-- A text without infinite numbers is read back as the tree itself. -/
theorem rewrite_plain_eq {e : Expr} (h : ∀ t ∈ e.yield, t.isFinite = true) :
    e.rewrite .plain = e.rewrite .unlined := by
  induction e with
  | literal value line =>
      simpa [rewrite] using plainLiteral_of_isFinite (h _ List.mem_cons_self)
  | _ => simp_all [rewrite, yield, or_imp, forall_and]

/-- An expression without numbers that overflowed is read back as it is. -/
theorem rewrite_plain_of_group {e : Expr} (h : ∀ t ∈ e.group.yield, t.isFinite = true) :
    e.rewrite .plain = e.rewrite .unlined := by
  refine rewrite_plain_eq fun t ht => h t ?_
  simp [yield, ht]

/-- The tokens from which an expression is derived are its own. -/
theorem Derives.map_gist {rank : Rank} {w : List Token} {e : Expr} (h : Derives rank w e)
    (hScanned : ∀ t ∈ w, t.IsScanned) : w.map Token.gist = e.yield := by
  induction h with
  | assign _ hEqual _ ih =>
      simp only [List.forall_mem_cons] at hScanned
      simp [yield, hScanned.2.1.gist_of_fixed hEqual (s := "=") (by decide), ih hScanned.2.2]
  | loosest _ ih => exact ih hScanned
  | operand _ ih => exact ih hScanned
  | chain _ hForms _ ihLeft ihRight =>
      obtain ⟨-, rfl⟩ := Level.forms_iff.mp hForms
      simp only [List.forall_mem_append, List.forall_mem_cons] at hScanned
      simp [ihLeft hScanned.1, ihRight hScanned.2.2]
  | unary _ _ ih =>
      simp only [List.forall_mem_cons] at hScanned
      simp [yield, ih hScanned.2]
  | primary _ ih => exact ih hScanned
  | literal hKind =>
      simp [yield, (hScanned _ List.mem_cons_self).gist_of_literal (mem_literalKinds.mpr hKind)]
  | name => rfl
  | group hOpening _ hClosing ih =>
      simp only [List.cons_append, List.forall_mem_cons, List.forall_mem_append] at hScanned
      simp [yield, hScanned.1.gist_of_fixed hOpening (s := "(") (by decide), ih hScanned.2.1,
        hScanned.2.2.1.gist_of_fixed hClosing (s := ")") (by decide)]

end Expr

namespace Stmt

mutual

/-- The tokens of a statement whose loops are written with `while`. -/
def yield : Stmt → List Token
  | .expr e => e.yield ++ [Token.read .semicolon ";" 0]
  | .print keyword e => keyword.gist :: e.yield ++ [Token.read .semicolon ";" 0]
  | .declare _ token none =>
    [Token.read .varWord "var" 0, token.gist, Token.read .semicolon ";" 0]
  | .declare _ token (some value) =>
    Token.read .varWord "var" 0 :: token.gist :: Token.read .equal "=" 0 :: value.yield ++
      [Token.read .semicolon ";" 0]
  | .block _ body =>
    Token.read .leftBrace "\x7b" 0 :: yieldAll body ++ [Token.read .rightBrace "\x7d" 0]
  | .branch keyword condition yes none =>
    keyword.gist :: condition.group.yield ++ yes.yield
  | .branch keyword condition yes (some no) =>
    keyword.gist :: condition.group.yield ++ yes.yield ++ Token.read .elseWord "else" 0 :: no.yield
  | .loop keyword condition body => keyword.gist :: condition.group.yield ++ body.yield

def yieldAll : List Stmt → List Token
  | [] => []
  | s :: rest => s.yield ++ yieldAll rest

end

mutual

/-- The tokens of a statement do not depend on lines. -/
theorem yield_unlined : (s : Stmt) → (s.rewrite .unlined).yield = s.yield
  | .expr e => by simp [rewrite, yield]
  | .print keyword e => by simp [rewrite, yield]
  | .declare _ token none => by simp [rewrite, yield]
  | .declare _ token (some value) => by simp [rewrite, yield]
  | .block _ body => by simp [rewrite, yield, yieldAll_unlined body]
  | .branch keyword condition yes none => by
      simp [rewrite, yield, Expr.yield, yield_unlined yes]
  | .branch keyword condition yes (some no) => by
      simp [rewrite, yield, Expr.yield, yield_unlined yes, yield_unlined no]
  | .loop keyword condition body => by
      simp [rewrite, yield, Expr.yield, yield_unlined body]

theorem yieldAll_unlined : (ss : List Stmt) → yieldAll (rewriteAll .unlined ss) = yieldAll ss
  | [] => by rw [rewriteAll]
  | s :: ss => by rw [rewriteAll, yieldAll, yieldAll, yield_unlined s, yieldAll_unlined ss]

end

mutual

theorem loopWords_rewrite (r : Rewriting) :
    (s : Stmt) → (s.rewrite r).loopWords = s.loopWords.map r.loopWord
  | .expr e => by simp [rewrite, loopWords]
  | .print keyword e => by simp [rewrite, loopWords]
  | .declare _ token value => by simp [rewrite, loopWords]
  | .block _ body => by simp [rewrite, loopWords, loopWordsAll_rewrite r body]
  | .branch keyword condition yes none => by simp [rewrite, loopWords, loopWords_rewrite r yes]
  | .branch keyword condition yes (some no) => by
      simp [rewrite, loopWords, loopWords_rewrite r yes, loopWords_rewrite r no]
  | .loop keyword condition body => by simp [rewrite, loopWords, loopWords_rewrite r body]

theorem loopWordsAll_rewrite (r : Rewriting) :
    (ss : List Stmt) → loopWordsAll (rewriteAll r ss) = (loopWordsAll ss).map r.loopWord
  | [] => by simp [rewriteAll, loopWordsAll]
  | s :: ss => by
      simp [rewriteAll, loopWordsAll, loopWords_rewrite r s, loopWordsAll_rewrite r ss]

end

mutual

/-- A text without infinite numbers and without `for` is read back as the tree itself. -/
theorem rewrite_plain_eq : (s : Stmt) → (∀ t ∈ s.yield, t.isFinite = true) →
    (∀ t ∈ s.loopWords, t.kind ≠ .forWord) → s.rewrite .plain = s.rewrite .unlined
  | .expr e, hFinite, _ => by
      simp only [yield, List.forall_mem_append] at hFinite
      simp [rewrite, Expr.rewrite_plain_eq hFinite.1]
  | .print keyword e, hFinite, _ => by
      simp only [yield, List.cons_append, List.forall_mem_cons, List.forall_mem_append] at hFinite
      simp [rewrite, Expr.rewrite_plain_eq hFinite.2.1]
  | .declare _ token none, _, _ => by simp [rewrite]
  | .declare _ token (some value), hFinite, _ => by
      simp only [yield, List.cons_append, List.forall_mem_cons, List.forall_mem_append] at hFinite
      simp [rewrite, Expr.rewrite_plain_eq hFinite.2.2.2.1]
  | .block _ body, hFinite, hWords => by
      simp only [yield, List.cons_append, List.forall_mem_cons, List.forall_mem_append] at hFinite
      rw [loopWords] at hWords
      simp [rewrite, rewriteAll_plain_eq body hFinite.2.1 hWords]
  | .branch keyword condition yes none, hFinite, hWords => by
      simp only [yield, List.cons_append, List.forall_mem_cons, List.forall_mem_append] at hFinite
      rw [loopWords] at hWords
      simp [rewrite, Expr.rewrite_plain_of_group hFinite.2.1,
        rewrite_plain_eq yes hFinite.2.2 hWords]
  | .branch keyword condition yes (some no), hFinite, hWords => by
      simp only [yield, List.cons_append, List.forall_mem_cons, List.forall_mem_append] at hFinite
      simp only [loopWords, List.forall_mem_append] at hWords
      obtain ⟨-, ⟨hCondition, hYes⟩, -, hNo⟩ := hFinite
      simp [rewrite, Expr.rewrite_plain_of_group hCondition, rewrite_plain_eq yes hYes hWords.1,
        rewrite_plain_eq no hNo hWords.2]
  | .loop keyword condition body, hFinite, hWords => by
      simp only [yield, List.cons_append, List.forall_mem_cons, List.forall_mem_append] at hFinite
      simp only [loopWords, List.forall_mem_cons] at hWords
      simp [rewrite, Expr.rewrite_plain_of_group hFinite.2.1, plainWord, hWords.1,
        rewrite_plain_eq body hFinite.2.2 hWords.2]

/-- Without `for` and without numbers that overflowed, reading back only drops lines. -/
theorem rewriteAll_plain_eq : (ss : List Stmt) → (∀ t ∈ yieldAll ss, t.isFinite = true) →
    (∀ t ∈ loopWordsAll ss, t.kind ≠ .forWord) → rewriteAll .plain ss = rewriteAll .unlined ss
  | [], _, _ => by rw [rewriteAll, rewriteAll]
  | s :: ss, hFinite, hWords => by
      simp only [yieldAll, List.forall_mem_append] at hFinite
      simp only [loopWordsAll, List.forall_mem_append] at hWords
      rw [rewriteAll, rewriteAll, rewrite_plain_eq s hFinite.1 hWords.1,
        rewriteAll_plain_eq ss hFinite.2 hWords.2]

end

theorem yieldAll_singleton (s : Stmt) : yieldAll [s] = s.yield := by
  simp [yieldAll]

theorem loopWordsAll_singleton (s : Stmt) : loopWordsAll [s] = s.loopWords := by
  simp [loopWordsAll]

/-- The tokens of a condition are those of its expression in parentheses. -/
theorem Condition.map_gist {w : List Token} {e : Expr} (h : Condition w e)
    (hScanned : ∀ t ∈ w, t.IsScanned) : w.map Token.gist = e.group.yield := by
  cases h with
  | mk hOpening h hClosing => exact (Expr.Derives.group hOpening h hClosing).map_gist hScanned

/-- The tokens from which a simple statement is derived are its own. -/
theorem Simple.map_gist {w : List Token} {s : Stmt} (h : Simple w s)
    (hScanned : ∀ t ∈ w, t.IsScanned) : w.map Token.gist = s.yield := by
  cases h with
  | mk h hSemicolon =>
      simp only [List.forall_mem_append, List.forall_mem_cons] at hScanned
      simp [yield, h.map_gist hScanned.1,
        hScanned.2.1.gist_of_fixed hSemicolon (s := ";") (by decide)]

/-- The tokens from which a declaration is derived are its own. -/
theorem Variable.map_gist {var : Token} {w : List Token} {s : Stmt} (h : Variable w s)
    (hVar : var.kind = .varWord) (hScanned : ∀ t ∈ var :: w, t.IsScanned) :
    (var :: w).map Token.gist = s.yield := by
  cases h with
  | bare _ hSemicolon =>
      simp only [List.forall_mem_cons] at hScanned
      simp [yield, hScanned.1.gist_of_fixed hVar (s := "var") (by decide),
        hScanned.2.2.1.gist_of_fixed hSemicolon (s := ";") (by decide)]
  | initialized _ hEqual h hSemicolon =>
      simp only [List.cons_append, List.forall_mem_cons, List.forall_mem_append] at hScanned
      obtain ⟨hScannedVar, -, hScannedEqual, hValue, hLast, -⟩ := hScanned
      simp [yield, hScannedVar.gist_of_fixed hVar (s := "var") (by decide),
        hScannedEqual.gist_of_fixed hEqual (s := "=") (by decide), h.map_gist hValue,
        hLast.gist_of_fixed hSemicolon (s := ";") (by decide)]

/-- Statements without `for` show every token that they are derived from. -/
theorem Derives.map_gist {nearest : Bool} {part : Part} {w : List Token} {ss : List Stmt}
    (h : Derives nearest part w ss) (hScanned : ∀ t ∈ w, t.IsScanned)
    (hWords : ∀ t ∈ loopWordsAll ss, t.kind ≠ .forWord) : w.map Token.gist = yieldAll ss := by
  induction h with
  | expr hSimple => rw [yieldAll_singleton, hSimple.map_gist hScanned]
  | print _ h hSemicolon =>
      simp only [List.cons_append, List.forall_mem_cons, List.forall_mem_append] at hScanned
      simp [yieldAll, yield, h.map_gist hScanned.2.1,
        hScanned.2.2.1.gist_of_fixed hSemicolon (s := ";") (by decide)]
  | block hOpening _ hClosing ih =>
      simp only [List.cons_append, List.forall_mem_cons, List.forall_mem_append] at hScanned
      rw [loopWordsAll_singleton, Stmt.loopWords] at hWords
      simp [yieldAll, yield, hScanned.1.gist_of_fixed hOpening (s := "\x7b") (by decide),
        ih hScanned.2.1 hWords, hScanned.2.2.1.gist_of_fixed hClosing (s := "\x7d") (by decide)]
  | ifThen _ hCondition _ ih =>
      simp only [List.cons_append, List.forall_mem_cons, List.forall_mem_append] at hScanned
      rw [loopWordsAll_singleton, Stmt.loopWords] at hWords
      simp only [yieldAll_singleton, loopWordsAll_singleton] at ih ⊢
      simp [yield, hCondition.map_gist hScanned.2.1, ih hScanned.2.2 hWords]
  | ifElse _ hCondition _ _ hOther _ ihYes ihNo =>
      simp only [List.cons_append, List.forall_mem_cons, List.forall_mem_append] at hScanned
      simp only [loopWordsAll_singleton, Stmt.loopWords, List.forall_mem_append] at hWords
      simp only [yieldAll_singleton, loopWordsAll_singleton] at ihYes ihNo ⊢
      obtain ⟨-, ⟨hScannedCondition, hYes⟩, hScannedOther, hNo⟩ := hScanned
      simp [yield, hCondition.map_gist hScannedCondition, ihYes hYes hWords.1,
        hScannedOther.gist_of_fixed hOther (s := "else") (by decide), ihNo hNo hWords.2]
  | whileLoop _ hCondition _ ih =>
      simp only [List.cons_append, List.forall_mem_cons, List.forall_mem_append] at hScanned
      simp only [loopWordsAll_singleton, Stmt.loopWords, List.forall_mem_cons] at hWords
      simp only [yieldAll_singleton, loopWordsAll_singleton] at ih ⊢
      simp [yield, hCondition.map_gist hScanned.2.1, ih hScanned.2.2 hWords.2]
  | forLoop hKeyword hClauses _ _ =>
      -- the tree has the word `for` in it, though as the word of a loop that `while` could begin
      rw [loopWordsAll_singleton, ← counting, loopWords_counting hClauses] at hWords
      exact absurd hKeyword (hWords _ List.mem_cons_self)
  | varDecl hVar hVariable => rw [yieldAll_singleton, hVariable.map_gist hVar hScanned]
  | statement _ ih => exact ih hScanned hWords
  | nil => rw [yieldAll, List.map_nil]
  | cons _ _ ihHead ihTail =>
      simp only [List.forall_mem_append] at hScanned
      simp only [loopWordsAll, List.forall_mem_append] at hWords
      rw [loopWordsAll_singleton, yieldAll_singleton] at ihHead
      rw [List.map_append, yieldAll, ihHead hScanned.1 hWords.1, ihTail hScanned.2 hWords.2]

end Stmt

namespace Program

/-- A source without the word `for` has no loop that is written with it. -/
theorem forall_loopWords_ofSource {source : Text} (h : (ofSource source).diagnostics = [])
    (hFor : ∀ t ∈ Scan.lexemes source, t.kind ≠ .forWord) :
    ∀ t ∈ Stmt.loopWordsAll (ofSource source).program.statements, t.kind ≠ .forWord := by
  intro t ht
  obtain ⟨s, hs, hMem⟩ := Stmt.mem_loopWordsAll.mp ht
  exact hFor t ((derives_of_ofSource h).2.loopWords s hs t hMem).1

/-- The program shows every token of a source without `for` that it is read from. -/
theorem map_gist_lexemes {source : Text} (h : (ofSource source).diagnostics = [])
    (hWords : ∀ t ∈ Stmt.loopWordsAll (ofSource source).program.statements, t.kind ≠ .forWord) :
    (Scan.lexemes source).map Token.gist = Stmt.yieldAll (ofSource source).program.statements :=
  (derives_of_ofSource h).2.map_gist (fun _ => Scan.isScanned_of_mem) hWords

/-- Sources without `for` that are read as the same program have the same tokens. -/
theorem map_gist_lexemes_eq {a b : Text} (ha : (ofSource a).diagnostics = [])
    (hb : (ofSource b).diagnostics = [])
    (hProgram : (ofSource a).program.unlined = (ofSource b).program.unlined)
    (hFor : ∀ t ∈ Scan.lexemes a, t.kind ≠ .forWord) :
    (Scan.lexemes a).map Token.gist = (Scan.lexemes b).map Token.gist := by
  have hTrees : Stmt.rewriteAll .unlined (ofSource a).program.statements =
      Stmt.rewriteAll .unlined (ofSource b).program.statements := by
    rw [Stmt.rewriteAll_eq_map, Stmt.rewriteAll_eq_map]
    exact congrArg Program.statements hProgram
  have hWords := forall_loopWords_ofSource ha hFor
  have hWords' : ∀ t ∈ Stmt.loopWordsAll (ofSource b).program.statements, t.kind ≠ .forWord := by
    intro t ht
    have hLoops := congrArg Stmt.loopWordsAll hTrees
    rw [Stmt.loopWordsAll_rewrite, Stmt.loopWordsAll_rewrite] at hLoops
    obtain ⟨t', ht', hEq⟩ := List.mem_map.mp (hLoops ▸ List.mem_map_of_mem ht)
    exact fun hKind => hWords t' ht' ((congrArg Token.kind hEq).trans hKind)
  rw [map_gist_lexemes ha hWords, map_gist_lexemes hb hWords', ← Stmt.yieldAll_unlined, hTrees,
    Stmt.yieldAll_unlined]

/-- The text of a program that is read from a source without `for` and without numbers that overflow
is read as that program. -/
theorem unlined_ofSource_format {source : Text} (h : (ofSource source).diagnostics = [])
    (hFor : ∀ t ∈ Scan.lexemes source, t.kind ≠ .forWord)
    (hFinite : ∀ t ∈ Scan.lexemes source, t.isFinite = true) :
    (ofSource (ofSource source).program.format).diagnostics = [] ∧
      (ofSource (ofSource source).program.format).program.unlined =
        (ofSource source).program.unlined := by
  obtain ⟨w, hPrints, hDerives⟩ := exists_prints_format fun s => printed_of_mem_ofSource (s := s)
  obtain ⟨hDiagnostics, hProgram⟩ := ofSource_of_prints hPrints hDerives
  refine ⟨hDiagnostics, ?_⟩
  have hWords := forall_loopWords_ofSource h hFor
  have hShown : ∀ t ∈ Stmt.yieldAll (ofSource source).program.statements, t.isFinite = true := by
    rw [← map_gist_lexemes h hWords, List.forall_mem_map]
    exact hFinite
  have hPlain := Stmt.rewriteAll_plain_eq _ hShown hWords
  rw [Stmt.rewriteAll_eq_map, Stmt.rewriteAll_eq_map] at hPlain
  rw [hProgram, unlined_plain, plain, rewrite, hPlain]
  rfl

/-- If nothing is wrong with a source, it has no `for` and none of its numbers overflows, the text of
its program has the same tokens: as many, and each of the same kind, value and spelling, except that
a number may be spelled otherwise. -/
theorem tokens_format_alike {source : Text} (h : (ofSource source).diagnostics = [])
    (hFor : ∀ t ∈ (Scan.ofSource source).tokens, t.kind ≠ .forWord)
    (hFinite : ∀ t ∈ (Scan.ofSource source).tokens, t.isFinite = true) :
    let text := (ofSource source).program.format
    (Scan.ofSource text).diagnostics = [] ∧
      List.Forall₂ Token.Alike (Scan.ofSource source).tokens (Scan.ofSource text).tokens := by
  intro text
  rw [Scan.tokens_ofSource, List.forall_mem_append] at hFor hFinite
  obtain ⟨hDiagnostics, hProgram⟩ := unlined_ofSource_format h hFor.1 hFinite.1
  refine ⟨(derives_of_ofSource hDiagnostics).1, Token.forall₂_alike ?_⟩
  rw [Scan.tokens_ofSource, Scan.tokens_ofSource, List.map_append, List.map_append,
    map_gist_lexemes_eq h hDiagnostics hProgram.symm hFor.1]
  rfl

/-- A source with a comment, and with a numeral that is spelled in another way than in the text. -/
theorem tokens_format_alike_branches :
    let source : Text :=
      "if ((1.50) < 2 == true) \x7b // both\n var s = \"a\"; \x7d else while (!s) s = -(s);"
    let text := (ofSource source).program.format
    (ofSource source).diagnostics = [] ∧
      (∀ t ∈ (Scan.ofSource source).tokens, t.kind ≠ .forWord ∧ t.isFinite = true) ∧
      (Scan.ofSource text).diagnostics = [] ∧
      List.Forall₂ Token.Alike (Scan.ofSource source).tokens (Scan.ofSource text).tokens := by
  intro source text
  have hRead : (ofSource source).diagnostics = [] := by decide +kernel
  have hTokens : ∀ t ∈ (Scan.ofSource source).tokens, t.kind ≠ .forWord ∧ t.isFinite = true := by
    decide +kernel
  exact ⟨hRead, hTokens,
    tokens_format_alike hRead (fun t ht => (hTokens t ht).1) (fun t ht => (hTokens t ht).2)⟩

end Program
end Lox
