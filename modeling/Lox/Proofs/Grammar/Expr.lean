import Lox.Program.ExprReader
import Lox.Proofs.Grammar.Reading

/-! The grammar of expressions as a relation between tokens and trees, and the proof that the
reader of expressions takes exactly the phrases of the grammar, each as long as possible. -/
namespace Lox

/-- The nonterminals of the grammar of expressions, from the loosest to the tightest. -/
inductive Rank where
  | expression
  | level (level : Level)
  | unary
  | primary
  deriving DecidableEq, Repr

def Level.operand : Level → Rank
  | .or => .level .and
  | .and => .level .equality
  | .equality => .level .comparison
  | .comparison => .level .term
  | .term => .level .factor
  | .factor => .unary

/-- The operators between two operands: the level of each, and the tree that it forms with them. -/
inductive Level.Forms : Level → Kind → (Expr → Token → Expr → Expr) → Prop where
  | or : Forms .or .orWord .logical
  | and : Forms .and .andWord .logical
  | equal : Forms .equality .equalEqual .binary
  | notEqual : Forms .equality .bangEqual .binary
  | greater : Forms .comparison .greater .binary
  | greaterEqual : Forms .comparison .greaterEqual .binary
  | less : Forms .comparison .less .binary
  | lessEqual : Forms .comparison .lessEqual .binary
  | plus : Forms .term .plus .binary
  | minus : Forms .term .minus .binary
  | star : Forms .factor .star .binary
  | slash : Forms .factor .slash .binary

/-- The tokens are derivable from a nonterminal, and the tree is that of the derivation. Operators
of one level group to the left because only their left operand may be of the same level. -/
inductive Expr.Derives : Rank → List Token → Expr → Prop where
  | assign {target equal : Token} {w : List Token} {value : Expr}
      (hTarget : target.kind = .identifier) (hEqual : equal.kind = .equal)
      (hValue : Derives .expression w value) :
      Derives .expression (target :: equal :: w) (.assign target value)
  | loosest {w : List Token} {e : Expr} (h : Derives (.level .or) w e) :
      Derives .expression w e
  | operand {level : Level} {w : List Token} {e : Expr} (h : Derives level.operand w e) :
      Derives (.level level) w e
  | chain {level : Level} {node : Expr → Token → Expr → Expr} {w₁ w₂ : List Token} {left right : Expr}
      {op : Token} (hLeft : Derives (.level level) w₁ left) (hOp : level.Forms op.kind node)
      (hRight : Derives level.operand w₂ right) :
      Derives (.level level) (w₁ ++ op :: w₂) (node left op right)
  | unary {op : Token} {w : List Token} {operand : Expr} (hOp : op.kind = .bang ∨ op.kind = .minus)
      (hOperand : Derives .unary w operand) :
      Derives .unary (op :: w) (.unary op operand)
  | primary {w : List Token} {e : Expr} (h : Derives .primary w e) :
      Derives .unary w e
  | literal {t : Token} (h : t.kind = .number ∨ t.kind = .string ∨ t.kind = .trueWord ∨
        t.kind = .falseWord ∨ t.kind = .nilWord) :
      Derives .primary [t] (.literal (some (t.literal.getD .nil)) t.line)
  | name {t : Token} (h : t.kind = .identifier) :
      Derives .primary [t] (.name t)
  | group {opening closing : Token} {w : List Token} {inner : Expr}
      (hOpening : opening.kind = .leftParen) (hInner : Derives .expression w inner)
      (hClosing : closing.kind = .rightParen) :
      Derives .primary (opening :: w ++ [closing]) (.group inner)

/-- The operands of a level are of the next tighter one, or unary. -/
theorem Level.operand_eq (level : Level) : level.operand = level.tighter.elim .unary .level := by
  cases level <;> rfl

/-- The reader has the operators of the grammar, and forms the trees that the grammar asks for. -/
theorem Level.forms_iff {level : Level} {k : Kind} {node : Expr → Token → Expr → Expr} :
    level.Forms k node ↔ k ∈ level.operators ∧ node = level.node := by
  constructor
  · rintro (_ | _) <;> exact ⟨by decide, rfl⟩
  · rintro ⟨hOp, rfl⟩
    cases level with
    | or =>
        obtain rfl := List.mem_singleton.mp hOp
        exact .or
    | and =>
        obtain rfl := List.mem_singleton.mp hOp
        exact .and
    | equality =>
        rcases List.mem_pair.mp hOp with rfl | rfl
        · exact .equal
        · exact .notEqual
    | comparison =>
        simp only [operators, List.mem_cons, List.not_mem_nil, or_false] at hOp
        rcases hOp with rfl | rfl | rfl | rfl
        · exact .greater
        · exact .greaterEqual
        · exact .less
        · exact .lessEqual
    | term =>
        rcases List.mem_pair.mp hOp with rfl | rfl
        · exact .plus
        · exact .minus
    | factor =>
        rcases List.mem_pair.mp hOp with rfl | rfl
        · exact .star
        · exact .slash

theorem mem_unaryOperators {k : Kind} : k ∈ unaryOperators ↔ k = .bang ∨ k = .minus := List.mem_pair

theorem mem_literalKinds {k : Kind} : k ∈ literalKinds ↔
    k = .number ∨ k = .string ∨ k = .trueWord ∨ k = .falseWord ∨ k = .nilWord := by
  simp [literalKinds]

/-- No operator at least as tight as `height` is of this kind. -/
def Kind.EndsOperand (height : Nat) (k : Kind) : Prop :=
  ∀ level : Level, level.height ≤ height → k ∉ level.operators

/-- A token of this kind cannot go on a phrase that is an expression. -/
def Kind.EndsExpr (k : Kind) : Prop := k.EndsOperand 6 ∧ k ≠ .equal

namespace Kind

theorem EndsOperand.mono {m n : Nat} {k : Kind} (h : k.EndsOperand n) (hLe : m ≤ n) :
    k.EndsOperand m :=
  fun level hLevel => h level (Nat.le_trans hLevel hLe)

/-- What is no operator of a level and of none below ends operands of that level. -/
theorem endsOperand_succ {level : Level} {n : Nat} {k : Kind} (hHeight : level.height = n + 1)
    (h : k.EndsOperand n) (hNot : k ∉ level.operators) : k.EndsOperand level.height := by
  intro other hOther
  by_cases hLess : other.height ≤ n
  · exact h other hLess
  · have hEq : other = level := by
      cases other <;> cases level <;> simp_all [Level.height]
    exact hEq ▸ hNot

/-- What ends an operand is no operator of a tighter level. -/
theorem EndsOperand.notMem {level : Level} {n : Nat} {k : Kind} (h : k.EndsOperand n)
    (hLevel : level.height ≤ n) : k ∉ level.operators :=
  h level hLevel

theorem endsOperand_equal (n : Nat) : Kind.EndsOperand n .equal := by
  intro level _
  cases level <;> decide

end Kind

namespace Expr

open Reading (ahead)

/-- An expression is a chain of operators, or an assignment to a name. -/
theorem reads_read {ts rest : List Token} {e : Expr} :
    (read ts).Reads e rest ↔
      ((readLevel .or ts).Reads e rest ∧ ahead rest ≠ .equal) ∨
      ∃ target equal middle value, (readLevel .or ts).Reads (.name target) (equal :: middle) ∧
        equal.kind = .equal ∧ (read middle).Reads value rest ∧ e = .assign target value := by
  rw [read]
  split
  next problem left atMost h => simp [h]
  next left fewer h =>
    simp only [h, Reading.reads_done]
    constructor
    · rintro ⟨rfl, rfl⟩
      exact Or.inl ⟨⟨rfl, rfl⟩, by simp [ahead]⟩
    · rintro (⟨hEq, _⟩ | ⟨_, _, _, _, ⟨_, hNil⟩, _⟩)
      · exact hEq
      · exact absurd hNil (by simp)
  next left t middle fewer h =>
    simp only [h, Reading.reads_done]
    split
    next hEqual =>
      split
      next target =>
        constructor
        · intro hReads
          split at hReads
          next => simp at hReads
          next value rest' _ hValue =>
            simp only [Reading.reads_done] at hReads
            obtain ⟨rfl, rfl⟩ := hReads
            exact Or.inr ⟨target, t, middle, value, ⟨rfl, rfl⟩, hEqual, by simp [hValue], rfl⟩
        · rintro (⟨⟨_, rfl⟩, hAhead⟩ | ⟨target', t', middle', value, ⟨hName, hRest⟩, _, hValue, rfl⟩)
          · exact absurd hEqual hAhead
          · cases hName
            cases hRest
            obtain ⟨fewer'', hValue⟩ := hValue
            simp [hValue]
      next hNotName =>
        simp only [Reading.reads_failed, false_iff]
        rintro (⟨⟨_, rfl⟩, hAhead⟩ | ⟨target', _, _, _, ⟨hName, _⟩, _⟩)
        · exact hAhead hEqual
        · exact hNotName target' hName
    next hNotEqual =>
      simp only [Reading.reads_done]
      constructor
      · rintro ⟨rfl, rfl⟩
        exact Or.inl ⟨⟨rfl, rfl⟩, hNotEqual⟩
      · rintro (⟨hEq, _⟩ | ⟨_, _, _, _, ⟨_, hRest⟩, hEqual, _⟩)
        · exact hEq
        · cases hRest
          exact absurd hEqual hNotEqual

/-- A phrase of a level is an operand and a chain of operators after it. -/
theorem reads_readLevel {level : Level} {ts rest : List Token} {e : Expr} :
    (readLevel level ts).Reads e rest ↔
      ∃ left middle, (readOperand level ts).Reads left middle ∧
        (readChain level left middle).Reads e rest := by
  rw [readLevel]
  split
  next h => simp [h]
  next left middle fewer h =>
    simp only [h, Reading.reads_weaken, Reading.reads_done]
    constructor
    · intro hReads
      exact ⟨left, middle, ⟨rfl, rfl⟩, hReads⟩
    · rintro ⟨_, _, ⟨rfl, rfl⟩, hReads⟩
      exact hReads

theorem readOperand_of_tighter {level next : Level} (h : level.tighter = some next)
    (ts : List Token) : readOperand level ts = readLevel next ts := by
  rw [readOperand]
  split
  next next' h' =>
    rw [h] at h'
    cases h'
    rfl
  next h' => simp [h] at h'

theorem readOperand_of_tightest {level : Level} (h : level.tighter = none)
    (ts : List Token) : readOperand level ts = readUnary ts := by
  rw [readOperand]
  split
  next h' => simp [h] at h'
  next => rfl

/-- A chain ends before the first token that is no operator of its level. -/
theorem reads_readChain {level : Level} {left e : Expr} {ts rest : List Token} :
    (readChain level left ts).Reads e rest ↔
      (ahead ts ∉ level.operators ∧ left = e ∧ ts = rest) ∨
      ∃ op middle right middle', ts = op :: middle ∧ op.kind ∈ level.operators ∧
        (readOperand level middle).Reads right middle' ∧
        (readChain level (level.node left op right) middle').Reads e rest := by
  rw [readChain.eq_def]
  split
  next =>
    have hEof : Kind.eof ∉ level.operators := by cases level <;> decide
    simp [ahead, hEof]
  next op middle =>
    split
    next hOp =>
      constructor
      · intro hReads
        split at hReads
        next => simp at hReads
        next right middle' _ hRight =>
          rw [Reading.reads_weaken] at hReads
          exact Or.inr ⟨op, middle, right, middle', rfl, hOp, by simp [hRight], hReads⟩
      · rintro (⟨hNot, _⟩ | ⟨op', _, right, middle', hEq, _, ⟨fewer, hRight⟩, hReads⟩)
        · exact absurd hOp hNot
        · cases hEq
          simp only [hRight, Reading.reads_weaken]
          exact hReads
    next hOp =>
      simp only [Reading.reads_done]
      constructor
      · exact fun h => Or.inl ⟨hOp, h⟩
      · rintro (⟨_, h⟩ | ⟨op', _, _, _, hEq, hOp', _⟩)
        · exact h
        · cases hEq
          exact absurd hOp' hOp

/-- A unary expression is an operand, or an operator and a unary expression. -/
theorem reads_readUnary {ts rest : List Token} {e : Expr} :
    (readUnary ts).Reads e rest ↔
      (ahead ts ∉ unaryOperators ∧ (readPrimary ts).Reads e rest) ∨
      ∃ op middle operand, ts = op :: middle ∧ op.kind ∈ unaryOperators ∧
        (readUnary middle).Reads operand rest ∧ e = .unary op operand := by
  rw [readUnary.eq_def]
  split
  next =>
    have hEof : Kind.eof ∉ unaryOperators := by decide
    simp [ahead, hEof]
  next op middle =>
    split
    next hOp =>
      constructor
      · intro hReads
        split at hReads
        next => simp at hReads
        next operand rest' _ hOperand =>
          simp only [Reading.reads_done] at hReads
          obtain ⟨rfl, rfl⟩ := hReads
          exact Or.inr ⟨op, middle, operand, rfl, hOp, by simp [hOperand], rfl⟩
      · rintro (⟨hNot, _⟩ | ⟨op', _, operand, hEq, _, ⟨fewer, hOperand⟩, rfl⟩)
        · exact absurd hOp hNot
        · cases hEq
          simp [hOperand]
    next hOp =>
      constructor
      · exact fun h => Or.inl ⟨hOp, h⟩
      · rintro (⟨_, h⟩ | ⟨op', _, _, hEq, hOp', _⟩)
        · exact h
        · cases hEq
          exact absurd hOp' hOp

/-- An operand is a literal, a name or an expression in parentheses. -/
theorem reads_readPrimary {ts rest : List Token} {e : Expr} :
    (readPrimary ts).Reads e rest ↔
      (∃ t, ts = t :: rest ∧ t.kind ∈ literalKinds ∧
        e = .literal (some (t.literal.getD .nil)) t.line) ∨
      (∃ t, ts = t :: rest ∧ t.kind = .identifier ∧ e = .name t) ∨
      ∃ opening middle inner closing, ts = opening :: middle ∧ opening.kind = .leftParen ∧
        (read middle).Reads inner (closing :: rest) ∧ closing.kind = .rightParen ∧
        e = .group inner := by
  rw [readPrimary.eq_def]
  split
  next => simp
  next t middle =>
    split
    next hLiteral =>
      have hNotName : t.kind ≠ .identifier := by
        intro h
        simp [h, literalKinds] at hLiteral
      have hNotParen : t.kind ≠ .leftParen := by
        intro h
        simp [h, literalKinds] at hLiteral
      grind [Reading.reads_done]
    next hLiteral =>
      split
      next hName => grind [Reading.reads_done]
      next hName =>
        split
        next hParen =>
          constructor
          · intro hReads
            split at hReads
            next => simp at hReads
            next inner rest' _ hInner =>
              split at hReads
              next => simp at hReads
              next closing rest'' _ hClosing =>
                simp only [Reading.reads_done] at hReads
                obtain ⟨rfl, rfl⟩ := hReads
                have hToken := (Reading.reads_token _ _ _ _ _).mp ⟨_, hClosing⟩
                obtain ⟨rfl, hKind⟩ := hToken
                exact Or.inr (Or.inr ⟨t, middle, inner, closing, rfl, hParen,
                  ⟨_, hInner⟩, hKind, rfl⟩)
          · rintro (⟨_, hEq, h, _⟩ | ⟨_, hEq, h, _⟩ |
              ⟨opening, _, inner, closing, hEq, _, ⟨fewer, hInner⟩, hClosing, rfl⟩)
            · cases hEq
              exact absurd h hLiteral
            · cases hEq
              exact absurd h hName
            · cases hEq
              simp [hInner, Reading.token, hClosing]
        next hParen =>
          simp only [Reading.reads_refuse, false_iff]
          grind

/-- A name on its own is only derivable from its token. -/
theorem Derives.eq_of_name {rank : Rank} {w : List Token} {t : Token}
    (h : Derives rank w (.name t)) : t.kind = .identifier ∧ w = [t] := by
  generalize hName : Expr.name t = e at h
  induction h with
  | assign => cases hName
  | loosest _ ih => exact ih hName
  | operand _ ih => exact ih hName
  | @chain level _ _ _ _ _ _ _ hForms =>
      obtain ⟨-, rfl⟩ := Level.forms_iff.mp hForms
      cases level <;> cases hName
  | unary => cases hName
  | primary _ ih => exact ih hName
  | literal => cases hName
  | name hKind =>
      cases hName
      exact ⟨hKind, rfl⟩
  | group => cases hName

/-- The tokens begin with a phrase of the grammar that `rest` follows and cannot go on. -/
def Begins (rank : Rank) (ends : Kind → Prop) (ts : List Token) (e : Expr)
    (rest : List Token) : Prop :=
  ∃ w, ts = w ++ rest ∧ Derives rank w e ∧ ends (ahead rest)

mutual

/-- What is read as an expression is one of the grammar, as long as it can be. -/
theorem begins_of_read {ts rest : List Token} {e : Expr} (h : (read ts).Reads e rest) :
    Begins .expression Kind.EndsExpr ts e rest := by
  rcases reads_read.mp h with ⟨hLevel, hAhead⟩ | ⟨target, equal, middle, value, hTarget, hEqual,
    hValue, rfl⟩
  · obtain ⟨w, hTokens, hDerives, hEnds⟩ := begins_of_readLevel hLevel
    exact ⟨w, hTokens, .loosest hDerives, hEnds, hAhead⟩
  · have hLength := hTarget.length_lt
    obtain ⟨w, hTokens, hDerives, _⟩ := begins_of_readLevel hTarget
    obtain ⟨w', hTokens', hDerives', hEnds⟩ := begins_of_read hValue
    obtain ⟨hKind, rfl⟩ := hDerives.eq_of_name
    refine ⟨target :: equal :: w', ?_, .assign hKind hEqual hDerives', hEnds⟩
    rw [hTokens, hTokens']
    rfl
termination_by ts.length * 20 + 19
decreasing_by
  · simp only [Level.height]; omega
  · simp only [Level.height]; omega
  · simp only [List.length_cons] at hLength; omega

/-- What is read at a level is a phrase of it, as long as it can be. -/
theorem begins_of_readLevel {level : Level} {ts rest : List Token} {e : Expr}
    (h : (readLevel level ts).Reads e rest) :
    Begins (.level level) (Kind.EndsOperand level.height) ts e rest := by
  obtain ⟨left, middle, hLeft, hChain⟩ := reads_readLevel.mp h
  have hLength := hLeft.length_lt
  obtain ⟨w, rfl, hDerives, hEnds⟩ := begins_of_readOperand hLeft
  obtain ⟨w', rfl, hDerives', hEnds'⟩ := begins_of_readChain hChain (.operand hDerives) hEnds
  exact ⟨w ++ w', by simp, hDerives', hEnds'⟩
termination_by ts.length * 20 + level.height * 2 + 2

theorem begins_of_readOperand {level : Level} {ts rest : List Token} {e : Expr}
    (h : (readOperand level ts).Reads e rest) :
    Begins level.operand (Kind.EndsOperand (level.height - 1)) ts e rest := by
  cases hTighter : level.tighter with
  | some next =>
      have hHeight := Level.height_tighter hTighter
      rw [readOperand_of_tighter hTighter] at h
      obtain ⟨w, hTokens, hDerives, hEnds⟩ := begins_of_readLevel h
      refine ⟨w, hTokens, ?_, hEnds.mono (by omega)⟩
      rw [Level.operand_eq, hTighter]
      exact hDerives
  | none =>
      have hFactor : level.height = 1 := by
        cases level <;> first | rfl | cases hTighter
      rw [readOperand_of_tightest hTighter] at h
      obtain ⟨w, hTokens, hDerives, _⟩ := begins_of_readUnary h
      refine ⟨w, hTokens, ?_, ?_⟩
      · rw [Level.operand_eq, hTighter]
        exact hDerives
      · intro other hOther
        have := other.height_pos
        omega
termination_by ts.length * 20 + level.height * 2 + 1

/-- The left operand was read from `w`, so the whole phrase begins there. -/
theorem begins_of_readChain {level : Level} {left e : Expr} {w ts rest : List Token}
    (h : (readChain level left ts).Reads e rest) (hLeft : Derives (.level level) w left)
    (hEnds : Kind.EndsOperand (level.height - 1) (ahead ts)) :
    ∃ w', ts = w' ++ rest ∧ Derives (.level level) (w ++ w') e ∧
      Kind.EndsOperand level.height (ahead rest) := by
  rcases reads_readChain.mp h with ⟨hNot, rfl, rfl⟩ |
    ⟨op, middle, right, middle', rfl, hOp, hRight, hChain⟩
  · have hPos := level.height_pos
    exact ⟨[], rfl, by simpa using hLeft, Kind.endsOperand_succ (by omega) hEnds hNot⟩
  · have hLength := hRight.length_lt
    obtain ⟨w₂, rfl, hDerives, hEnds'⟩ := begins_of_readOperand hRight
    obtain ⟨w₃, rfl, hDerives', hEnds''⟩ :=
      begins_of_readChain hChain (.chain hLeft (Level.forms_iff.mpr ⟨hOp, rfl⟩) hDerives) hEnds'
    exact ⟨op :: w₂ ++ w₃, by simp, by simpa using hDerives', hEnds''⟩
termination_by ts.length * 20 + level.height * 2

theorem begins_of_readUnary {ts rest : List Token} {e : Expr}
    (h : (readUnary ts).Reads e rest) : Begins .unary (fun _ => True) ts e rest := by
  rcases reads_readUnary.mp h with ⟨_, hPrimary⟩ | ⟨op, middle, operand, rfl, hOp, hOperand, rfl⟩
  · obtain ⟨w, hTokens, hDerives, _⟩ := begins_of_readPrimary hPrimary
    exact ⟨w, hTokens, .primary hDerives, trivial⟩
  · obtain ⟨w, rfl, hDerives, _⟩ := begins_of_readUnary hOperand
    exact ⟨op :: w, rfl, .unary (mem_unaryOperators.mp hOp) hDerives, trivial⟩
termination_by ts.length * 20 + 1

theorem begins_of_readPrimary {ts rest : List Token} {e : Expr}
    (h : (readPrimary ts).Reads e rest) : Begins .primary (fun _ => True) ts e rest := by
  rcases reads_readPrimary.mp h with ⟨t, rfl, hKind, rfl⟩ | ⟨t, rfl, hKind, rfl⟩ |
    ⟨opening, middle, inner, closing, rfl, hOpening, hInner, hClosing, rfl⟩
  · exact ⟨[t], rfl, .literal (mem_literalKinds.mp hKind), trivial⟩
  · exact ⟨[t], rfl, .name hKind, trivial⟩
  · obtain ⟨w, rfl, hDerives, _⟩ := begins_of_read hInner
    exact ⟨opening :: w ++ [closing], by simp, .group hOpening hDerives hClosing, trivial⟩
termination_by ts.length * 20

end

/-- What a derivation promises about the reader of its nonterminal. At a level the phrase may be
the left operand of more operators, so the reader is only known to have got as far as the phrase. -/
def IsRead : Rank → List Token → Expr → Prop
  | .expression, w, e => ∀ rest, (ahead rest).EndsExpr → (read (w ++ rest)).Reads e rest
  | .level level, w, e => ∀ rest e' rest', (ahead rest).EndsOperand (level.height - 1) →
      (readChain level e rest).Reads e' rest' → (readLevel level (w ++ rest)).Reads e' rest'
  | .unary, w, e => ∀ rest, (readUnary (w ++ rest)).Reads e rest
  | .primary, w, e => ∀ rest, (readPrimary (w ++ rest)).Reads e rest

/-- A chain ends at once before what ends operands of its level. -/
theorem reads_readChain_of_ends {level : Level} {rest : List Token}
    (h : (ahead rest).EndsOperand level.height) (e : Expr) :
    (readChain level e rest).Reads e rest :=
  reads_readChain.mpr (Or.inl ⟨h.notMem (Nat.le_refl _), rfl, rfl⟩)

/-- Something tighter than all operators is an operand on its own at every level. -/
theorem reads_readLevel_of_readUnary (level : Level) {ts rest : List Token} {e : Expr}
    (h : (readUnary ts).Reads e rest) (hEnds : (ahead rest).EndsOperand level.height) :
    (readLevel level ts).Reads e rest := by
  refine reads_readLevel.mpr ⟨e, rest, ?_, reads_readChain_of_ends hEnds e⟩
  cases hTighter : level.tighter with
  | none =>
      rw [readOperand_of_tightest hTighter]
      exact h
  | some next =>
      have hHeight := Level.height_tighter hTighter
      rw [readOperand_of_tighter hTighter]
      exact reads_readLevel_of_readUnary next h (hEnds.mono (by omega))
termination_by level.height

theorem reads_readOperand_of_isRead {level : Level} {w : List Token} {e : Expr}
    (h : IsRead level.operand w e) (rest : List Token)
    (hEnds : (ahead rest).EndsOperand (level.height - 1)) :
    (readOperand level (w ++ rest)).Reads e rest := by
  cases hTighter : level.tighter with
  | none =>
      rw [Level.operand_eq, hTighter] at h
      rw [readOperand_of_tightest hTighter]
      exact h rest
  | some next =>
      have hHeight := Level.height_tighter hTighter
      have hEnds' : (ahead rest).EndsOperand next.height := hEnds.mono (by omega)
      rw [Level.operand_eq, hTighter] at h
      rw [readOperand_of_tighter hTighter]
      exact h rest e rest (hEnds'.mono (Nat.sub_le _ _)) (reads_readChain_of_ends hEnds' e)

/-- An operator of a level is not one of a tighter level. -/
theorem endsOperand_of_operator {level : Level} {k : Kind} (h : k ∈ level.operators) :
    k.EndsOperand (level.height - 1) := by
  intro other hOther hMem
  cases level <;> cases other <;> simp [Level.height] at hOther <;>
    simp [Level.operators] at h hMem <;> grind

/-- An operand does not begin with a unary operator. -/
theorem Derives.ahead_notMem_unary {w : List Token} {e : Expr} (h : Derives .primary w e)
    (rest : List Token) : ahead (w ++ rest) ∉ unaryOperators := by
  cases h with
  | literal hKind => rcases hKind with h | h | h | h | h <;> simp [h, unaryOperators]
  | name hKind => simp [hKind, unaryOperators]
  | group hOpening => simp [hOpening, unaryOperators]

/-- Every phrase of the grammar is read as the tree of its derivation. -/
theorem Derives.isRead {rank : Rank} {w : List Token} {e : Expr} (h : Derives rank w e) :
    IsRead rank w e := by
  induction h with
  | @assign target equal w value hTarget hEqual _ ih =>
      intro rest hEnds
      -- the target is first read as an expression, which ends before the equals sign
      have hName : (readUnary (target :: equal :: (w ++ rest))).Reads (.name target)
          (equal :: (w ++ rest)) := by
        refine reads_readUnary.mpr (Or.inl ⟨by simp [hTarget, unaryOperators], ?_⟩)
        exact reads_readPrimary.mpr (Or.inr (Or.inl ⟨target, rfl, hTarget, rfl⟩))
      have hLevel := reads_readLevel_of_readUnary .or hName
        (by simpa [hEqual] using Kind.endsOperand_equal _)
      exact reads_read.mpr (Or.inr ⟨target, equal, w ++ rest, value, hLevel, hEqual,
        ih rest hEnds, rfl⟩)
  | @loosest w e _ ih =>
      intro rest hEnds
      have hLevel := ih rest e rest (hEnds.1.mono (by decide))
        (@reads_readChain_of_ends .or rest hEnds.1 e)
      exact reads_read.mpr (Or.inl ⟨hLevel, hEnds.2⟩)
  | @operand level w e _ ih =>
      intro rest e' rest' hEnds hChain
      exact reads_readLevel.mpr
        ⟨e, rest, reads_readOperand_of_isRead ih rest hEnds, hChain⟩
  | @chain level node w₁ w₂ left right op _ hForms _ ihLeft ihRight =>
      obtain ⟨hOp, rfl⟩ := Level.forms_iff.mp hForms
      intro rest e' rest' hEnds hChain
      have hRight := reads_readOperand_of_isRead ihRight rest hEnds
      -- the reader has got as far as the left operand, and goes on with the operator after it
      have hMore : (readChain level left (op :: (w₂ ++ rest))).Reads e' rest' :=
        reads_readChain.mpr (Or.inr ⟨op, w₂ ++ rest, right, rest, rfl, hOp, hRight, hChain⟩)
      rw [List.append_assoc, List.cons_append]
      exact ihLeft (op :: (w₂ ++ rest)) e' rest' (endsOperand_of_operator hOp) hMore
  | @unary op w operand hOp _ ih =>
      intro rest
      exact reads_readUnary.mpr
        (Or.inr ⟨op, w ++ rest, operand, rfl, mem_unaryOperators.mpr hOp, ih rest, rfl⟩)
  | primary hPrimary ih =>
      intro rest
      exact reads_readUnary.mpr (Or.inl ⟨hPrimary.ahead_notMem_unary rest, ih rest⟩)
  | @literal t hKind =>
      intro rest
      exact reads_readPrimary.mpr (Or.inl ⟨t, rfl, mem_literalKinds.mpr hKind, rfl⟩)
  | @name t hKind =>
      intro rest
      exact reads_readPrimary.mpr (Or.inr (Or.inl ⟨t, rfl, hKind, rfl⟩))
  | @group opening closing w inner hOpening _ hClosing ih =>
      intro rest
      have hEnds : (ahead (closing :: rest)).EndsExpr := by
        rw [Reading.ahead_cons, hClosing]
        exact ⟨fun level _ => by cases level <;> decide, by decide⟩
      refine reads_readPrimary.mpr (Or.inr (Or.inr
        ⟨opening, w ++ closing :: rest, inner, closing, by simp, hOpening, ?_, hClosing, rfl⟩))
      exact ih (closing :: rest) hEnds

/-- The reader of expressions takes a phrase of the grammar, as long as possible, and only that. -/
theorem reads_read_iff {ts rest : List Token} {e : Expr} :
    (read ts).Reads e rest ↔ Begins .expression Kind.EndsExpr ts e rest := by
  constructor
  · exact begins_of_read
  · rintro ⟨w, rfl, hDerives, hEnds⟩
    exact hDerives.isRead rest hEnds

end Expr
end Lox
