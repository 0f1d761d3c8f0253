import Lox.Proofs.Format.Precedence
import Lox.Proofs.Grammar.Nesting

/-! Branches in the text of a program. A program need not come from a source: an `else` may belong
to an `if` that is not the nearest one before it. No braces are put in for it, so the text is read
back with that `else` at the nearest `if`, and with every other part where it was. -/
namespace Lox

def Expr.IsVariable : Expr → Prop
  | .name token => token.lexeme.IsName
  | _ => False

theorem Expr.unlined_shownNumber (x : Float) : (shownNumber x).unlined = shownNumber x := by
  rw [shownNumber]
  split_ifs <;> rfl

/-- Everything shown is on line 0. -/
theorem Expr.unlined_shown (e : Expr) : e.shown.unlined = e.shown := by
  induction e with
  | literal value line =>
      rcases value with _ | _ | _ | x | _
      case some.number => exact unlined_shownNumber x
      all_goals rfl
  | name token => rfl
  | assign target value ih => exact congrArg (Expr.assign _) ih
  | binary left op right ihLeft ihRight =>
      exact congrArg₂ (fun left right => Expr.binary left _ right) ihLeft ihRight
  | logical left op right ihLeft ihRight =>
      exact congrArg₂ (fun left right => Expr.logical left _ right) ihLeft ihRight
  | unary op operand ih => exact congrArg (Expr.unary _) ih
  | group inner ih => exact ih

/-- The text of a variable is read back as it is shown. -/
theorem Expr.says_of_isVariable {e : Expr} (h : e.IsVariable) :
    Says .expression e.format e.shown := by
  cases e with
  | name token =>
      have hName := says_name (Text.IsName.lexeme h)
      exact hName.mono fun _ hDerives => .of_factor (.operand (.primary hDerives))
  | _ => cases h

namespace Stmt

mutual

/-- All expressions are names, a name is declared by a token that spells it, and no branch or body
is a declaration. What is left to read back is how the statements are nested. -/
def IsSkeleton : Stmt → Prop
  | .expr e => e.IsVariable
  | .print _ e => e.IsVariable
  | .declare name token value =>
    (name = token.lexeme ∧ name.IsName) ∧ ∀ e ∈ value, e.IsVariable
  | .block _ body => AreSkeletons body
  | .branch _ condition yes none =>
    condition.IsVariable ∧ yes.isDeclaration = false ∧ yes.IsSkeleton
  | .branch _ condition yes (some no) =>
    condition.IsVariable ∧ (yes.isDeclaration = false ∧ yes.IsSkeleton) ∧
      (no.isDeclaration = false ∧ no.IsSkeleton)
  | .loop _ condition body =>
    condition.IsVariable ∧ body.isDeclaration = false ∧ body.IsSkeleton

def AreSkeletons : List Stmt → Prop
  | [] => True
  | s :: rest => s.IsSkeleton ∧ AreSkeletons rest

end

mutual

/-- The statement with its words and names as their text is read back, all on line 0. -/
def shown : Stmt → Stmt
  | .expr e => .expr e.shown
  | .print _ e => .print (Token.read .printWord "print" 0) e.shown
  | .declare name _ value =>
    .declare name (Token.read .identifier name 0) (value.map Expr.shown)
  | .block _ body => .block 0 (shownAll body)
  | .branch _ condition yes none =>
    .branch (Token.read .ifWord "if" 0) condition.shown yes.shown none
  | .branch _ condition yes (some no) =>
    .branch (Token.read .ifWord "if" 0) condition.shown yes.shown (some no.shown)
  | .loop _ condition body => .loop (Token.read .whileWord "while" 0) condition.shown body.shown

def shownAll : List Stmt → List Stmt
  | [] => []
  | s :: rest => s.shown :: shownAll rest

end

/-- Whether an `else` could still follow is not a matter of spelling. -/
theorem dangles_shown (s : Stmt) : s.shown.dangles = s.dangles := by
  fun_induction dangles s with
  | case6 keyword condition yes no ih => rw [shown, dangles, ih]
  | case7 keyword condition body ih => rw [shown, dangles, ih]
  | _ => rw [shown, dangles]

/-- An `else` is hung at the same place, before or after reading back. -/
theorem shown_hang (s no : Stmt) : (s.hang no).shown = s.shown.hang no.shown := by
  fun_induction hang s no with
  | case5 keyword condition yes hDangles ih =>
      rw [shown, shown, hang, dangles_shown, hDangles, if_pos rfl, ih]
  | case6 keyword condition yes hDangles =>
      rw [shown, shown, hang, dangles_shown, if_neg hDangles]
  | case7 keyword condition yes other ih => rw [shown, shown, hang, ih]
  | case8 keyword condition body ih => rw [shown, shown, hang, ih]
  | _ => rw [shown, hang]

mutual

/-- Settling branches and reading back can be done in either order. -/
theorem shown_settled : (s : Stmt) → s.settled.shown = s.shown.settled
  | .expr _ | .print _ _ | .declare _ _ _ => by rw [settled, shown, settled]
  | .block _ body => by rw [settled, shown, shown, settled, shownAll_settledAll body]
  | .branch _ _ yes none => by rw [settled, shown, shown, settled, shown_settled yes]
  | .branch _ _ yes (some no) => by
      rw [settled, shown_hang, shown, shown, settled, shown_settled yes, shown_settled no]
  | .loop _ _ body => by rw [settled, shown, shown, settled, shown_settled body]

theorem shownAll_settledAll : (ss : List Stmt) → shownAll (settledAll ss) = settledAll (shownAll ss)
  | [] => by rw [settledAll, shownAll, settledAll]
  | s :: ss => by
      rw [settledAll, shownAll, shownAll, settledAll, shown_settled s, shownAll_settledAll ss]

end

mutual

/-- The words of loops are those that are printed. -/
theorem isForless_shown : (s : Stmt) → s.shown.IsForless
  | .expr _ | .print _ _ | .declare _ _ _ => by simp [shown, IsForless, loopWords]
  | .block _ body => by
      rw [shown]
      exact isForless_block.mpr (isForless_shownAll body)
  | .branch _ _ yes none => isForless_shown yes
  | .branch _ _ yes (some no) => by
      rw [shown]
      exact isForless_branch.mpr ⟨isForless_shown yes, isForless_shown no⟩
  | .loop _ _ body => by
      rw [shown]
      exact isForless_loop.mpr ⟨by decide, isForless_shown body⟩

/-- Statements are read back without any `for`. -/
theorem isForless_shownAll : (ss : List Stmt) → ∀ s ∈ shownAll ss, s.IsForless
  | [] => by simp [shownAll]
  | s :: ss => by
      rw [shownAll]
      exact List.forall_mem_cons.mpr ⟨isForless_shown s, isForless_shownAll ss⟩

end

mutual

/-- What is read back is on line 0 already. -/
theorem unlined_shown : (s : Stmt) → s.shown.unlined = s.shown
  | .expr e => congrArg Stmt.expr e.unlined_shown
  | .print _ e => congrArg (Stmt.print _) e.unlined_shown
  | .declare _ _ none => rfl
  | .declare _ _ (some e) => congrArg (fun e => Stmt.declare _ _ (some e)) e.unlined_shown
  | .block _ body => congrArg (Stmt.block 0) (unlined_shownAll body)
  | .branch _ condition yes none =>
      congrArg₂ (fun c s => Stmt.branch _ c s none) condition.unlined_shown (unlined_shown yes)
  | .branch _ condition yes (some no) => by
      have hYes := unlined_shown yes
      have hNo := unlined_shown no
      rw [unlined] at hYes hNo
      rw [shown, unlined, rewrite, hYes, hNo]
      exact congrArg (fun c => Stmt.branch _ c _ _) condition.unlined_shown
  | .loop _ condition body =>
      congrArg₂ (fun c s => Stmt.loop _ c s) condition.unlined_shown (unlined_shown body)

theorem unlined_shownAll : (ss : List Stmt) → rewriteAll .unlined (shownAll ss) = shownAll ss
  | [] => rfl
  | s :: ss => congrArg₂ List.cons (unlined_shown s) (unlined_shownAll ss)

end

/-- A declaration is read back as it is shown. -/
theorem IsSkeleton.readsAs_declare {s : Stmt} (h : s.IsSkeleton)
    (hDeclares : s.isDeclaration = true) : ReadsAs false .declaration s s.shown := by
  cases s with
  | declare name token value =>
      obtain ⟨⟨-, hName⟩, hValue⟩ := h
      have hSays : Option.Rel (fun e e' => Expr.Says .expression e.format e') value
          (value.map Expr.shown) := by
        cases value with
        | none => exact .none
        | some e => exact .some (Expr.says_of_isVariable (hValue e rfl))
      exact Stmt.readsAs_declare hName.lexeme hSays token
  | _ => cases hDeclares

mutual

/-- The text of a statement other than a declaration can be derived as that statement. -/
theorem IsSkeleton.readsAs : (s : Stmt) → s.IsSkeleton → s.isDeclaration = false →
    ReadsAs false (.statement s.dangles) s s.shown
  | .expr _, h, _ => readsAs_expr (Expr.says_of_isVariable h)
  | .print keyword _, h, _ => readsAs_print (Expr.says_of_isVariable h) keyword
  | .declare _ _ _, _, hPlain => by cases hPlain
  | .block line body, h, _ => readsAs_block (forall₂_readsAs body h) line
  | .branch keyword _ yes none, h, _ => by
      obtain ⟨hCondition, hPlain, hYes⟩ := h
      exact readsAs_branch (Expr.says_of_isVariable hCondition) (IsSkeleton.readsAs yes hYes hPlain)
        keyword
  | .branch keyword _ yes (some no), h, _ => by
      obtain ⟨hCondition, ⟨hPlainYes, hYes⟩, hPlainNo, hNo⟩ := h
      exact readsAs_branchElse (Expr.says_of_isVariable hCondition)
        (IsSkeleton.readsAs yes hYes hPlainYes) (by simp) (IsSkeleton.readsAs no hNo hPlainNo) keyword
  | .loop keyword _ body, h, _ => by
      obtain ⟨hCondition, hPlain, hBody⟩ := h
      exact readsAs_loop (Expr.says_of_isVariable hCondition) (IsSkeleton.readsAs body hBody hPlain)
        keyword

/-- Statements in a row are read back one by one. -/
theorem forall₂_readsAs : (ss : List Stmt) → AreSkeletons ss →
    List.Forall₂ (ReadsAs false .declaration) ss (shownAll ss)
  | [], _ => .nil
  | s :: ss, h => by
      have hRest := forall₂_readsAs ss h.2
      cases hDeclares : s.isDeclaration with
      | true => exact .cons (h.1.readsAs_declare hDeclares) hRest
      | false => exact .cons (IsSkeleton.readsAs s h.1 hDeclares).declaration hRest

end

mutual

/-- The settled statement looks like the original only if it is the original. -/
theorem isSettled_of_shown : (s : Stmt) → s.settled.shown = s.shown → s.IsSettled
  | .expr _, _ | .print _ _, _ | .declare _ _ _, _ => trivial
  | .block _ body, h => by
      rw [settled, shown, shown, Stmt.block.injEq] at h
      exact areSettled_of_shown body h.2
  | .branch _ _ yes none, h => by
      rw [settled, shown, shown, Stmt.branch.injEq] at h
      exact isSettled_of_shown yes h.2.2.1
  | .branch _ _ yes (some no), h => by
      rw [settled, hang] at h
      split at h
      next =>
        -- the inner branch has taken the `else`, and the outer one shows that it has none
        rw [shown, shown, Stmt.branch.injEq] at h
        cases h.2.2.2
      next hDangles =>
        rw [shown, shown, Stmt.branch.injEq, Option.some.injEq] at h
        have hYes := isSettled_of_shown yes h.2.2.1
        rw [settled_of_isSettled yes hYes, Bool.not_eq_true] at hDangles
        exact ⟨hDangles, hYes, isSettled_of_shown no h.2.2.2⟩
  | .loop _ _ body, h => by
      rw [settled, shown, shown, Stmt.loop.injEq] at h
      exact isSettled_of_shown body h.2.2

/-- Statements that are read back settled have been settled. -/
theorem areSettled_of_shown :
    (ss : List Stmt) → shownAll (settledAll ss) = shownAll ss → AreSettled ss
  | [], _ => trivial
  | s :: ss, h => by
      rw [settledAll, shownAll, shownAll, List.cons.injEq] at h
      exact ⟨isSettled_of_shown s h.1, areSettled_of_shown ss h.2⟩

end

end Stmt

namespace Program

def IsSkeleton (p : Program) : Prop := Stmt.AreSkeletons p.statements

def settled (p : Program) : Program := ⟨Stmt.settledAll p.statements⟩

def IsSettled (p : Program) : Prop := Stmt.AreSettled p.statements

/-- The program with its words and names as their text is read back, all on line 0. -/
def shown (p : Program) : Program := ⟨Stmt.shownAll p.statements⟩

theorem unlined_shown (p : Program) : p.shown.unlined = p.shown := by
  rw [unlined, rewrite, ← Stmt.rewriteAll_eq_map]
  exact congrArg Program.mk (Stmt.unlined_shownAll p.statements)

/-- Settling changes nothing in what is read back just if the program is settled. -/
theorem settled_shown_eq_iff {p : Program} : p.settled.shown = p.shown ↔ p.IsSettled := by
  constructor
  · intro h
    exact Stmt.areSettled_of_shown _ (congrArg Program.statements h)
  · intro h
    rw [settled, Stmt.settledAll_of_areSettled _ h]

/-- The text of a program of names is read without complaint, with every `else` at the nearest
`if`. -/
theorem IsSkeleton.read_format {p : Program} (h : p.IsSkeleton) :
    (ofSource p.format).diagnostics = [] ∧
      (ofSource p.format).program.unlined = p.settled.shown := by
  obtain ⟨w, hPrints, hDerives⟩ :=
    @exists_prints_of_readsAs false p p.shown (Stmt.forall₂_readsAs p.statements h)
  have hSettled : Derives true w ⟨Stmt.settledAll p.shown.statements⟩ :=
    Stmt.Derives.settled hDerives (Stmt.isForless_shownAll p.statements)
  have hShown : (⟨Stmt.settledAll p.shown.statements⟩ : Program) = p.settled.shown :=
    congrArg Program.mk (Stmt.shownAll_settledAll p.statements).symm
  obtain ⟨hDiagnostics, hProgram⟩ := ofSource_of_prints hPrints hSettled
  rw [hShown, unlined_shown] at hProgram
  exact ⟨hDiagnostics, hProgram⟩

/-- The text of a program of names is read without complaint. What is read is the program with every
`else` at the nearest `if` before it, and so it is the program itself, apart from lines and words,
if and only if no `else` stands after a branch that ends with an `if` without one. -/
theorem ofSource_format_skeleton {p : Program} (h : p.IsSkeleton) :
    (ofSource p.format).diagnostics = [] ∧
      (ofSource p.format).program.unlined = p.settled.shown ∧
      ((ofSource p.format).program.unlined = p.shown ↔ p.IsSettled) := by
  obtain ⟨hDiagnostics, hProgram⟩ := h.read_format
  refine ⟨hDiagnostics, hProgram, ?_⟩
  rw [hProgram]
  exact settled_shown_eq_iff

/-- A loop ends with an `if` without `else`, and an `else` of an outer `if` follows. -/
theorem ofSource_format_skeleton_loop :
    let ifWord := Token.read .ifWord "if" 7
    let name (s : String) := Token.read .identifier s 7
    let p : Program := ⟨[.branch ifWord (.name (name "a")) (.loop (Token.read .whileWord "while" 7)
      (.name (name "b")) (.branch ifWord (.name (name "c")) (.expr (.name (name "d"))) none))
      (some (.block 7 [.declare "e" (name "e") (some (.name (name "a")))]))]⟩
    p.IsSkeleton ∧ (ofSource p.format).diagnostics = [] ∧
      (ofSource p.format).program.unlined = p.settled.shown ∧
      ((ofSource p.format).program.unlined = p.shown ↔ p.IsSettled) := by
  intro ifWord name p
  have hName : ∀ s ∈ ["a", "b", "c", "d", "e"], (Text.ofString s).IsName := by decide +kernel
  have hSkeleton : p.IsSkeleton := by
    simp [p, name, IsSkeleton, Stmt.AreSkeletons, Stmt.IsSkeleton, Expr.IsVariable,
      Stmt.isDeclaration, Token.read, hName]
  exact ⟨hSkeleton, ofSource_format_skeleton hSkeleton⟩

/-- The `else` of the outer of two `if`s comes back as that of the inner one. -/
theorem ofSource_format_outerElse :
    let ifWord := Token.read .ifWord "if" 1
    let name (s : String) : Expr := .name (Token.read .identifier s 1)
    let p : Program := ⟨[.branch ifWord (name "a")
      (.branch ifWord (name "b") (.expr (name "c")) none) (some (.expr (name "d")))]⟩
    p.IsSkeleton ∧ p.format = "if (a)\n  if (b)\n    c;\nelse\n  d;\n" ∧
      (ofSource p.format).program.unlined ≠ p.shown := by
  intro ifWord name p
  have hName : ∀ s ∈ ["a", "b", "c", "d"], (Text.ofString s).IsName := by decide +kernel
  have hSkeleton : p.IsSkeleton := by
    simp [p, name, IsSkeleton, Stmt.AreSkeletons, Stmt.IsSkeleton, Expr.IsVariable,
      Stmt.isDeclaration, Token.read, hName]
  refine ⟨hSkeleton, by decide +kernel, ?_⟩
  rw [hSkeleton.read_format.2, ne_eq, settled_shown_eq_iff]
  rintro ⟨⟨hDangles, -⟩, -⟩
  cases hDangles

end Program
end Lox
