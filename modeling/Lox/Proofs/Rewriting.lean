import Mathlib
import Lox.Program.Basic

/-! Rewriting a program without changing its shape: tokens, lines and literals are replaced one by
one. Forgetting lines, shifting them and reading a text back are all of this kind. -/
namespace Lox

/-- What becomes of the parts of a program. -/
structure Rewriting where
  /-- The tokens of names, of operators and of statements other than loops. -/
  token : Token → Token
  /-- The words of loops. -/
  loopWord : Token → Token
  /-- The lines of blocks. -/
  line : Int → Int
  /-- Literals, each with its line. -/
  literal : Slot → Int → Expr

namespace Expr

def rewrite (r : Rewriting) : Expr → Expr
  | .literal value line => r.literal value line
  | .name token => .name (r.token token)
  | .assign target value => .assign (r.token target) (value.rewrite r)
  | .binary left op right => .binary (left.rewrite r) (r.token op) (right.rewrite r)
  | .logical left op right => .logical (left.rewrite r) (r.token op) (right.rewrite r)
  | .unary op operand => .unary (r.token op) (operand.rewrite r)
  | .group inner => .group (inner.rewrite r)

end Expr

namespace Rewriting

def identity : Rewriting := ⟨id, id, id, .literal⟩

def comp (r' r : Rewriting) : Rewriting where
  token := r'.token ∘ r.token
  loopWord := r'.loopWord ∘ r.loopWord
  line := r'.line ∘ r.line
  literal value line := (r.literal value line).rewrite r'

@[simp] theorem token_identity (t : Token) : identity.token t = t := rfl
@[simp] theorem loopWord_identity (t : Token) : identity.loopWord t = t := rfl
@[simp] theorem line_identity (line : Int) : identity.line line = line := rfl
@[simp] theorem literal_identity (value : Slot) (line : Int) :
    identity.literal value line = .literal value line := rfl

end Rewriting

namespace Expr

@[simp] theorem rewrite_identity (e : Expr) : e.rewrite .identity = e := by
  induction e <;> simp_all [rewrite]

/-- Rewriting an expression twice is rewriting it once by the composition. -/
theorem rewrite_rewrite (r r' : Rewriting) (e : Expr) :
    (e.rewrite r).rewrite r' = e.rewrite (r'.comp r) := by
  induction e <;> simp_all [rewrite, Rewriting.comp]

end Expr

namespace Stmt

mutual

def rewrite (r : Rewriting) : Stmt → Stmt
  | .expr e => .expr (e.rewrite r)
  | .print keyword e => .print (r.token keyword) (e.rewrite r)
  | .declare name token value =>
    .declare name (r.token token) (value.map fun e => e.rewrite r)
  | .block line body => .block (r.line line) (rewriteAll r body)
  | .branch keyword condition yes none =>
    .branch (r.token keyword) (condition.rewrite r) (yes.rewrite r) none
  | .branch keyword condition yes (some no) =>
    .branch (r.token keyword) (condition.rewrite r) (yes.rewrite r) (some (no.rewrite r))
  | .loop keyword condition body =>
    .loop (r.loopWord keyword) (condition.rewrite r) (body.rewrite r)

def rewriteAll (r : Rewriting) : List Stmt → List Stmt
  | [] => []
  | s :: rest => s.rewrite r :: rewriteAll r rest

end

/-- Statements are rewritten one by one. -/
theorem rewriteAll_eq_map (r : Rewriting) (ss : List Stmt) : rewriteAll r ss = ss.map (rewrite r) := by
  induction ss with
  | nil => rw [rewriteAll, List.map_nil]
  | cons s ss ih => rw [rewriteAll, ih, List.map_cons]

mutual

@[simp] theorem rewrite_identity : (s : Stmt) → s.rewrite .identity = s
  | .expr e => by simp [rewrite]
  | .print _ e => by simp [rewrite]
  | .declare _ _ value => by simp [rewrite]
  | .block _ body => by simp [rewrite, rewriteAll_identity body]
  | .branch _ condition yes none => by simp [rewrite, rewrite_identity yes]
  | .branch _ condition yes (some no) => by
      simp [rewrite, rewrite_identity yes, rewrite_identity no]
  | .loop _ condition body => by simp [rewrite, rewrite_identity body]

theorem rewriteAll_identity : (ss : List Stmt) → rewriteAll .identity ss = ss
  | [] => by rw [rewriteAll]
  | s :: ss => by rw [rewriteAll, rewrite_identity s, rewriteAll_identity ss]

end

mutual

/-- Rewriting a statement twice is rewriting it once by the composition. -/
theorem rewrite_rewrite (r r' : Rewriting) :
    (s : Stmt) → (s.rewrite r).rewrite r' = s.rewrite (r'.comp r)
  | .expr e => by simp [rewrite, Expr.rewrite_rewrite]
  | .print _ e => by simp [rewrite, Expr.rewrite_rewrite, Rewriting.comp]
  | .declare _ _ value => by
      simp [rewrite, Rewriting.comp, Function.comp_def, Expr.rewrite_rewrite]
  | .block _ body => by simp [rewrite, Rewriting.comp, rewriteAll_rewriteAll r r' body]
  | .branch _ condition yes none => by
      simp [rewrite, Expr.rewrite_rewrite, rewrite_rewrite r r' yes, Rewriting.comp]
  | .branch _ condition yes (some no) => by
      simp [rewrite, Expr.rewrite_rewrite, rewrite_rewrite r r' yes, rewrite_rewrite r r' no,
        Rewriting.comp]
  | .loop _ condition body => by
      simp [rewrite, Expr.rewrite_rewrite, rewrite_rewrite r r' body, Rewriting.comp]

theorem rewriteAll_rewriteAll (r r' : Rewriting) :
    (ss : List Stmt) → rewriteAll r' (rewriteAll r ss) = rewriteAll (r'.comp r) ss
  | [] => by simp [rewriteAll]
  | s :: ss => by simp [rewriteAll, rewrite_rewrite r r' s, rewriteAll_rewriteAll r r' ss]

end

mutual

def loopWords : Stmt → List Token
  | .expr _ => []
  | .print _ _ => []
  | .declare _ _ _ => []
  | .block _ body => loopWordsAll body
  | .branch _ _ yes none => yes.loopWords
  | .branch _ _ yes (some no) => yes.loopWords ++ no.loopWords
  | .loop keyword _ body => keyword :: body.loopWords

def loopWordsAll : List Stmt → List Token
  | [] => []
  | s :: rest => s.loopWords ++ loopWordsAll rest

end

/-- The word of a loop belongs to one of the statements. -/
theorem mem_loopWordsAll {t : Token} {ss : List Stmt} :
    t ∈ loopWordsAll ss ↔ ∃ s ∈ ss, t ∈ s.loopWords := by
  induction ss with
  | nil => simp [loopWordsAll]
  | cons s ss ih => simp [loopWordsAll, ih]

end Stmt

def Program.rewrite (r : Rewriting) (p : Program) : Program := ⟨p.statements.map (Stmt.rewrite r)⟩

end Lox
