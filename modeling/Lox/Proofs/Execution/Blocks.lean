import Lox.Proofs.Grammar.WellFormed

/-! Scopes that nothing is bound in. A statement that is read declares a name in the scope it is run in
only if it is a declaration. So a block around any other statement, and any empty scope around a block,
makes no difference to what is written, counted, bound or reported. -/
namespace Lox

theorem SameResult.mono {ε σ α : Type} {R R' : σ → σ → Prop} {E E' : ε → ε → Prop}
    {r r' : EStateM.Result ε σ α} (h : SameResult R E r r') (hState : ∀ {s t}, R s t → R' s t)
    (hError : ∀ {e f}, E e f → E' e f) : SameResult R' E' r r' := by
  cases h with
  | ok h => exact .ok (hState h)
  | error he h => exact .error (hError he) (hState h)

/-- With faults compared for equality, stops that are alike are the same. -/
theorem Stop.Alike.eq {stop stop' : Stop} (h : Stop.Alike Eq stop stop') : stop = stop' := by
  cases h with
  | fault hFault => rw [hFault]
  | interrupted i => rfl
  | crashed => rfl
  | unfinished => rfl

namespace Stmt

/-- The first statement is the second one, or stands somewhere inside it. -/
inductive Inside : Stmt → Stmt → Prop
  | same (s : Stmt) : Inside s s
  | block {s t : Stmt} {line : Int} {body : List Stmt} (h : s ∈ body) (hInside : Inside t s) :
      Inside t (.block line body)
  | yes {t yes : Stmt} {no : Option Stmt} {keyword : Token} {condition : Expr}
      (hInside : Inside t yes) : Inside t (.branch keyword condition yes no)
  | no {t yes no : Stmt} {keyword : Token} {condition : Expr} (hInside : Inside t no) :
      Inside t (.branch keyword condition yes (some no))
  | body {t body : Stmt} {keyword : Token} {condition : Expr} (hInside : Inside t body) :
      Inside t (.loop keyword condition body)

/-- All parts of a statement that the parser could have built are such statements too. -/
theorem Inside.isWellFormed {s t : Stmt} (h : t.Inside s) (hs : s.IsWellFormed) : t.IsWellFormed := by
  induction h with
  | same => exact hs
  | block hMem _ ih => exact ih (areWellFormed_iff.mp hs _ hMem)
  | @yes _ _ no _ _ _ ih =>
      cases no with
      | none => exact ih hs.2.2
      | some no => exact ih hs.2.1.2
  | no _ ih => exact ih hs.2.2.2
  | body _ ih => exact ih hs.2.2

/-- Where a declaration cannot stand, a statement binds nothing in the scope it is run in. -/
theorem IsWellFormed.declaresHere {s : Stmt} (h : s.IsWellFormed) (hPlain : s.isDeclaration = false) :
    s.declaresHere = false := by
  cases s with
  | declare => cases hPlain
  | branch keyword condition yes no =>
      cases no with
      | none => exact h.2.1
      | some no => rw [Stmt.declaresHere, h.2.1.1, h.2.2.1, Bool.or_false]
  | loop keyword condition body => exact h.2.1
  | _ => rfl

open Lox.Action

variable {run : Run}

/-- A block around a statement that declares nothing in its scope has a scope more, which is left as it
was entered. -/
theorem agrees_block {shape : List Bool} (hShape : true ∈ shape) {s : Stmt}
    (hPlain : s.declaresHere = false) (line : Int) :
    Agrees (Chain.Padded shape) Eq (s.exec run) ((Stmt.block line [s]).exec run) := by
  rw [exec.eq_def run (.block line [s])]
  refine Agrees.tracedRight (Agrees.inScopeRight hShape ?_ line) _ _
  rw [execAll, execAll, bind_pure_unit]
  exact agrees_exec (List.mem_cons_of_mem _ hShape) s (by simp [hPlain])

/-- A statement of a program that was read, other than a declaration, goes in a block of its own as it
goes without: with the same writes, the same iterations counted, the same scopes left behind and the
same failure if there is one. Empty scopes that are put anywhere into the scopes it finds change none of
this, and they are still empty afterwards. -/
theorem exec_of_redundant_scopes {tokens : List Token} {s t : Stmt}
    (hs : s ∈ (Program.ofTokens tokens).program.statements) (ht : t.Inside s)
    (hPlain : t.isDeclaration = false) (run : Run) :
    (∀ line m, SameResult (Machine.Alike Eq) Eq (t.exec run m) ((Stmt.block line [t]).exec run m)) ∧
      ∀ shape m n, Machine.Alike (Chain.Padded shape) m n →
        SameResult (Machine.Alike (Chain.Padded shape)) Eq (t.exec run m) (t.exec run n) := by
  have hDeclares := (ht.isWellFormed (Program.isWellFormed_of_mem hs)).declaresHere hPlain
  constructor
  · intro line m
    have hShape : true ∈ List.replicate m.scopes.scopes.length true := List.mem_cons_self
    have hRan := @agrees_block run _ hShape t hDeclares line m m
      (Machine.alike_replicate_iff.mpr ⟨⟨rfl, rfl, rfl, rfl⟩, rfl⟩)
    exact hRan.mono (fun h => (Machine.alike_replicate_iff.mp h).1) Stop.Alike.eq
  · intro shape m n hAlike
    have hRan := @agrees_exec run _ hAlike.scopes.true_mem t (by simp [hDeclares]) m n hAlike
    exact hRan.mono id Stop.Alike.eq

/-- The loop of `{ var a; while (a) a = b; }`. -/
theorem exec_of_redundant_scopes_loop :
    let word (k : Kind) : Token := Token.read k "a" 1
    let a := word .identifier
    let b := Token.read .identifier "b" 1
    let tokens := [word .leftBrace, word .varWord, a, word .semicolon, word .whileWord,
      word .leftParen, a, word .rightParen, a, word .equal, b, word .semicolon, word .rightBrace,
      Token.endOfInput 1]
    let t := Stmt.loop (word .whileWord) (.name a) (.expr (.assign a (.name b)))
    let s := Stmt.block 1 [.declare "a" a none, t]
    s ∈ (Program.ofTokens tokens).program.statements ∧ t.Inside s ∧ t.isDeclaration = false ∧
      ∀ run, (∀ line m, SameResult (Machine.Alike Eq) Eq (t.exec run m)
          ((Stmt.block line [t]).exec run m)) ∧
        ∀ shape m n, Machine.Alike (Chain.Padded shape) m n →
          SameResult (Machine.Alike (Chain.Padded shape)) Eq (t.exec run m) (t.exec run n) := by
  intro word a b tokens t s
  have hName (t : Token) (h : t.kind = .identifier) : Expr.Derives .expression [t] (.name t) :=
    Expr.Derives.of_factor (.operand (.primary (.name h)))
  have hLoop : Derives true (.statement false) ((tokens.drop 4).take 8) [t] :=
    .whileLoop rfl (.mk rfl (hName a rfl) rfl) (.expr (.mk (.assign rfl rfl (hName b rfl)) rfl))
  have hBlock : Derives true (.statement false) tokens.dropLast [s] :=
    .block rfl (.cons (.varDecl rfl (.bare rfl rfl)) (.cons (.statement hLoop) .nil)) rfl
  have hProgram : Derives true .declarations tokens.dropLast [s] := .cons (.statement hBlock) .nil
  have hRead := ((@Program.ofTokens_eq_iff_attempts tokens.dropLast (Token.endOfInput 1) rfl ⟨[s]⟩).mpr
    (Program.attempts_of_derives hProgram)).2
  have hMem : s ∈ (Program.ofTokens tokens).program.statements := by
    rw [show tokens = tokens.dropLast ++ [Token.endOfInput 1] from rfl, hRead]
    exact List.mem_cons_self
  have hInside : t.Inside s := .block (List.mem_cons_of_mem _ List.mem_cons_self) (.same t)
  exact ⟨hMem, hInside, rfl, fun run => exec_of_redundant_scopes hMem hInside rfl run⟩

end Stmt
end Lox
