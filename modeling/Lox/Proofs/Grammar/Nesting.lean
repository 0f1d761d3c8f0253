import Lox.Proofs.Grammar.Program
import Lox.Proofs.Rewriting

/-! Which `if` an `else` belongs to. A tree may give an `else` to an `if` that is not the nearest
one before it. The same tokens are then read as another tree, in which every `else` has moved to the
nearest `if`, and that is the same tree only if no `else` stands after a dangling branch. -/
namespace Lox

namespace Stmt

/-- Whether the statement ends with an `if` that has no `else`. -/
def dangles : Stmt → Bool
  | .expr _ | .print _ _ | .declare _ _ _ | .block _ _ => false
  | .branch _ _ _ none => true
  | .branch _ _ _ (some no) => no.dangles
  | .loop _ _ body => body.dangles

/-- Gives an `else` to the innermost `if` at the end of the statement that has none. -/
def hang (s no : Stmt) : Stmt :=
  match s with
  | .expr e => .expr e
  | .print keyword e => .print keyword e
  | .declare name token value => .declare name token value
  | .block line body => .block line body
  | .branch keyword condition yes none =>
    if yes.dangles then .branch keyword condition (yes.hang no) none
    else .branch keyword condition yes (some no)
  | .branch keyword condition yes (some other) =>
    .branch keyword condition yes (some (other.hang no))
  | .loop keyword condition body => .loop keyword condition (body.hang no)

mutual

/-- The statement with every `else` at the nearest `if` before it. -/
def settled : Stmt → Stmt
  | .expr e => .expr e
  | .print keyword e => .print keyword e
  | .declare name token value => .declare name token value
  | .block line body => .block line (settledAll body)
  | .branch keyword condition yes none => .branch keyword condition yes.settled none
  | .branch keyword condition yes (some no) =>
    (Stmt.branch keyword condition yes.settled none).hang no.settled
  | .loop keyword condition body => .loop keyword condition body.settled

def settledAll : List Stmt → List Stmt
  | [] => []
  | s :: rest => s.settled :: settledAll rest

end

mutual

/-- No `else` stands after a dangling branch. -/
def IsSettled : Stmt → Prop
  | .expr _ | .print _ _ | .declare _ _ _ => True
  | .block _ body => AreSettled body
  | .branch _ _ yes none => yes.IsSettled
  | .branch _ _ yes (some no) => yes.dangles = false ∧ yes.IsSettled ∧ no.IsSettled
  | .loop _ _ body => body.IsSettled

def AreSettled : List Stmt → Prop
  | [] => True
  | s :: rest => s.IsSettled ∧ AreSettled rest

end

mutual

/-- A settled statement is left as it is. -/
theorem settled_of_isSettled : (s : Stmt) → s.IsSettled → s.settled = s
  | .expr _, _ => by rw [settled]
  | .print _ _, _ => by rw [settled]
  | .declare _ _ _, _ => by rw [settled]
  | .block _ body, h => by rw [settled, settledAll_of_areSettled body h]
  | .branch _ _ yes none, h => by rw [settled, settled_of_isSettled yes h]
  | .branch _ _ yes (some no), h => by
      obtain ⟨hDangles, hYes, hNo⟩ := h
      rw [settled, settled_of_isSettled yes hYes, settled_of_isSettled no hNo, hang, hDangles,
        if_neg Bool.false_ne_true]
  | .loop _ _ body, h => by rw [settled, settled_of_isSettled body h]

theorem settledAll_of_areSettled : (ss : List Stmt) → AreSettled ss → settledAll ss = ss
  | [], _ => by rw [settledAll]
  | s :: ss, h => by rw [settledAll, settled_of_isSettled s h.1, settledAll_of_areSettled ss h.2]

end

def IsForless (s : Stmt) : Prop := ∀ t ∈ s.loopWords, t.kind ≠ .forWord

theorem isForless_branch {keyword : Token} {condition : Expr} {yes no : Stmt} :
    (Stmt.branch keyword condition yes (some no)).IsForless ↔ yes.IsForless ∧ no.IsForless := by
  simp only [IsForless, loopWords, List.forall_mem_append]

theorem isForless_loop {keyword : Token} {condition : Expr} {body : Stmt} :
    (Stmt.loop keyword condition body).IsForless ↔ keyword.kind ≠ .forWord ∧ body.IsForless := by
  simp only [IsForless, loopWords, List.forall_mem_cons]

theorem isForless_block {line : Int} {body : List Stmt} :
    (Stmt.block line body).IsForless ↔ ∀ s ∈ body, s.IsForless := by
  simp only [IsForless, loopWords, mem_loopWordsAll]
  constructor
  · exact fun h s hs t ht => h t ⟨s, hs, ht⟩
  · rintro h t ⟨s, hs, ht⟩
    exact h s hs t ht

/-- Hanging an `else` brings in no `for`. -/
theorem IsForless.hang {s no : Stmt} (hs : s.IsForless) (hNo : no.IsForless) :
    (s.hang no).IsForless := by
  fun_induction Stmt.hang s no with
  | case5 keyword condition yes hDangles ih => exact ih hs
  | case6 keyword condition yes hDangles => exact isForless_branch.mpr ⟨hs, hNo⟩
  | case7 keyword condition yes other ih =>
      obtain ⟨hYes, hOther⟩ := isForless_branch.mp hs
      exact isForless_branch.mpr ⟨hYes, ih hOther⟩
  | case8 keyword condition body ih =>
      obtain ⟨hKeyword, hBody⟩ := isForless_loop.mp hs
      exact isForless_loop.mpr ⟨hKeyword, ih hBody⟩
  | _ => exact hs

mutual

/-- Settling brings in no `for`. -/
theorem IsForless.settled : {s : Stmt} → s.IsForless → s.settled.IsForless
  | .expr _, h => by rwa [Stmt.settled]
  | .print _ _, h => by rwa [Stmt.settled]
  | .declare _ _ _, h => by rwa [Stmt.settled]
  | .block _ body, h => by
      rw [Stmt.settled]
      exact isForless_block.mpr (isForless_settledAll (isForless_block.mp h))
  | .branch _ _ yes none, h => by
      rw [Stmt.settled]
      exact IsForless.settled (s := yes) h
  | .branch _ _ yes (some no), h => by
      obtain ⟨hYes, hNo⟩ := isForless_branch.mp h
      rw [Stmt.settled]
      exact IsForless.hang (IsForless.settled (s := yes) hYes) hNo.settled
  | .loop _ _ body, h => by
      obtain ⟨hKeyword, hBody⟩ := isForless_loop.mp h
      rw [Stmt.settled]
      exact isForless_loop.mpr ⟨hKeyword, hBody.settled⟩

theorem isForless_settledAll : {ss : List Stmt} → (∀ s ∈ ss, s.IsForless) →
    ∀ s ∈ settledAll ss, s.IsForless
  | [], _ => by simp [settledAll]
  | s :: ss, h => by
      obtain ⟨hHead, hTail⟩ := List.forall_mem_cons.mp h
      rw [settledAll]
      exact List.forall_mem_cons.mpr ⟨hHead.settled, isForless_settledAll hTail⟩

end

/-- What is read as a counting loop was written with `for`. -/
theorem not_isForless_counting {keyword : Token} (h : keyword.kind = .forWord)
    (start : Option Stmt) (condition step : Option Expr) (body : Stmt) :
    ¬ (counting keyword start condition step body).IsForless := by
  intro hForless
  have hLoop := isForless_block.mp hForless _ (List.mem_append_right _ List.mem_cons_self)
  exact (isForless_loop.mp hLoop).1 h

/-- A statement is dangling in a derivation if it is so as a tree. -/
theorem Derives.dangles_eq {nearest : Bool} {part : Part} {w : List Token} {ss : List Stmt}
    (h : Derives nearest part w ss) {d : Bool} (hPart : part = .statement d) {s : Stmt}
    (hs : ss = [s]) (hForless : s.IsForless) : s.dangles = d := by
  induction h generalizing s with
  | expr hSimple =>
      cases hPart
      cases hs
      cases hSimple
      rfl
  | print | block | ifThen =>
      cases hPart
      cases hs
      rfl
  | ifElse _ _ _ _ _ _ _ ihNo =>
      cases hs
      rw [dangles]
      exact ihNo hPart rfl (isForless_branch.mp hForless).2
  | whileLoop _ _ _ ih =>
      cases hs
      rw [dangles]
      exact ih hPart rfl (isForless_loop.mp hForless).2
  | forLoop hKeyword =>
      cases hs
      exact absurd hForless (not_isForless_counting hKeyword _ _ _ _)
  | _ => cases hPart

/-- An `else` after a dangling statement is read with the innermost `if` that is still open. -/
theorem Derives.hang {part : Part} {w₁ w₂ : List Token} {ss : List Stmt} {no : Stmt}
    {other : Token} {d : Bool} (h : Derives true part w₁ ss) (hPart : part = .statement true)
    {s : Stmt} (hs : ss = [s]) (hForless : s.IsForless) (hOther : other.kind = .elseWord)
    (hNo : Derives true (.statement d) w₂ [no]) :
    ∃ d', Derives true (.statement d') (w₁ ++ other :: w₂) [s.hang no] := by
  induction h generalizing s with
  | @ifThen keyword c w condition yes d' hKeyword hCondition hYes ih =>
      cases hs
      have hDangles : yes.dangles = d' := hYes.dangles_eq rfl rfl hForless
      rw [Stmt.hang, hDangles]
      cases d' with
      | false => exact ⟨d, .ifElse hKeyword hCondition hYes (fun _ => rfl) hOther hNo⟩
      | true =>
          obtain ⟨d', hDerives⟩ := ih rfl rfl hForless
          exact ⟨true, by simpa using Derives.ifThen hKeyword hCondition hDerives⟩
  | ifElse hKeyword hCondition hYes hNearest hOther' _ _ ihNo =>
      cases hs
      obtain ⟨d', hDerives⟩ := ihNo hPart rfl (isForless_branch.mp hForless).2
      rw [Stmt.hang]
      exact ⟨d', by simpa using Derives.ifElse hKeyword hCondition hYes hNearest hOther' hDerives⟩
  | whileLoop hKeyword hCondition _ ih =>
      cases hs
      obtain ⟨d', hDerives⟩ := ih hPart rfl (isForless_loop.mp hForless).2
      rw [Stmt.hang]
      exact ⟨d', by simpa using Derives.whileLoop hKeyword hCondition hDerives⟩
  | forLoop hKeyword =>
      cases hs
      exact absurd hForless (not_isForless_counting hKeyword _ _ _ _)
  | _ => cases hPart

/-- The tokens are derivable with every `else` at the nearest `if`, as the same kind of phrase. -/
def DerivesSettled : Part → List Token → List Stmt → Prop
  | .statement _, w, ss => ∃ d, Derives true (.statement d) w (settledAll ss)
  | .declaration, w, ss => Derives true .declaration w (settledAll ss)
  | .declarations, w, ss => Derives true .declarations w (settledAll ss)

/-- Whatever tree some tokens are derived as, its settled form is derived from them with every
`else` at the nearest `if`. -/
theorem Derives.settled {part : Part} {w : List Token} {ss : List Stmt}
    (h : Derives false part w ss) (hForless : ∀ s ∈ ss, s.IsForless) : DerivesSettled part w ss := by
  induction h with
  | expr hSimple =>
      cases hSimple with
      | mk hExpr hSemicolon => exact ⟨false, .expr (.mk hExpr hSemicolon)⟩
  | print hKeyword hDerives hSemicolon => exact ⟨false, .print hKeyword hDerives hSemicolon⟩
  | block hOpening _ hClosing ih =>
      have hBody := ih (isForless_block.mp (hForless _ List.mem_cons_self))
      exact ⟨false, .block hOpening hBody hClosing⟩
  | ifThen hKeyword hCondition _ ih =>
      have hYes := hForless _ List.mem_cons_self
      obtain ⟨d, hDerives⟩ := ih (List.forall_mem_singleton.mpr hYes)
      exact ⟨true, .ifThen hKeyword hCondition hDerives⟩
  | @ifElse keyword other c w₁ _ condition yes _ _ _ hKeyword hCondition _ _ hOther _ ihYes ihNo =>
      obtain ⟨hForlessYes, hForlessNo⟩ := isForless_branch.mp (hForless _ List.mem_cons_self)
      obtain ⟨d₁, hYes⟩ := ihYes (List.forall_mem_singleton.mpr hForlessYes)
      obtain ⟨d₂, hNo⟩ := ihNo (List.forall_mem_singleton.mpr hForlessNo)
      -- read without its `else` the branch is dangling, and the `else` goes where it is taken
      have hBranch : Derives true (.statement true) (keyword :: c ++ w₁)
          [.branch keyword condition yes.settled none] := .ifThen hKeyword hCondition hYes
      exact hBranch.hang rfl rfl hForlessYes.settled hOther hNo
  | whileLoop hKeyword hCondition _ ih =>
      have hBody := (isForless_loop.mp (hForless _ List.mem_cons_self)).2
      obtain ⟨d, hDerives⟩ := ih (List.forall_mem_singleton.mpr hBody)
      exact ⟨d, .whileLoop hKeyword hCondition hDerives⟩
  | forLoop hKeyword =>
      exact absurd (hForless _ List.mem_cons_self) (not_isForless_counting hKeyword _ _ _ _)
  | varDecl hVar hVariable =>
      cases hVariable with
      | bare hName hSemicolon => exact .varDecl hVar (.bare hName hSemicolon)
      | initialized hName hEqual hValue hSemicolon =>
          exact .varDecl hVar (.initialized hName hEqual hValue hSemicolon)
  | statement _ ih =>
      obtain ⟨d, hDerives⟩ := ih hForless
      exact .statement hDerives
  | nil => exact .nil
  | cons _ _ ihHead ihTail =>
      obtain ⟨hHead, hTail⟩ := List.forall_mem_cons.mp hForless
      exact .cons (ihHead (List.forall_mem_singleton.mpr hHead)) (ihTail hTail)

end Stmt
end Lox
