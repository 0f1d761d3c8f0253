import Lox.Proofs.Execution.Agreement

/-! What all statements have in common. A relation between actions that holds of the simple ones and
is kept when actions are put together holds of every statement, run in one way and in another. -/
namespace Lox

namespace Action

/-- A relation between the actions of two runs that is kept by all ways to put actions together. -/
structure Congruence (run run' : Run) (P : ∀ {α : Type}, Action α → Action α → Prop) : Prop where
  pure : ∀ {α : Type} (a : α), P (Pure.pure a) (Pure.pure a)
  bind : ∀ {α β : Type} {x y : Action α} {f g : α → Action β},
    P x y → (∀ a, P (f a) (g a)) → P (x >>= f) (y >>= g)
  trace : ∀ t, P (trace t) (trace t)
  define : ∀ name value, P (modify fun m => { m with scopes := m.scopes.define name value })
    (modify fun m => { m with scopes := m.scopes.define name value })
  eval : ∀ e, P (eval e) (eval e)
  crash : ∀ {α : Type}, P (throw .crashed : Action α) (throw .crashed)
  write : ∀ keyword text, P (write run keyword text) (write run' keyword text)
  checkTime : ∀ keyword, P (checkTime run keyword) (checkTime run' keyword)
  countIteration : ∀ keyword, P (countIteration run keyword) (countIteration run' keyword)
  repeatWhile : ∀ {test test' : Action Bool} {body body' : Action Unit}, P test test' →
    P body body' → P (repeatWhile test body run.horizon) (repeatWhile test' body' run'.horizon)
  inScope : ∀ {body body' : Action Unit} (line : Int),
    P body body' → P (inScope line body) (inScope line body')

variable {run run' : Run} {P : ∀ {α : Type}, Action α → Action α → Prop}

theorem Congruence.traced (h : Congruence run run' P) {body body' : Action Unit} (hBody : P body body')
    (line : Int) (kind : String) : P (traced line kind body) (traced line kind body') :=
  h.bind (h.trace _) fun _ => h.bind hBody fun _ => h.trace _

theorem Congruence.present (h : Congruence run run' P) (v : Slot) : P (present v) (present v) := by
  cases v with
  | none => exact h.crash
  | some v => exact h.pure v

/-- A congruence relates the tests of loops. -/
theorem Congruence.test (h : Congruence run run' P) (keyword : Token) (condition : Expr) :
    P (test run keyword condition) (test run' keyword condition) := by
  refine h.bind (h.checkTime keyword) fun _ => h.bind (h.eval condition) fun v => ?_
  split
  · exact h.bind (h.countIteration keyword) fun _ => h.pure true
  · exact h.pure false

end Action

namespace Stmt

open Lox.Action

variable {run run' : Run} {P : ∀ {α : Type}, Action α → Action α → Prop}

mutual

/-- A congruence relates what a statement does in the two runs. -/
theorem congruence_exec (h : Congruence run run' P) : (s : Stmt) → P (s.exec run) (s.exec run')
  | .expr e => by
      rw [exec, exec]
      exact h.traced (h.bind (h.eval e) fun _ => h.pure ()) _ _
  | .print keyword e => by
      rw [exec, exec]
      refine h.traced (h.bind (h.eval e) fun v => h.bind (h.present v) fun _ => ?_) _ _
      exact h.bind (h.write keyword _) fun _ => h.trace _
  | .declare name token none => by
      rw [exec, exec]
      exact h.traced (h.define name _) _ _
  | .declare name token (some e) => by
      rw [exec, exec]
      exact h.traced (h.bind (h.eval e) fun v => h.define name v) _ _
  | .block line body => by
      rw [exec, exec]
      exact h.traced (h.inScope line (congruence_execAll h body)) _ _
  | .branch keyword condition yes none => by
      rw [exec, exec]
      refine h.traced (h.bind (h.eval condition) fun v => ?_) _ _
      split
      · exact congruence_exec h yes
      · exact h.pure ()
  | .branch keyword condition yes (some no) => by
      rw [exec, exec]
      refine h.traced (h.bind (h.eval condition) fun v => ?_) _ _
      split
      · exact congruence_exec h yes
      · exact congruence_exec h no
  | .loop keyword condition body => by
      rw [exec, exec]
      exact h.traced (h.repeatWhile (h.test keyword condition) (congruence_exec h body)) _ _

/-- A congruence relates what statements in a row do in the two runs. -/
theorem congruence_execAll (h : Congruence run run' P) :
    (ss : List Stmt) → P (execAll run ss) (execAll run' ss)
  | [] => by
      rw [execAll, execAll]
      exact h.pure ()
  | s :: ss => by
      rw [execAll, execAll]
      exact h.bind (congruence_exec h s) fun _ => congruence_execAll h ss

end

end Stmt
end Lox
