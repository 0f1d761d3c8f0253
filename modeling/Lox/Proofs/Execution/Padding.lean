import Mathlib
import Lox.Scope

/-! Scope chains with empty scopes put in between. Looking a name up and assigning to it pass over an
empty scope, so they do the same in a chain with any number of them inserted anywhere. -/
namespace Lox

/-- The second list is the first with empty scopes inserted. The shape tells from the innermost
scope on which of its scopes are those of the first. -/
inductive Scope.Padded : List Bool → List Scope → List Scope → Prop
  | nil : Padded [] [] []
  | same {shape : List Bool} {a b : List Scope} (s : Scope) (h : Padded shape a b) :
      Padded (true :: shape) (s :: a) (s :: b)
  | gap {shape : List Bool} {a b : List Scope} (h : Padded shape a b) :
      Padded (false :: shape) a ([] :: b)

namespace Scope

variable {shape : List Bool} {a b : List Scope}

/-- Without gaps nothing is inserted. -/
theorem padded_replicate_iff {n : Nat} :
    Padded (List.replicate n true) a b ↔ a = b ∧ a.length = n := by
  induction n generalizing a b with
  | zero =>
      constructor
      · intro h
        cases h
        exact ⟨rfl, rfl⟩
      · rintro ⟨rfl, hLength⟩
        rw [List.length_eq_zero_iff.mp hLength]
        exact .nil
  | succ n ih =>
      rw [List.replicate_succ]
      constructor
      · intro h
        cases h with
        | same s h =>
            obtain ⟨rfl, hLength⟩ := ih.mp h
            exact ⟨rfl, by rw [List.length_cons, hLength]⟩
      · rintro ⟨rfl, hLength⟩
        obtain ⟨s, a', rfl⟩ := List.exists_cons_of_length_eq_add_one hLength
        exact .same s (ih.mpr ⟨rfl, by simpa using hLength⟩)

theorem Padded.true_mem (h : Padded shape a b) (hScopes : a ≠ []) : true ∈ shape := by
  induction h with
  | nil => exact absurd rfl hScopes
  | same s h ih => exact List.mem_cons_self
  | gap h ih => exact List.mem_cons_of_mem _ (ih hScopes)

theorem Padded.ne_nil (h : Padded shape a b) (hShape : true ∈ shape) : a ≠ [] ∧ b ≠ [] := by
  induction h with
  | nil => simp at hShape
  | same s h ih => simp
  | gap h ih =>
      have hInner : true ∈ _ := (List.mem_cons.mp hShape).resolve_left (by decide)
      exact ⟨(ih hInner).1, by simp⟩

/-- Empty scopes hide no binding. -/
theorem Padded.findSome? (h : Padded shape a b) (name : Text) :
    a.findSome? (Scope.find? · name) = b.findSome? (Scope.find? · name) := by
  induction h with
  | nil => rfl
  | same s h ih => rw [List.findSome?_cons, List.findSome?_cons, ih]
  | gap h ih => rw [List.findSome?_cons, ih, Scope.find?, List.lookup_nil]

/-- An assignment finds the same binding, and what is inserted stays empty. -/
theorem Padded.assignIn (h : Padded shape a b) (name : Text) (value : Slot) :
    Option.Rel (Padded shape) (Chain.assignIn name value a) (Chain.assignIn name value b) := by
  induction h with
  | nil => exact .none
  | @same shape a b s h ih =>
      rw [Chain.assignIn, Chain.assignIn]
      split
      · exact .some (.same _ h)
      · generalize Chain.assignIn name value a = r, Chain.assignIn name value b = r' at ih
        cases ih with
        | none => exact .none
        | some h' => exact .some (.same s h')
  | @gap shape a b h ih =>
      have hPassed : Chain.assignIn name value ([] :: b) =
          (Chain.assignIn name value b).map ([] :: ·) := by
        rw [Chain.assignIn, if_neg]
        simp [Scope.find?]
      rw [hPassed]
      generalize Chain.assignIn name value a = r, Chain.assignIn name value b = r' at ih
      cases ih with
      | none => exact .none
      | some h' => exact .some (.gap h')

end Scope

namespace Chain

def Padded (shape : List Bool) (c d : Chain) : Prop := Scope.Padded shape c.scopes d.scopes

variable {shape : List Bool} {c d : Chain}

/-- Without empty scopes the chains are equal. -/
theorem padded_replicate_iff {n : Nat} :
    Padded (List.replicate n true) c d ↔ c = d ∧ c.scopes.length = n := by
  rw [Padded, Scope.padded_replicate_iff]
  refine and_congr_left fun _ => ⟨fun h => ?_, congrArg scopes⟩
  obtain ⟨hCurrent, hOuter⟩ := List.cons_eq_cons.mp h
  cases c
  cases d
  cases hCurrent
  cases hOuter
  rfl

theorem Padded.true_mem (h : Padded shape c d) : true ∈ shape :=
  Scope.Padded.true_mem h (by simp [scopes])

/-- Empty scopes do not change what a name is bound to. -/
theorem Padded.find? (h : Padded shape c d) (name : Text) : c.find? name = d.find? name :=
  Scope.Padded.findSome? h name

/-- Assignment finds its name in the same scope of both chains, or in neither. -/
theorem Padded.assign? (h : Padded shape c d) (name : Text) (value : Slot) :
    Option.Rel (Padded shape) (c.assign? name value) (d.assign? name value) := by
  have hAssigned := Scope.Padded.assignIn h name value
  rw [Chain.assign?, Chain.assign?]
  generalize assignIn name value c.scopes = r, assignIn name value d.scopes = r' at hAssigned
  cases hAssigned with
  | none => exact .none
  | @some a b hPadded =>
      obtain ⟨hLeft, hRight⟩ := hPadded.ne_nil h.true_mem
      obtain ⟨s, a, rfl⟩ := List.exists_cons_of_ne_nil hLeft
      obtain ⟨s', b, rfl⟩ := List.exists_cons_of_ne_nil hRight
      exact .some hPadded

theorem Padded.push (h : Padded shape c d) : Padded (true :: shape) c.push d.push := .same [] h

/-- Opening a scope on one side only leaves a gap. -/
theorem Padded.pushGap (h : Padded shape c d) : Padded (false :: shape) c d.push := .gap h

/-- A declaration in a scope that both chains have. -/
theorem Padded.define (h : Padded (true :: shape) c d) (name : Text) (value : Slot) :
    Padded (true :: shape) (c.define name value) (d.define name value) := by
  obtain ⟨s, a⟩ := c
  obtain ⟨s', b⟩ := d
  cases h with
  | same s h => exact .same _ h

/-- The scope that both chains have is left, as long as it is not the last one. -/
theorem Padded.pop (h : Padded (true :: shape) c d) (hShape : true ∈ shape) :
    Padded shape c.pop d.pop := by
  obtain ⟨s, a⟩ := c
  obtain ⟨s', b⟩ := d
  cases h with
  | same s h =>
      obtain ⟨hLeft, hRight⟩ := h.ne_nil hShape
      obtain ⟨t, a, rfl⟩ := List.exists_cons_of_ne_nil hLeft
      obtain ⟨t', b, rfl⟩ := List.exists_cons_of_ne_nil hRight
      exact h

/-- Closing the inserted scope closes the gap. -/
theorem Padded.popGap (h : Padded (false :: shape) c d) (hShape : true ∈ shape) :
    Padded shape c d.pop := by
  obtain ⟨s', b⟩ := d
  cases h with
  | gap h =>
      obtain ⟨t', b, rfl⟩ := List.exists_cons_of_ne_nil (h.ne_nil hShape).2
      exact h

end Chain
end Lox
