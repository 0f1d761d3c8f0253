import Mathlib
import Lox.Program.Reading

/-! What a reader reads, as a relation between its outcome, the phrase and the tokens left over.
The proofs that a reader meets a grammar go through this relation and never look at the length
bounds that the outcomes carry. -/
namespace Lox

namespace Reading

/-- The outcome is the phrase `a`, with `rest` left over. -/
def Reads {α : Type} {n : Nat} (r : Reading α n) (a : α) (rest : List Token) : Prop :=
  ∃ fewer, r = .done a rest fewer

variable {α β : Type} {n : Nat}

/-- A phrase takes at least one token. -/
theorem Reads.length_lt {r : Reading α n} {a : α} {rest : List Token} (h : r.Reads a rest) :
    rest.length < n := by
  obtain ⟨fewer, _⟩ := h
  exact fewer

@[simp]
theorem reads_done {a a' : α} {rest rest' : List Token} (fewer : rest.length < n) :
    (Reading.done a rest fewer).Reads a' rest' ↔ a = a' ∧ rest = rest' := by
  constructor
  · rintro ⟨_, h⟩
    cases h
    exact ⟨rfl, rfl⟩
  · rintro ⟨rfl, rfl⟩
    exact ⟨fewer, rfl⟩

@[simp]
theorem reads_failed {a : α} {rest rest' : List Token} (problem : Problem)
    (atMost : rest.length ≤ n) :
    ¬ (Reading.failed problem rest atMost).Reads a rest' := by
  rintro ⟨_, h⟩
  cases h

@[simp]
theorem reads_refuse {a : α} {rest : List Token} (complaint : Complaint) (ts : List Token) :
    ¬ (refuse complaint ts).Reads a rest :=
  reads_failed _ _

@[simp]
theorem reads_weaken {m : Nat} (h : m ≤ n) (r : Reading α m) (a : α) (rest : List Token) :
    (r.weaken h).Reads a rest ↔ r.Reads a rest := by
  cases r <;> simp [weaken]

/-- A phrase is changed, not what is left over. -/
@[simp]
theorem reads_map (f : α → β) (r : Reading α n) (b : β) (rest : List Token) :
    (r.map f).Reads b rest ↔ ∃ a, r.Reads a rest ∧ f a = b := by
  cases r with
  | failed problem left atMost => simp [map]
  | done a left fewer =>
      simp only [map, reads_done]
      constructor
      · rintro ⟨rfl, rfl⟩
        exact ⟨a, ⟨rfl, rfl⟩, rfl⟩
      · rintro ⟨_, ⟨rfl, rfl⟩, rfl⟩
        exact ⟨rfl, rfl⟩

/-- Two phrases are read one after the other. -/
@[simp]
theorem reads_andThen (r : Reading α n)
    (next : α → (rest : List Token) → rest.length < n → Reading β rest.length)
    (b : β) (rest : List Token) :
    (r.andThen next).Reads b rest ↔
      ∃ (a : α) (middle : List Token) (h : r.Reads a middle),
        (next a middle h.length_lt).Reads b rest := by
  cases r with
  | failed problem left atMost => simp [andThen]
  | done a left fewer =>
      simp only [andThen, reads_weaken]
      constructor
      · intro h
        exact ⟨a, left, ⟨fewer, rfl⟩, h⟩
      · rintro ⟨a', left', h', h⟩
        obtain ⟨rfl, rfl⟩ := (reads_done fewer).mp h'
        exact h

/-- A second phrase may take up no token. -/
@[simp]
theorem reads_andPerhaps (r : Reading α n)
    (next : α → (rest : List Token) → rest.length < n → Reading β (rest.length + 1))
    (b : β) (rest : List Token) :
    (r.andPerhaps next).Reads b rest ↔
      ∃ (a : α) (middle : List Token) (h : r.Reads a middle),
        (next a middle h.length_lt).Reads b rest := by
  cases r with
  | failed problem left atMost => simp [andPerhaps]
  | done a left fewer =>
      simp only [andPerhaps, reads_weaken]
      constructor
      · intro h
        exact ⟨a, left, ⟨fewer, rfl⟩, h⟩
      · rintro ⟨a', left', h', h⟩
        obtain ⟨rfl, rfl⟩ := (reads_done fewer).mp h'
        exact h

/-- A token is read if it is of the kind that is asked for. -/
@[simp]
theorem reads_token (kind : Kind) (complaint : Complaint) (ts : List Token) (t : Token)
    (rest : List Token) :
    (token kind complaint ts).Reads t rest ↔ ts = t :: rest ∧ t.kind = kind := by
  cases ts with
  | nil => simp [token]
  | cons head tail =>
      simp only [token]
      split
      next h =>
        simp only [reads_done, List.cons.injEq]
        constructor
        · rintro ⟨rfl, rfl⟩
          exact ⟨⟨rfl, rfl⟩, h⟩
        · exact And.left
      next h =>
        simp only [reads_refuse, List.cons.injEq, false_iff]
        rintro ⟨⟨rfl, rfl⟩, hKind⟩
        exact h hKind

@[simp]
theorem ahead_cons (t : Token) (ts : List Token) : ahead (t :: ts) = t.kind := rfl

end Reading
end Lox
