import Lox.Proofs.Execution.Confinement

/-! Scopes as stacks of shadowed values. A chain of scopes keeps one table of names for each scope. Here
each name has a stack of its own instead, with an entry for each scope that binds it, and the two are
shown to give the same answers to every sequence of operations. What a scope hides while it is open is
read off the stacks. -/
namespace Lox

/-- An operation on scopes, made in the scope that the operations before it have gone to. -/
inductive ScopeOp where
  | define (name : Text) (value : Slot)
  /-- Goes to a new scope inside the current one. -/
  | child
  /-- Goes to the enclosing scope. The global scope has none, and is not left. -/
  | enclosing
  | lookup (name : Text)
  | get (name : Token)
  | assign (name : Token) (value : Slot)
  deriving Repr

inductive ScopeAnswer where
  | done
  /-- Whether there was a scope to go to. -/
  | left (ok : Bool)
  | found (value : Option Slot)
  | got (result : Except Fault Slot)
  | assigned (result : Except Fault Unit)

namespace ScopeOp

def assigns (name : Text) : ScopeOp → Bool
  | .assign token _ => token.lexeme = name
  | _ => false

section Observation

variable {σ τ : Type}

def after (step : ScopeOp → σ → ScopeAnswer × σ) (ops : List ScopeOp) (s : σ) : σ :=
  ops.foldl (fun s op => (step op s).2) s

/-- What is seen of some operations: the answer to each, and the depth of the scope it leads to. -/
def observe (step : ScopeOp → σ → ScopeAnswer × σ) (depth : σ → Nat) :
    List ScopeOp → σ → List (ScopeAnswer × Nat)
  | [], _ => []
  | op :: ops, s => ((step op s).1, depth (step op s).2) :: observe step depth ops (step op s).2

variable {step : ScopeOp → σ → ScopeAnswer × σ} {step' : ScopeOp → τ → ScopeAnswer × τ}
  {depth : σ → Nat} {depth' : τ → Nat} {view : σ → τ}

/-- A view that is kept by each operation is kept by any number of them. -/
theorem after_of_simulation
    (hStep : ∀ op s, step' op (view s) = ((step op s).1, view (step op s).2)) (ops : List ScopeOp)
    (s : σ) : after step' ops (view s) = view (after step ops s) := by
  induction ops generalizing s with
  | nil => rfl
  | cons op ops ih =>
      have hNext := ih (step op s).2
      rwa [after, List.foldl_cons, hStep]

/-- With the same depths nothing seen of the operations tells a state from its view. -/
theorem observe_of_simulation
    (hStep : ∀ op s, step' op (view s) = ((step op s).1, view (step op s).2))
    (hDepth : ∀ s, depth' (view s) = depth s) (ops : List ScopeOp) (s : σ) :
    observe step' depth' ops (view s) = observe step depth ops s := by
  induction ops generalizing s with
  | nil => rfl
  | cons op ops ih => rw [observe, observe, hStep, hDepth, ih]

end Observation

end ScopeOp

def Chain.perform : ScopeOp → Chain → ScopeAnswer × Chain
  | .define name value, c => (.done, c.define name value)
  | .child, c => (.done, c.push)
  | .enclosing, c => (.left c.pop?.isSome, c.pop)
  | .lookup name, c => (.found (c.find? name), c)
  | .get name, c =>
    match Evaluation.lookup name c with
    | .ok value c => (.got (.ok value), c)
    | .error fault c => (.got (.error fault), c)
  | .assign name value, c =>
    match Evaluation.assign name value c with
    | .ok () c => (.assigned (.ok ()), c)
    | .error fault c => (.assigned (.error fault), c)

/-- The values of one name from the one in force on, each with the depth of the scope that it is bound
in. -/
abbrev ShadowStack := List (Nat × Slot)

namespace ShadowStack

/-- Binds a value at a depth: the top entry is replaced if it has that depth, and is otherwise covered. -/
def bind (depth : Nat) (value : Slot) : ShadowStack → ShadowStack
  | [] => [(depth, value)]
  | (d, old) :: rest =>
    if d = depth then (depth, value) :: rest else (depth, value) :: (d, old) :: rest

/-- Overwrites the value of the top entry, if there is one. The entry stays at its depth. -/
def overwrite (value : Slot) : ShadowStack → ShadowStack
  | [] => []
  | (d, _) :: rest => (d, value) :: rest

def top? : ShadowStack → Option Slot
  | [] => none
  | (_, value) :: _ => some value

/-- From the top on the depths go down, and none is above the limit. -/
structure IsShadowing (limit : Nat) (stack : ShadowStack) : Prop where
  ordered : stack.Pairwise fun upper lower => lower.1 < upper.1
  bounded : ∀ entry ∈ stack, entry.1 ≤ limit

variable {limit : Nat} {stack rest : ShadowStack} {value : Slot}

theorem IsShadowing.mono {limit' : Nat} (h : stack.IsShadowing limit) (hLe : limit ≤ limit') :
    stack.IsShadowing limit' :=
  ⟨h.ordered, fun entry hEntry => (h.bounded entry hEntry).trans hLe⟩

theorem isShadowing_cons {entry : Nat × Slot} :
    IsShadowing limit (entry :: rest) ↔
      entry.1 ≤ limit ∧ (∀ lower ∈ rest, lower.1 < entry.1) ∧ rest.IsShadowing limit := by
  constructor
  · rintro ⟨hOrdered, hBounded⟩
    obtain ⟨hBelow, hOrdered⟩ := List.pairwise_cons.mp hOrdered
    obtain ⟨hTop, hBounded⟩ := List.forall_mem_cons.mp hBounded
    exact ⟨hTop, hBelow, hOrdered, hBounded⟩
  · rintro ⟨hTop, hBelow, hOrdered, hBounded⟩
    exact ⟨List.pairwise_cons.mpr ⟨hBelow, hOrdered⟩, List.forall_mem_cons.mpr ⟨hTop, hBounded⟩⟩

/-- A value that is bound at the limit covers those below. -/
theorem IsShadowing.bind (h : stack.IsShadowing limit) (value : Slot) :
    (stack.bind limit value).IsShadowing limit := by
  fun_cases ShadowStack.bind limit value stack with
  | case1 => exact isShadowing_cons.mpr ⟨Nat.le_refl _, by simp, by simp, by simp⟩
  | case2 old rest =>
      obtain ⟨hTop, hBelow, hRest⟩ := isShadowing_cons.mp h
      exact isShadowing_cons.mpr ⟨hTop, hBelow, hRest⟩
  | case3 d old rest hDepth =>
      refine isShadowing_cons.mpr ⟨Nat.le_refl _, fun lower hLower => ?_, h⟩
      obtain ⟨hTop, hBelow, -⟩ := isShadowing_cons.mp h
      rcases List.mem_cons.mp hLower with rfl | hRest
      · exact Nat.lt_of_le_of_ne hTop hDepth
      · exact Nat.lt_of_lt_of_le (hBelow lower hRest) hTop

/-- Overwriting changes no depth. -/
theorem IsShadowing.overwrite (h : stack.IsShadowing limit) (value : Slot) :
    (stack.overwrite value).IsShadowing limit := by
  cases stack with
  | nil => exact h
  | cons entry rest =>
      obtain ⟨hTop, hBelow, hRest⟩ := isShadowing_cons.mp h
      exact isShadowing_cons.mpr ⟨hTop, hBelow, hRest⟩

/-- Without the entries at the limit the depths are below it. -/
theorem IsShadowing.below (h : stack.IsShadowing limit) :
    IsShadowing (limit - 1) (stack.filter (·.1 ≠ limit)) := by
  refine ⟨h.ordered.filter _, fun entry hEntry => ?_⟩
  obtain ⟨hMem, hNe⟩ := List.mem_filter.mp hEntry
  exact Nat.le_sub_one_of_lt (Nat.lt_of_le_of_ne (h.bounded entry hMem) (of_decide_eq_true hNe))

end ShadowStack

/-- The depth of the current scope and the stack of every name. -/
@[ext]
structure Shadows where
  depth : Nat
  stack : Text → ShadowStack
  shadowing : ∀ name, (stack name).IsShadowing depth

namespace Shadows

def empty : Shadows := ⟨0, fun _ => [], fun _ => ⟨.nil, by simp⟩⟩

theorem shadowing_update (s : Shadows) (name : Text) {stack : ShadowStack}
    (h : stack.IsShadowing s.depth) (other : Text) :
    (Function.update s.stack name stack other).IsShadowing s.depth := by
  rw [Function.update_apply]
  split
  · exact h
  · exact s.shadowing other

def define (s : Shadows) (name : Text) (value : Slot) : Shadows :=
  ⟨s.depth, Function.update s.stack name ((s.stack name).bind s.depth value),
    s.shadowing_update name ((s.shadowing name).bind value)⟩

def enter (s : Shadows) : Shadows :=
  ⟨s.depth + 1, s.stack, fun name => (s.shadowing name).mono (Nat.le_succ _)⟩

/-- Leaves a scope, and drops exactly the entries at its depth. -/
def leave (s : Shadows) : Shadows :=
  ⟨s.depth - 1, fun name => (s.stack name).filter (·.1 ≠ s.depth), fun name => (s.shadowing name).below⟩

def assign (s : Shadows) (name : Text) (value : Slot) : Shadows :=
  ⟨s.depth, Function.update s.stack name ((s.stack name).overwrite value),
    s.shadowing_update name ((s.shadowing name).overwrite value)⟩

/-- A declaration changes the stack of its own name. -/
theorem stack_define (s : Shadows) (name : Text) (value : Slot) (other : Text) :
    (s.define name value).stack other =
      if other = name then (s.stack name).bind s.depth value else s.stack other :=
  Function.update_apply s.stack name _ other

theorem stack_leave (s : Shadows) (name : Text) :
    s.leave.stack name = (s.stack name).filter (·.1 ≠ s.depth) := rfl

/-- Assignment changes the stack of its own name. -/
theorem stack_assign (s : Shadows) (name : Text) (value : Slot) (other : Text) :
    (s.assign name value).stack other =
      if other = name then (s.stack name).overwrite value else s.stack other :=
  Function.update_apply s.stack name _ other

def perform : ScopeOp → Shadows → ScopeAnswer × Shadows
  | .define name value, s => (.done, s.define name value)
  | .child, s => (.done, s.enter)
  | .enclosing, s => if s.depth = 0 then (.left false, s) else (.left true, s.leave)
  | .lookup name, s => (.found (s.stack name).top?, s)
  | .get name, s =>
    match (s.stack name.lexeme).top? with
    | some value => (.got (.ok value), s)
    | none => (.got (.error ⟨.undefined, name⟩), s)
  | .assign name value, s =>
    if (s.stack name.lexeme).isEmpty then (.assigned (.error ⟨.undefined, name⟩), s)
    else (.assigned (.ok ()), s.assign name.lexeme value)

end Shadows

namespace Scope

/-- What a name is bound to from the innermost scope on, each value with the depth of its scope. -/
def entries (name : Text) : List Scope → ShadowStack
  | [] => []
  | s :: outer =>
    match s.find? name with
    | some value => (outer.length, value) :: entries name outer
    | none => entries name outer

variable {name : Text} {s : Scope} {outer ss : List Scope} {value : Slot}

theorem entries_of_some (h : s.find? name = some value) :
    entries name (s :: outer) = (outer.length, value) :: entries name outer := by
  rw [entries, h]

theorem entries_of_none (h : s.find? name = none) : entries name (s :: outer) = entries name outer := by
  rw [entries, h]

/-- A name is bound no deeper than there are scopes. -/
theorem lt_of_mem_entries (ss : List Scope) : ∀ entry ∈ entries name ss, entry.1 < ss.length := by
  induction ss with
  | nil => simp [entries]
  | cons s outer ih =>
      have hOuter : ∀ entry ∈ entries name outer, entry.1 < (s :: outer).length :=
        fun entry hEntry => Nat.lt_succ_of_lt (ih entry hEntry)
      cases hFind : s.find? name with
      | none => rwa [entries_of_none hFind]
      | some value =>
          rw [entries_of_some hFind]
          exact List.forall_mem_cons.mpr ⟨Nat.lt_succ_self _, hOuter⟩

/-- From the innermost scope on depths go down. -/
theorem isShadowing_entries (s : Scope) (outer : List Scope) :
    (entries name (s :: outer)).IsShadowing outer.length := by
  refine ⟨?_, fun entry hEntry => Nat.le_of_lt_succ (lt_of_mem_entries _ entry hEntry)⟩
  generalize s :: outer = ss
  induction ss with
  | nil => exact .nil
  | cons s outer ih =>
      cases hFind : s.find? name with
      | none => rwa [entries_of_none hFind]
      | some value =>
          rw [entries_of_some hFind]
          exact List.pairwise_cons.mpr ⟨lt_of_mem_entries outer, ih⟩

/-- The top of a stack is what the name is bound to. -/
theorem top?_entries (ss : List Scope) :
    (entries name ss).top? = ss.findSome? (Scope.find? · name) := by
  induction ss with
  | nil => rfl
  | cons s outer ih =>
      cases hFind : s.find? name with
      | none => rw [entries_of_none hFind, List.findSome?_cons, hFind, ih]
      | some value => rw [entries_of_some hFind, List.findSome?_cons, hFind, ShadowStack.top?]

/-- Binding a name in the innermost scope replaces or covers its top entry. -/
theorem entries_define (name : Text) (value : Slot) (s : Scope) (outer : List Scope) :
    entries name (s.define name value :: outer) =
      (entries name (s :: outer)).bind outer.length value := by
  have hBound : (s.define name value).find? name = some value := by rw [find?_define, if_pos rfl]
  rw [entries_of_some hBound]
  cases hFind : s.find? name with
  | some old => rw [entries_of_some hFind, ShadowStack.bind, if_pos rfl]
  | none =>
      rw [entries_of_none hFind]
      have hOuter := @lt_of_mem_entries name outer
      generalize entries name outer = stack at hOuter
      cases stack with
      | nil => rfl
      | cons entry rest =>
          have hBelow := hOuter entry List.mem_cons_self
          rw [ShadowStack.bind, if_neg (Nat.ne_of_lt hBelow)]

/-- A declaration leaves other names alone. -/
theorem entries_define_of_ne {other : Text} (h : other ≠ name) (value : Slot) (s : Scope)
    (outer : List Scope) :
    entries other (s.define name value :: outer) = entries other (s :: outer) := by
  rw [entries, entries, find?_define, if_neg h]

/-- Leaving the innermost scope drops the entry at its depth. -/
theorem entries_tail (s : Scope) (outer : List Scope) :
    entries name outer = (entries name (s :: outer)).filter (·.1 ≠ outer.length) := by
  have hOuter : (entries name outer).filter (·.1 ≠ outer.length) = entries name outer :=
    List.filter_eq_self.mpr fun entry hEntry =>
      decide_eq_true (Nat.ne_of_lt (lt_of_mem_entries outer entry hEntry))
  cases hFind : s.find? name with
  | none => rw [entries_of_none hFind, hOuter]
  | some value =>
      rw [entries_of_some hFind, List.filter_cons_of_neg (by simp), hOuter]

end Scope

namespace Chain

/-- An assignment fails where nothing is bound, and overwrites the top entry elsewhere. -/
theorem assignIn_eq_none_iff {name : Text} {value : Slot} {ss : List Scope} :
    assignIn name value ss = none ↔ Scope.entries name ss = [] := by
  induction ss with
  | nil => simp [assignIn, Scope.entries]
  | cons s outer ih =>
      rw [assignIn]
      cases hFind : s.find? name with
      | none => simp [Scope.entries_of_none hFind, ih]
      | some old => simp [Scope.entries_of_some hFind]

/-- Assignment overwrites the top of the stack of its name, and nothing else. -/
theorem entries_assignIn {name : Text} {value : Slot} {ss ts : List Scope}
    (h : assignIn name value ss = some ts) :
    ts.length = ss.length ∧ Scope.entries name ts = (Scope.entries name ss).overwrite value ∧
      ∀ other ≠ name, Scope.entries other ts = Scope.entries other ss := by
  induction ss generalizing ts with
  | nil => cases h
  | cons s outer ih =>
      rw [assignIn] at h
      cases hFind : s.find? name with
      | none =>
          rw [hFind, Option.isSome_none, if_neg (by simp)] at h
          obtain ⟨ts, hRest, rfl⟩ := Option.map_eq_some_iff.mp h
          obtain ⟨hLength, hName, hOther⟩ := ih hRest
          refine ⟨by rw [List.length_cons, List.length_cons, hLength], ?_, fun other hNe => ?_⟩
          · rw [Scope.entries_of_none hFind, Scope.entries_of_none hFind, hName]
          · rw [Scope.entries, Scope.entries, hLength, hOther other hNe]
      | some old =>
          rw [hFind, Option.isSome_some, if_pos rfl] at h
          cases h
          have hBound : (s.define name value).find? name = some value := by
            rw [Scope.find?_define, if_pos rfl]
          refine ⟨rfl, ?_, fun other hNe => Scope.entries_define_of_ne hNe value s outer⟩
          rw [Scope.entries_of_some hBound, Scope.entries_of_some hFind, ShadowStack.overwrite]

def shadows (c : Chain) : Shadows :=
  ⟨c.depth, fun name => Scope.entries name c.scopes,
    fun _ => Scope.isShadowing_entries c.current c.outer⟩

@[simp] theorem depth_shadows (c : Chain) : c.shadows.depth = c.depth := rfl

theorem shadows_empty : Chain.empty.shadows = Shadows.empty := rfl

/-- A declaration in the chain binds at the current depth. -/
theorem shadows_define (c : Chain) (name : Text) (value : Slot) :
    (c.define name value).shadows = c.shadows.define name value := by
  refine Shadows.ext rfl (funext fun other => ?_)
  rw [Shadows.stack_define]
  split
  next h =>
    subst h
    exact Scope.entries_define other value c.current c.outer
  next h => exact Scope.entries_define_of_ne h value c.current c.outer

/-- A new scope binds nothing, so no stack changes. -/
theorem shadows_push (c : Chain) : c.push.shadows = c.shadows.enter := rfl

/-- To leave a scope is to drop the entries at its depth. -/
theorem shadows_pop {c : Chain} (h : c.depth ≠ 0) : c.pop.shadows = c.shadows.leave := by
  obtain ⟨current, outer⟩ := c
  cases outer with
  | nil => exact absurd rfl h
  | cons s outer =>
      exact Shadows.ext rfl (funext fun name => Scope.entries_tail current (s :: outer))

theorem find?_eq_top? (c : Chain) (name : Text) : c.find? name = (c.shadows.stack name).top? :=
  (Scope.top?_entries c.scopes).symm

/-- Assignment fails for the names without entries. -/
theorem assign?_eq_none_iff {c : Chain} {name : Text} {value : Slot} :
    c.assign? name value = none ↔ c.shadows.stack name = [] := by
  rw [assign?, shadows]
  refine Iff.trans ?_ (@assignIn_eq_none_iff name value c.scopes)
  cases hAssigned : assignIn name value c.scopes with
  | none => simp
  | some ts =>
      cases ts with
      | nil => exact absurd (entries_assignIn hAssigned).1 (by simp [scopes])
      | cons s outer => simp

/-- Assignment in the chain overwrites the top of a stack. -/
theorem shadows_assign {c d : Chain} {name : Text} {value : Slot}
    (h : c.assign? name value = some d) : d.shadows = c.shadows.assign name value := by
  rw [assign?] at h
  split at h
  next s outer hAssigned =>
    cases h
    obtain ⟨hLength, hName, hOther⟩ := entries_assignIn hAssigned
    refine Shadows.ext (Nat.succ.inj hLength) (funext fun other => ?_)
    rw [Shadows.stack_assign]
    split
    next hEq =>
      subst hEq
      exact hName
    next hNe => exact hOther other hNe
  next => cases h

/-- One operation on the chain is the same operation on its stacks. -/
theorem perform_shadows (op : ScopeOp) (c : Chain) :
    Shadows.perform op c.shadows = ((perform op c).1, (perform op c).2.shadows) := by
  cases op with
  | define name value => rw [perform, shadows_define, Shadows.perform]
  | child => rfl
  | enclosing =>
      rw [perform, Shadows.perform, depth_shadows]
      by_cases h : c.depth = 0
      · have hOuter : c.outer = [] := List.length_eq_zero_iff.mp h
        rw [if_pos h, pop, pop?, hOuter]
        rfl
      · have hSome : c.pop?.isSome = true := by
          rw [pop?]
          split
          next hOuter => exact absurd (List.length_eq_zero_iff.mpr hOuter) h
          next => rfl
        rw [if_neg h, hSome, shadows_pop h]
  | lookup name => rw [perform, Shadows.perform, find?_eq_top?]
  | get name =>
      rw [perform, Shadows.perform, Evaluation.lookup_apply, find?_eq_top?]
      cases (c.shadows.stack name.lexeme).top? <;> rfl
  | assign name value =>
      rw [perform, Shadows.perform, Evaluation.assign_apply]
      cases hAssign : c.assign? name.lexeme value with
      | none => rw [if_pos (List.isEmpty_iff.mpr (assign?_eq_none_iff.mp hAssign))]
      | some d =>
          have hBound : c.shadows.stack name.lexeme ≠ [] := fun hEmpty => by
            rw [assign?_eq_none_iff.mpr hEmpty] at hAssign
            cases hAssign
          rw [if_neg (by simpa using hBound), shadows_assign hAssign]

end Chain

namespace ShadowStack

variable {d : Nat} {stack : ShadowStack}

/-- The entries that are no deeper than a scope. -/
def upTo (d : Nat) (stack : ShadowStack) : ShadowStack := stack.filter (·.1 ≤ d)

theorem upTo_cons_of_lt {entry : Nat × Slot} (h : d < entry.1) (rest : ShadowStack) :
    upTo d (entry :: rest) = upTo d rest :=
  List.filter_cons_of_neg (by simpa using h)

/-- What is bound deeper down leaves the entries above it alone. -/
theorem upTo_bind {depth : Nat} (h : d < depth) (value : Slot) (stack : ShadowStack) :
    (stack.bind depth value).upTo d = stack.upTo d := by
  fun_cases ShadowStack.bind depth value stack with
  | case1 => rw [upTo_cons_of_lt h]
  | case2 old rest => rw [upTo_cons_of_lt h, upTo_cons_of_lt h]
  | case3 depth' old rest => rw [upTo_cons_of_lt h]

/-- Assignment reaches no further than the innermost scope that binds the name. -/
theorem upTo_overwrite {limit : Nat} (hShadowing : stack.IsShadowing limit)
    (h : ∃ entry ∈ stack, d < entry.1) (value : Slot) :
    (stack.overwrite value).upTo d = stack.upTo d := by
  cases stack with
  | nil => rfl
  | cons top rest =>
      have hTop : d < top.1 := by
        obtain ⟨entry, hMem, hDeep⟩ := h
        rcases List.mem_cons.mp hMem with rfl | hRest
        · exact hDeep
        · exact hDeep.trans ((isShadowing_cons.mp hShadowing).2.1 entry hRest)
      have hOver : d < (top.1, value).1 := hTop
      rw [upTo_cons_of_lt hTop, ShadowStack.overwrite, upTo_cons_of_lt hOver]

theorem upTo_filter {depth : Nat} (h : d < depth) (stack : ShadowStack) :
    upTo d (stack.filter (·.1 ≠ depth)) = stack.upTo d := by
  rw [upTo, upTo, List.filter_filter]
  refine List.filter_congr fun entry _ => ?_
  by_cases hLe : entry.1 ≤ d
  · have hNe : entry.1 ≠ depth := by omega
    simp [hLe, hNe]
  · simp [hLe]

/-- Leaving the scope that is one deeper leaves the entries up to a scope. -/
theorem IsShadowing.filter_eq_upTo (h : stack.IsShadowing (d + 1)) :
    stack.filter (·.1 ≠ d + 1) = stack.upTo d := by
  refine List.filter_congr fun entry hEntry => ?_
  have hLe := h.bounded entry hEntry
  have hIff : entry.1 ≠ d + 1 ↔ entry.1 ≤ d := by omega
  exact decide_eq_decide.mpr hIff

theorem IsShadowing.upTo_eq (h : stack.IsShadowing d) : stack.upTo d = stack :=
  List.filter_eq_self.mpr fun entry hEntry => decide_eq_true (h.bounded entry hEntry)

end ShadowStack

namespace Shadows

open ScopeOp (after)

variable {d : Nat} {name : Text}

/-- An operation that is made deeper than a scope touches no entry up to that scope, unless it assigns to
a name that is not bound any deeper. -/
theorem upTo_perform {s : Shadows} {op : ScopeOp} (hDepth : d < s.depth)
    (hAssign : op.assigns name = true → ∃ entry ∈ s.stack name, d < entry.1) :
    ((perform op s).2.stack name).upTo d = (s.stack name).upTo d := by
  cases op with
  | define other value =>
      rw [perform, stack_define]
      split
      next hEq =>
        subst hEq
        exact ShadowStack.upTo_bind hDepth value _
      next => rfl
  | child => rfl
  | enclosing =>
      rw [perform, if_neg (Nat.ne_of_gt (Nat.zero_lt_of_lt hDepth)), stack_leave]
      exact ShadowStack.upTo_filter hDepth _
  | lookup other => rfl
  | get other =>
      rw [perform]
      split <;> rfl
  | assign other value =>
      rw [perform]
      split
      · rfl
      · rw [stack_assign]
        split
        next hEq =>
          subst hEq
          exact ShadowStack.upTo_overwrite (s.shadowing _) (hAssign (decide_eq_true rfl)) value
        next => rfl

/-- Operations in deeper scopes leave the entries of the outer ones alone. -/
theorem upTo_after {s : Shadows} {ops : List ScopeOp}
    (hDepth : ∀ pre, pre <+: ops → d < (after perform pre s).depth)
    (hAssign : ∀ pre op, pre ++ [op] <+: ops → op.assigns name = true →
      ∃ entry ∈ (after perform pre s).stack name, d < entry.1) :
    ((after perform ops s).stack name).upTo d = (s.stack name).upTo d := by
  induction ops generalizing s with
  | nil => rfl
  | cons op ops ih =>
      have hFirst : ((perform op s).2.stack name).upTo d = (s.stack name).upTo d :=
        upTo_perform (hDepth [] List.nil_prefix) (hAssign [] op (List.prefix_append [op] ops))
      have hRest := @ih (perform op s).2
        (fun pre hPre => hDepth (op :: pre) (List.cons_prefix_cons.mpr ⟨rfl, hPre⟩))
        (fun pre op' hPre => hAssign (op :: pre) op' (List.cons_prefix_cons.mpr ⟨rfl, hPre⟩))
      exact hRest.trans hFirst

end Shadows

namespace Chain

open ScopeOp (after observe)

/-- Some scope deeper than `d` binds the name. -/
def BindsBelow (c : Chain) (d : Nat) (name : Text) : Prop :=
  ∃ s ∈ c.scopes.take (c.depth - d), (s.find? name).isSome = true

instance (c : Chain) (d : Nat) (name : Text) : Decidable (c.BindsBelow d name) :=
  inferInstanceAs (Decidable (∃ s ∈ _, _))

theorem BindsBelow.exists_entry {c : Chain} {d : Nat} {name : Text} (h : c.BindsBelow d name) :
    ∃ entry ∈ c.shadows.stack name, d < entry.1 := by
  have hScopes (ss : List Scope) (hBinds : ∃ s ∈ ss.take (ss.length - 1 - d),
      (s.find? name).isSome = true) : ∃ entry ∈ Scope.entries name ss, d < entry.1 := by
    induction ss with
    | nil => simp at hBinds
    | cons s outer ih =>
        obtain ⟨s', hMem, hSome⟩ := hBinds
        obtain ⟨n, hn⟩ : ∃ n, outer.length - d = n + 1 := by
          refine Nat.exists_eq_add_one_of_ne_zero fun hZero => ?_
          simp [hZero] at hMem
        rw [List.length_cons, Nat.add_sub_cancel, hn, List.take_succ_cons, List.mem_cons] at hMem
        rcases hMem with rfl | hOuter
        · obtain ⟨value, hValue⟩ := Option.isSome_iff_exists.mp hSome
          refine ⟨(outer.length, value), ?_, by omega⟩
          rw [Scope.entries_of_some hValue]
          exact List.mem_cons_self
        · have hLess : outer.length - 1 - d = n := by omega
          obtain ⟨entry, hEntry, hDeep⟩ := ih ⟨s', hLess ▸ hOuter, hSome⟩
          refine ⟨entry, ?_, hDeep⟩
          rw [Scope.entries]
          split
          · exact List.mem_cons_of_mem _ hEntry
          · exact hEntry
  exact hScopes c.scopes h

/-- What is seen of operations on a chain of scopes, from the global scope on, is what is seen of them on
a stack for each name. And a scope that is entered and left again has hidden whatever happened inside:
a name has the value that it had before, unless it was assigned to while no scope inside bound it. -/
theorem observe_eq_shadows :
    (∀ ops, observe perform depth ops Chain.empty =
      observe Shadows.perform Shadows.depth ops Shadows.empty) ∧
    ∀ (c : Chain) (inside : List ScopeOp) (name : Text),
      (∀ pre, pre <+: inside → c.depth < (after perform pre c.push).depth) →
      (after perform inside c.push).depth = c.depth + 1 →
      (∀ pre op, pre ++ [op] <+: inside → op.assigns name = true →
        (after perform pre c.push).BindsBelow c.depth name) →
      (after perform inside c.push).pop.find? name = c.find? name := by
  constructor
  · intro ops
    rw [← shadows_empty]
    exact (ScopeOp.observe_of_simulation perform_shadows depth_shadows ops Chain.empty).symm
  · intro c inside name hInside hDepth hAssign
    have hAfter (ops : List ScopeOp) :
        after Shadows.perform ops c.push.shadows = (after perform ops c.push).shadows :=
      ScopeOp.after_of_simulation perform_shadows ops c.push
    have hKept := @Shadows.upTo_after c.depth name c.push.shadows inside
      (fun pre hPre => hAfter pre ▸ hInside pre hPre)
      (fun pre op hPre hOp => hAfter pre ▸ (hAssign pre op hPre hOp).exists_entry)
    rw [hAfter, shadows_push] at hKept
    generalize after perform inside c.push = last at hDepth hKept
    have hShadowing : (last.shadows.stack name).IsShadowing (c.depth + 1) :=
      hDepth ▸ last.shadows.shadowing name
    have hLeft : last.shadows.leave.stack name = (last.shadows.stack name).upTo c.depth := by
      rw [Shadows.stack_leave, depth_shadows, hDepth, hShadowing.filter_eq_upTo]
    rw [find?_eq_top?, find?_eq_top?, shadows_pop (by omega), hLeft, hKept]
    exact congrArg ShadowStack.top? (c.shadows.shadowing name).upTo_eq

/-- Inside, `x` is bound anew and assigned to from a further scope, and `y` is assigned to without being
bound there. -/
theorem observe_eq_shadows_hidden :
    let x := Token.read .identifier "x" 1
    let y := Token.read .identifier "y" 1
    let c : Chain := ⟨[(x.lexeme, some (.bool true)), (y.lexeme, none)], []⟩
    let inside : List ScopeOp := [.define x.lexeme none, .child, .assign x (some .nil), .enclosing,
      .assign y (some .nil)]
    (∀ pre, pre <+: inside → c.depth < (after perform pre c.push).depth) ∧
      (after perform inside c.push).depth = c.depth + 1 ∧
      (∀ pre op, pre ++ [op] <+: inside → op.assigns x.lexeme = true →
        (after perform pre c.push).BindsBelow c.depth x.lexeme) ∧
      (after perform inside c.push).pop.find? x.lexeme = c.find? x.lexeme := by
  intro x y c inside
  have hDepths : ∀ pre ∈ inside.inits, c.depth < (after perform pre c.push).depth := by decide
  have hBound : ∀ ops ∈ inside.inits, ∀ op ∈ ops.getLast?, op.assigns x.lexeme = true →
      (after perform ops.dropLast c.push).BindsBelow c.depth x.lexeme := by decide
  have hInside : ∀ pre, pre <+: inside → c.depth < (after perform pre c.push).depth :=
    fun pre hPre => hDepths pre ((List.mem_inits pre inside).mpr hPre)
  have hAssign : ∀ pre op, pre ++ [op] <+: inside → op.assigns x.lexeme = true →
      (after perform pre c.push).BindsBelow c.depth x.lexeme := by
    intro pre op hPre
    have hAt := hBound (pre ++ [op]) ((List.mem_inits _ inside).mpr hPre) op List.getLast?_concat
    rwa [List.dropLast_concat] at hAt
  exact ⟨hInside, rfl, hAssign, observe_eq_shadows.2 c inside x.lexeme hInside rfl hAssign⟩

end Chain
end Lox
