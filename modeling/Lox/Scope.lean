import Lox.Value.Basic

/-! Scopes: which names are bound, and to what. -/
namespace Lox

/-- The names bound in one scope, each once, with what they are bound to. -/
abbrev Scope := List (Text × Slot)

namespace Scope

def find? (s : Scope) (name : Text) : Option Slot := s.lookup name

/-- Binds a name here, in place of an earlier binding here. -/
def define (name : Text) (value : Slot) : Scope → Scope
  | [] => [(name, value)]
  | (other, old) :: rest =>
    if other = name then (name, value) :: rest else (other, old) :: define name value rest

def names (s : Scope) : List Text := s.map Prod.fst

/-- The bindings in the byte order of their names. -/
def sorted (s : Scope) : List (Text × Slot) := s.mergeSort fun a b => a.1.le b.1

end Scope

/-- A scope inside the scopes that enclose it, the nearest first. -/
structure Chain where
  current : Scope
  outer : List Scope
  deriving DecidableEq, Repr

namespace Chain

def empty : Chain := ⟨[], []⟩

def depth (c : Chain) : Nat := c.outer.length

def scopes (c : Chain) : List Scope := c.current :: c.outer

def push (c : Chain) : Chain := ⟨[], c.scopes⟩

/-- The enclosing scope, unless the current one is global. -/
def pop? (c : Chain) : Option Chain :=
  match c.outer with
  | [] => none
  | s :: rest => some ⟨s, rest⟩

/-- The enclosing scope; the global scope stays where it is. -/
def pop (c : Chain) : Chain := c.pop?.getD c

def define (c : Chain) (name : Text) (value : Slot) : Chain :=
  { c with current := c.current.define name value }

/-- The nearest binding of a name. -/
def find? (c : Chain) (name : Text) : Option Slot := c.scopes.findSome? (Scope.find? · name)

/-- Overwrites the binding of a name in the first scope that has one. -/
def assignIn (name : Text) (value : Slot) : List Scope → Option (List Scope)
  | [] => none
  | s :: rest =>
    if (s.find? name).isSome then some (s.define name value :: rest)
    else (assignIn name value rest).map (s :: ·)

/-- Overwrites the nearest binding of a name. It never makes a new one. -/
def assign? (c : Chain) (name : Text) (value : Slot) : Option Chain :=
  match assignIn name value c.scopes with
  | some (s :: rest) => some ⟨s, rest⟩
  | _ => none

end Chain
end Lox
