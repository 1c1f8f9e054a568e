import Reckon.Value

set_option autoImplicit false

/-!
# Contexts

A context is a chain of scopes. Names are bound in the innermost scope and looked up from there
outwards. The result of the last statement is kept under the empty name, which every scope has from
the start.
-/

namespace Reckon

def lastResult : String := ""

structure Scope where
  name : String
  bindings : List (String × Value)
deriving DecidableEq

namespace Scope

def new (name : String) : Scope := ⟨name, [(lastResult, .null)]⟩

def get? (scope : Scope) (name : String) : Option Value :=
  scope.bindings.lookup name

def has (scope : Scope) (name : String) : Bool :=
  (scope.get? name).isSome

def bind (name : String) (value : Value) : List (String × Value) → List (String × Value)
  | [] => [(name, value)]
  -- A name keeps its place, so each stands once and in the order of first binding.
  | (key, old) :: rest => if name = key then (key, value) :: rest else (key, old) :: bind name value rest

theorem lookup_bind (name key : String) (value : Value) (bindings : List (String × Value)) :
    (bind name value bindings).lookup key = if key = name then some value else bindings.lookup key := by
  induction bindings with
  | nil => grind [bind]
  | cons first rest ih => grind [bind]

def set (scope : Scope) (name : String) (value : Value) : Scope :=
  { scope with bindings := bind name value scope.bindings }

@[simp]
theorem name_set (scope : Scope) (name : String) (value : Value) : (scope.set name value).name = scope.name := rfl

theorem get?_set (scope : Scope) (name key : String) (value : Value) :
    (scope.set name value).get? key = if key = name then some value else scope.get? key :=
  lookup_bind name key value scope.bindings

end Scope

structure Context where
  innermost : Scope
  outer : List Scope
deriving DecidableEq

namespace Context

def root (name : String) : Context := ⟨.new name, []⟩

def name (context : Context) : String := context.innermost.name

def get? (context : Context) (name : String) : Option Value :=
  (context.innermost :: context.outer).findSome? fun scope => scope.get? name

/-- Whether the innermost scope binds a name. -/
def has (context : Context) (name : String) : Bool :=
  context.innermost.has name

def set (context : Context) (name : String) (value : Value) : Context :=
  { context with innermost := context.innermost.set name value }

@[simp]
theorem outer_set (context : Context) (name : String) (value : Value) :
    (context.set name value).outer = context.outer := rfl

theorem get?_set (context : Context) (name key : String) (value : Value) :
    (context.set name value).get? key = if key = name then some value else context.get? key := by
  by_cases h : key = name <;> simp [get?, set, List.findSome?_cons, Scope.get?_set, h]

def last (context : Context) : Value :=
  (context.get? lastResult).getD .null

def child (context : Context) (name : String) : Context :=
  ⟨.new name, context.innermost :: context.outer⟩

def leave (context : Context) : Context :=
  match context.outer with
  -- The outermost scope cannot be left.
  | [] => context
  | scope :: outer => ⟨scope, outer⟩

@[simp]
theorem leave_child (context : Context) (name : String) : (context.child name).leave = context := rfl

def global : Context :=
  let pi : Float := 3.141592653589793
  ((((root "global").set "true" (.boolean true)).set "false" (.boolean false)).set "null" .null
    |>.set "pi" (.number pi)).set "tau" (.number (pi / 2))

end Context

end Reckon
