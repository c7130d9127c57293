import TypeInference.Diagnostics.Fault
import TypeInference.Scopes.Scope

/-!
# Nested scopes

All scopes of a module in order of creation, and the stack of those that are
open. The scope around another one in the source is its parent, which need not
be the one below it on the stack: the body of a function is entered wherever it
is needed. A node has at most one scope; to open it again is to return to it.

Declarations follow the redirections of the current scope. Look-ups go from the
current scope outward along the parents. The variables of a class are hidden
from the scopes inside of it, the cell of the class excepted. A name found in a
function around is recorded in the current scope.
-/

namespace TypeInference

/-- The name under which the body of a class and its methods find the class. -/
def classCell : String := "__class__"

/-- The scopes that a look-up may consult. -/
structure Reach where
  /-- The innermost open scope. -/
  current : Bool := false
  /-- The functions around, and the cell of a class. -/
  enclosing : Bool := false
  /-- The module. -/
  module : Bool := false
  /-- The registered names. -/
  builtins : Bool := false
deriving DecidableEq, Inhabited

namespace Reach

/-- Everything may be consulted. -/
def everything : Reach := ⟨true, true, true, true⟩

/-- What either may consult. -/
def union (first second : Reach) : Reach :=
  ⟨first.current || second.current, first.enclosing || second.enclosing,
    first.module || second.module, first.builtins || second.builtins⟩

end Reach

/-- All scopes, and the open ones with the innermost first. -/
structure Scopes where
  all : Array Scope := #[]
  stack : List ScopeId := []
deriving Inhabited

namespace Scopes

/-- No scope was opened yet. -/
def empty : Scopes := {}

/-- A scope by its place. -/
def scopeAt (scopes : Scopes) (id : ScopeId) : Scope :=
  scopes.all[id.index]?.getD default

/-- Changes one scope. -/
def modifyScope (scopes : Scopes) (id : ScopeId) (change : Scope → Scope) : Scopes :=
  { scopes with all := scopes.all.modify id.index change }

/-- The scope of a node. -/
def scopeOf? (scopes : Scopes) (node : NodeId) : Option ScopeId :=
  (scopes.all.findIdx? fun scope => scope.node = node).map ScopeId.mk

/-- The scope of the module: the first that was created as one. -/
def moduleScope? (scopes : Scopes) : Option ScopeId :=
  (scopes.all.findIdx? fun scope => scope.kind = .module).map ScopeId.mk

/-- The innermost open scope. -/
def current? (scopes : Scopes) : Option ScopeId :=
  scopes.stack.head?

/-- How many scopes are open. -/
def depth (scopes : Scopes) : Nat :=
  scopes.stack.length

/-- Opens the scope of a node. A scope that is created gets the given parent, or
else the current scope, as the scope around it. -/
def push (scopes : Scopes) (node : NodeId) (kind : ScopeKind) (parent : Option ScopeId) :
    ScopeId × Scopes :=
  match scopes.scopeOf? node with
  | some id => (id, { scopes with stack := id :: scopes.stack })
  | none =>
    let id : ScopeId := ⟨scopes.all.size⟩
    (id, { all := scopes.all.push { kind, node, parent := parent.or scopes.current? },
           stack := id :: scopes.stack })

/-- Closes scopes until no more than some number of them is open. -/
def truncate (scopes : Scopes) (depth : Nat) : Scopes :=
  { scopes with stack := scopes.stack.drop (scopes.stack.length - depth) }

/-- Forgets every variable of a scope. -/
def clearVariables (scopes : Scopes) (id : ScopeId) : Scopes :=
  scopes.modifyScope id fun scope => { scope with entries := [] }

/-- The scopes from a given one outward, at most some number of them. -/
def outwardWithin (scopes : Scopes) : Nat → Option ScopeId → List ScopeId
  | 0, _ => []
  | _, none => []
  | bound + 1, some id => id :: scopes.outwardWithin bound (scopes.scopeAt id).parent

/-- The scopes around a scope, the nearest first. No path outward that visits
different scopes is longer than there are scopes, also when parents lead back to
a scope, which is then around itself. -/
def around (scopes : Scopes) (id : ScopeId) : List ScopeId :=
  scopes.outwardWithin scopes.all.size (scopes.scopeAt id).parent

/-- The function that a redirected name belongs to: the nearest around that has
the name, or else the nearest around. -/
def enclosingFunction? (scopes : Scopes) (id : ScopeId) (name : String) : Option ScopeId :=
  let functions := (scopes.around id).filter fun outer => (scopes.scopeAt outer).kind = .functionBody
  (functions.find? fun outer => ((scopes.scopeAt outer).find? name).isSome).or functions.head?

/-- The scope that a name of a scope is declared in, and the kind it gets. -/
def redirect (scopes : Scopes) (id : ScopeId) (name : String) (kind : VariableKind) :
    ScopeId × VariableKind :=
  let scope := scopes.scopeAt id
  if scope.globals.contains name then (scopes.moduleScope?.getD id, .global)
  else if scope.nonlocals.contains name then
    ((scopes.enclosingFunction? id name).getD id, .nonlocal)
  else (id, kind)

/-- The innermost open scope, or the fault that there is none. -/
def current (scopes : Scopes) : Except Fault ScopeId :=
  match scopes.current? with
  | some id => .ok id
  | none => .error .scopeUnderflow

/-- Declares or refines a variable from within the current scope. -/
def declare (scopes : Scopes) (name : String) (value : Value) (kind : VariableKind)
    (node : Option NodeId) (span : Span) : Except Fault Scopes := do
  let id ← scopes.current
  let (target, kind) := scopes.redirect id name kind
  return scopes.modifyScope target fun scope => scope.insert { name, value, kind, node, span }

/-- Redirects a name of the current scope to the module. -/
def declareGlobal (scopes : Scopes) (name : String) : Except Fault Scopes := do
  let id ← scopes.current
  return scopes.modifyScope id fun scope => scope.redirectGlobal name

/-- Redirects a name of the current scope to a function around. -/
def declareNonlocal (scopes : Scopes) (name : String) : Except Fault Scopes := do
  let id ← scopes.current
  return scopes.modifyScope id fun scope => scope.redirectNonlocal name

/-- Whether a name in a scope can be seen from a scope inside of it. -/
def visibleInside (reach : Reach) (name : String) : ScopeKind → Bool
  | .module => reach.module
  | .classBody => name = classCell && reach.enclosing
  | .functionBody => reach.enclosing
  | .comprehension => reach.enclosing

/-- A variable of a scope together with the scope. -/
def variableIn? (scopes : Scopes) (name : String) (id : ScopeId) : Option (ScopeId × Variable) :=
  ((scopes.scopeAt id).find? name).map fun found => (id, found)

/-- The first variable of a name that is visible in the scopes around one. -/
def findAround? (scopes : Scopes) (id : ScopeId) (name : String) (reach : Reach) :
    Option (ScopeId × Variable) :=
  (scopes.around id).findSome? fun outer =>
    if visibleInside reach name (scopes.scopeAt outer).kind then scopes.variableIn? name outer
    else none

/-- What a name means without a look at the scopes around: a name redirected to
the module is looked up there; any other in the scope itself, unless it is
redirected to a function around. -/
def findHere? (scopes : Scopes) (id : ScopeId) (name : String) (reach : Reach) :
    Option (ScopeId × Variable) :=
  let scope := scopes.scopeAt id
  if scope.globals.contains name then
    if reach.module then scopes.moduleScope?.bind (scopes.variableIn? name) else none
  else
    let here := reach.current || (scope.kind = .module && reach.module)
    if here && !scope.nonlocals.contains name then scopes.variableIn? name id else none

/-- The scopes after a name was found around a scope: a name of a function is
recorded as free. -/
def recordFree (scopes : Scopes) (id : ScopeId) (name : String) (found : ScopeId) : Scopes :=
  if (scopes.scopeAt found).kind = .functionBody then
    scopes.modifyScope id fun scope => scope.markFree name
  else scopes

/-- What a name means in the current scope: what it means there, or else in the
scopes around, where a name redirected to the module is not looked up. -/
def lookup (scopes : Scopes) (name : String) (reach : Reach) :
    Option (ScopeId × Variable) × Scopes :=
  match scopes.current? with
  | none => (none, scopes)
  | some id =>
    match scopes.findHere? id name reach with
    | some found => (some found, scopes)
    | none =>
      if (scopes.scopeAt id).globals.contains name then (none, scopes)
      else
        match scopes.findAround? id name reach with
        | some found => (some found, scopes.recordFree id name found.1)
        | none => (none, scopes)

/-- Opening a scope puts it on the stack. -/
@[simp] theorem stack_push (scopes : Scopes) (node : NodeId) (kind : ScopeKind)
    (parent : Option ScopeId) :
    (scopes.push node kind parent).2.stack = (scopes.push node kind parent).1 :: scopes.stack := by
  unfold push
  split <;> rfl

/-- Changing a scope leaves the stack alone. -/
@[simp] theorem stack_modifyScope (scopes : Scopes) (id : ScopeId) (change : Scope → Scope) :
    (scopes.modifyScope id change).stack = scopes.stack := rfl

/-- A look-up changes nothing, or records the name as free in the current scope. -/
theorem snd_lookup_cases (scopes : Scopes) (name : String) (reach : Reach) :
    (scopes.lookup name reach).2 = scopes ∨
      ∃ id, (scopes.lookup name reach).2 = scopes.modifyScope id fun scope =>
        scope.markFree name := by
  unfold lookup
  split
  · exact .inl rfl
  · next id _ =>
    split
    · exact .inl rfl
    · split
      · exact .inl rfl
      · split
        · unfold recordFree
          split
          · exact .inr ⟨id, rfl⟩
          · exact .inl rfl
        · exact .inl rfl

/-- A look-up leaves the stack alone. -/
@[simp] theorem stack_lookup (scopes : Scopes) (name : String) (reach : Reach) :
    (scopes.lookup name reach).2.stack = scopes.stack := by
  rcases scopes.snd_lookup_cases name reach with same | ⟨id, marked⟩
  · rw [same]
  · rw [marked, stack_modifyScope]

/-- Closing what was opened last gives the stack from before. -/
theorem truncate_of_suffix (scopes : Scopes) (opened stack : List ScopeId)
    (split : scopes.stack = opened ++ stack) : (scopes.truncate stack.length).stack = stack := by
  simp [truncate, split]

end Scopes

end TypeInference
