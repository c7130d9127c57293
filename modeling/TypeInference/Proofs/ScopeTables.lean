import TypeInference.OrderedTable
import TypeInference.Proofs.ScopeOperations

/-!
# Scopes with tables

Scopes are found by their node, variables by their name, and the scope of the module again and
again. Tables beside the scopes give these answers without a search: the scope of each node, the
scope of the module, the place of each variable in its scope, and whether a scope is a closure.
They are kept up to date by everything that is done with scopes, and never computed anew.

The tables stay aligned with the scopes, so that whatever is done is answered as it is by
searching.
-/

namespace TypeInference

namespace Scope
variable {declared : Variable} {entries : List Variable}

/-- A variable of a new name is declared last. -/
theorem declareIn_of_new (new : declared.name ∉ entries.map (·.name)) :
    declareIn declared entries = entries ++ [declared] := by
  induction entries with
  | nil => rfl
  | cons first rest inductionHypothesis =>
    rw [List.map_cons, List.mem_cons, not_or] at new
    rw [declareIn, if_neg (Ne.symm new.1), inductionHypothesis new.2]
    rfl

/-- A variable of a known name is refined at its place. -/
theorem declareIn_of_place (distinct : (entries.map (·.name)).Nodup) {position : Nat}
    (place : (entries[position]?).map (·.name) = some declared.name) :
    declareIn declared entries = entries.modify position fun known => known.refine declared := by
  induction entries generalizing position with
  | nil => cases place
  | cons first rest inductionHypothesis =>
    rw [List.map_cons, List.nodup_cons] at distinct
    cases position with
    | zero => rw [declareIn, if_pos (Option.some.inj place), List.modify_zero_cons]
    | succ position =>
      have beyond : (rest[position]?).map (·.name) = some declared.name := place
      have apart : first.name ≠ declared.name := by
        intro same
        obtain ⟨known, there, named⟩ := Option.map_eq_some_iff.mp beyond
        exact distinct.1 (List.mem_map.mpr
          ⟨known, List.mem_of_getElem? there, named.trans same.symm⟩)
      rw [declareIn, if_neg apart, inductionHypothesis distinct.2 beyond, List.modify_succ_cons]

/-- What is at some place among variables of different names is found by its name. -/
theorem find?_of_place {known : Variable} (distinct : (entries.map (·.name)).Nodup)
    {position : Nat} (place : entries[position]? = some known) :
    (entries.find? fun other => other.name = known.name) = some known := by
  induction entries generalizing position with
  | nil => cases place
  | cons first rest inductionHypothesis =>
    rw [List.map_cons, List.nodup_cons] at distinct
    cases position with
    | zero =>
      cases Option.some.inj place
      exact List.find?_cons_of_pos (by simp)
    | succ position =>
      have beyond : rest[position]? = some known := place
      have apart : first.name ≠ known.name := fun same =>
        distinct.1 (same ▸ List.mem_map_of_mem (List.mem_of_getElem? beyond))
      rw [List.find?_cons_of_neg (by simpa using apart)]
      exact inductionHypothesis distinct.2 beyond

end Scope
/-- A scope with the places of its variables, and a mark once a name was recorded as free. -/
structure TabledScope where
  kind : ScopeKind
  node : NodeId
  parent : Option ScopeId
  entries : List Variable := []
  index : OrderedTable String Nat := .empty
  globals : List String := []
  nonlocals : List String := []
  freeVariables : List String := []
  closure : Bool := false
deriving Inhabited

namespace TabledScope

/-- The scope without its tables. -/
def plain (scope : TabledScope) : Scope where
  kind := scope.kind
  node := scope.node
  parent := scope.parent
  entries := scope.entries
  globals := scope.globals
  nonlocals := scope.nonlocals
  freeVariables := scope.freeVariables

/-- The variable of a name, at its place. -/
def find? (scope : TabledScope) (name : String) : Option Variable :=
  (scope.index.find? name).bind fun position => scope.entries[position]?

/-- Refines the variable at the place of the name, or gives a new variable the last place. -/
def insert (scope : TabledScope) (declared : Variable) : TabledScope :=
  match scope.index.find? declared.name with
  | some position =>
    { scope with entries := scope.entries.modify position fun known => known.refine declared }
  | none =>
    { scope with
      entries := scope.entries ++ [declared]
      index := scope.index.put declared.name scope.entries.length }

/-- Names with one more, unless it is listed. -/
def listing (names : List String) (name : String) : List String :=
  if names.contains name then names else names ++ [name]

/-- A scope after an edit. -/
def apply : ScopeEdit → TabledScope → TabledScope
  | .insert declared, scope => scope.insert declared
  | .redirectGlobal name, scope => { scope with globals := listing scope.globals name }
  | .redirectNonlocal name, scope => { scope with nonlocals := listing scope.nonlocals name }
  | .markFree name, scope =>
    { scope with freeVariables := listing scope.freeVariables name, closure := true }
  | .clear, scope => { scope with entries := [], index := .empty }

/-- Variables and free names are distinct, every name is at its place, and the mark of closures
tells whether there are free names. -/
structure Aligned (scope : TabledScope) : Prop where
  names : (scope.entries.map (·.name)).Nodup
  index : ∀ name position, scope.index.find? name = some position ↔
    (scope.entries[position]?).map (·.name) = some name
  free : scope.freeVariables.Nodup
  closure : scope.closure = true ↔ scope.freeVariables ≠ []

variable {scope : TabledScope}

theorem aligned_new (kind : ScopeKind) (node : NodeId) (parent : Option ScopeId) :
    Aligned { kind, node, parent } where
  names := List.nodup_nil
  index _ _ := ⟨nofun, nofun⟩
  free := List.nodup_nil
  closure := ⟨nofun, fun some => absurd rfl some⟩

namespace Aligned

theorem distinct (aligned : scope.Aligned) : scope.plain.Distinct :=
  ⟨aligned.names, aligned.free⟩

/-- A name without a place is that of no variable. -/
theorem absent (aligned : scope.Aligned) {name : String}
    (missing : scope.index.find? name = none) : name ∉ scope.entries.map (·.name) := by
  intro listed
  obtain ⟨position, place⟩ := List.mem_iff_getElem?.mp listed
  rw [List.getElem?_map] at place
  rw [(aligned.index name position).mpr place] at missing
  cases missing

/-- The tables answer as a search does. -/
theorem find?_eq (aligned : scope.Aligned) (name : String) :
    scope.find? name = scope.plain.find? name := by
  unfold find?
  cases place : scope.index.find? name with
  | none =>
    refine (List.find?_eq_none.mpr fun known listed same => ?_).symm
    exact aligned.absent place (List.mem_map.mpr ⟨known, listed, of_decide_eq_true same⟩)
  | some position =>
    obtain ⟨known, there, rfl⟩ :=
      Option.map_eq_some_iff.mp ((aligned.index name position).mp place)
    exact there.trans (Scope.find?_of_place aligned.names there).symm

/-- A declaration that consults the index is one that searches. -/
theorem plain_insert (aligned : scope.Aligned) (declared : Variable) :
    (scope.insert declared).plain = scope.plain.insert declared := by
  unfold insert
  cases place : scope.index.find? declared.name with
  | none =>
    have new : Scope.declareIn declared scope.entries = scope.entries ++ [declared] :=
      Scope.declareIn_of_new (aligned.absent place)
    exact congrArg (fun entries => { scope.plain with entries }) new.symm
  | some position =>
    have known := Scope.declareIn_of_place aligned.names ((aligned.index _ _).mp place)
    exact congrArg (fun entries => { scope.plain with entries }) known.symm

/-- With and without tables an edit does the same. -/
theorem plain_apply (aligned : scope.Aligned) (edit : ScopeEdit) :
    (scope.apply edit).plain = edit.apply scope.plain := by
  cases edit with
  | insert declared => exact aligned.plain_insert declared
  | clear => rfl
  | redirectGlobal name =>
    exact apply_ite (fun globals => { scope.plain with globals }) (scope.globals.contains name) ..
  | redirectNonlocal name =>
    exact apply_ite (fun nonlocals => { scope.plain with nonlocals })
      (scope.nonlocals.contains name) ..
  | markFree name =>
    exact apply_ite (fun freeVariables => { scope.plain with freeVariables })
      (scope.freeVariables.contains name) ..

/-- A declaration keeps the places. -/
theorem index_insert (aligned : scope.Aligned) (declared : Variable) (name : String)
    (position : Nat) : (scope.insert declared).index.find? name = some position ↔
      ((scope.insert declared).entries[position]?).map (·.name) = some name := by
  unfold insert
  cases place : scope.index.find? declared.name with
  | some known =>
    have sameNames : ((scope.entries.modify known fun old => old.refine declared)[position]?).map
        (·.name) = (scope.entries[position]?).map (·.name) := by
      rw [List.getElem?_modify]
      split <;> cases scope.entries[position]? <;> rfl
    exact (aligned.index name position).trans (by rw [sameNames])
  | none =>
    have missing := aligned.absent place
    dsimp only
    rw [OrderedTable.find?_put, List.getElem?_append]
    split
    · next same =>
      subst same
      split
      · next inside =>
        constructor
        · intro last
          cases last
          exact absurd inside (Nat.lt_irrefl _)
        · intro listed
          rw [← List.getElem?_map] at listed
          exact absurd (List.mem_of_getElem? listed) missing
      · next beyond =>
        constructor
        · intro last
          cases last
          simp
        · intro listed
          obtain ⟨known, there, -⟩ := Option.map_eq_some_iff.mp listed
          have inside := (List.getElem?_eq_some_iff.mp there).1
          rw [List.length_singleton] at inside
          exact congrArg some (by omega)
    · next other =>
      rw [aligned.index name position]
      split
      · exact Iff.rfl
      · next beyond =>
        rw [List.getElem?_eq_none (Nat.le_of_not_lt beyond)]
        refine ⟨nofun, fun listed => ?_⟩
        obtain ⟨known, there, rfl⟩ := Option.map_eq_some_iff.mp listed
        cases List.mem_singleton.mp (List.mem_of_getElem? there)
        exact absurd rfl other

/-- Every edit keeps the tables of a scope aligned. -/
theorem apply (aligned : scope.Aligned) (edit : ScopeEdit) : (scope.apply edit).Aligned := by
  have distinct : (scope.apply edit).plain.Distinct :=
    aligned.plain_apply edit ▸ aligned.distinct.apply edit
  refine ⟨distinct.names, ?_, distinct.free, ?_⟩
  · cases edit with
    | insert declared => exact aligned.index_insert declared
    | clear => exact fun _ _ => ⟨nofun, nofun⟩
    | redirectGlobal name | redirectNonlocal name | markFree name => exact aligned.index
  · cases edit with
    | insert declared =>
      simp only [TabledScope.apply, insert]
      split <;> exact aligned.closure
    | clear | redirectGlobal name | redirectNonlocal name => exact aligned.closure
    | markFree name =>
      refine ⟨fun _ => ?_, fun _ => rfl⟩
      change listing scope.freeVariables name ≠ []
      unfold listing
      split
      · next listed => exact List.ne_nil_of_mem (List.contains_iff_mem.mp listed)
      · simp

end Aligned

end TabledScope

/-- All scopes, the open ones with the innermost first, and the tables of nodes and of the
module. -/
structure TabledScopes where
  all : Array TabledScope := #[]
  stack : List ScopeId := []
  byNode : OrderedTable NodeId ScopeId := .empty
  module : Option ScopeId := none

namespace TabledScopes

/-- No scope was opened yet. -/
def empty : TabledScopes := {}

/-- The scopes without their tables. -/
def plain (tables : TabledScopes) : Scopes :=
  ⟨tables.all.map (·.plain), tables.stack⟩

/-- A scope by its place. -/
def scopeAt (tables : TabledScopes) (id : ScopeId) : TabledScope :=
  tables.all[id.index]?.getD default

/-- Edits one scope. -/
def edit (tables : TabledScopes) (id : ScopeId) (edit : ScopeEdit) : TabledScopes :=
  { tables with all := tables.all.modify id.index fun scope => scope.apply edit }

/-- Creates and opens a scope of a node, and enters it into the tables. -/
def create (tables : TabledScopes) (node : NodeId) (kind : ScopeKind) (parent : Option ScopeId) :
    TabledScopes where
  all := tables.all.push { kind, node, parent }
  stack := ⟨tables.all.size⟩ :: tables.stack
  byNode := tables.byNode.put node ⟨tables.all.size⟩
  module := if kind = .module then tables.module.or (some ⟨tables.all.size⟩) else tables.module

/-- Opens the scope of a node. -/
def push (tables : TabledScopes) (node : NodeId) (kind : ScopeKind) (parent : Option ScopeId) :
    ScopeId × TabledScopes :=
  match tables.byNode.find? node with
  | some id => (id, { tables with stack := id :: tables.stack })
  | none => (⟨tables.all.size⟩, tables.create node kind (parent.or tables.stack.head?))

/-- The function that a redirected name belongs to. -/
def enclosingFunction? (tables : TabledScopes) (id : ScopeId) (name : String) : Option ScopeId :=
  let functions := (tables.plain.around id).filter fun outer =>
    (tables.scopeAt outer).kind = .functionBody
  (functions.find? fun outer => ((tables.scopeAt outer).find? name).isSome).or functions.head?

/-- The scope that a name of a scope is declared in, and the kind it gets. -/
def redirect (tables : TabledScopes) (id : ScopeId) (name : String) (kind : VariableKind) :
    ScopeId × VariableKind :=
  let scope := tables.scopeAt id
  if scope.globals.contains name then (tables.module.getD id, .global)
  else if scope.nonlocals.contains name then
    ((tables.enclosingFunction? id name).getD id, .nonlocal)
  else (id, kind)

/-- A variable of a scope together with the scope. -/
def variableIn? (tables : TabledScopes) (name : String) (id : ScopeId) :
    Option (ScopeId × Variable) :=
  ((tables.scopeAt id).find? name).map fun found => (id, found)

/-- The first variable of a name that is visible in the scopes around one. -/
def findAround? (tables : TabledScopes) (id : ScopeId) (name : String) (reach : Reach) :
    Option (ScopeId × Variable) :=
  (tables.plain.around id).findSome? fun outer =>
    if Scopes.visibleInside reach name (tables.scopeAt outer).kind then
      tables.variableIn? name outer
    else none

/-- What a name means without a look at the scopes around. -/
def findHere? (tables : TabledScopes) (id : ScopeId) (name : String) (reach : Reach) :
    Option (ScopeId × Variable) :=
  let scope := tables.scopeAt id
  if scope.globals.contains name then
    if reach.module then tables.module.bind (tables.variableIn? name) else none
  else
    let here := reach.current || (scope.kind = .module && reach.module)
    if here && !scope.nonlocals.contains name then tables.variableIn? name id else none

/-- The scopes after a name was found around a scope. -/
def recordFree (tables : TabledScopes) (id : ScopeId) (name : String) (found : ScopeId) :
    TabledScopes :=
  if (tables.scopeAt found).kind = .functionBody then tables.edit id (.markFree name) else tables

/-- What a name means in the current scope. -/
def lookup (tables : TabledScopes) (name : String) (reach : Reach) :
    Option (ScopeId × Variable) × TabledScopes :=
  match tables.stack.head? with
  | none => (none, tables)
  | some id =>
    match tables.findHere? id name reach with
    | some found => (some found, tables)
    | none =>
      if (tables.scopeAt id).globals.contains name then (none, tables)
      else
        match tables.findAround? id name reach with
        | some found => (some found, tables.recordFree id name found.1)
        | none => (none, tables)

/-- Makes an edit that the current scope determines, if there is one. -/
def fromCurrent (tables : TabledScopes) (change : ScopeId → ScopeId × ScopeEdit) :
    ScopeAnswer × TabledScopes :=
  match tables.stack.head? with
  | none => (.failed .scopeUnderflow, tables)
  | some id => (.done, tables.edit (change id).1 (change id).2)

/-- Does something with scopes. -/
def perform (tables : TabledScopes) : ScopeOperation → ScopeAnswer × TabledScopes
  | .push node kind parent =>
    let (id, after) := tables.push node kind parent
    (.opened id, after)
  | .truncate depth =>
    (.done, { tables with stack := tables.stack.drop (tables.stack.length - depth) })
  | .declare name value kind node span => tables.fromCurrent fun id =>
    let (target, kind) := tables.redirect id name kind
    (target, .insert { name, value, kind, node, span })
  | .declareGlobal name => tables.fromCurrent fun id => (id, .redirectGlobal name)
  | .declareNonlocal name => tables.fromCurrent fun id => (id, .redirectNonlocal name)
  | .lookup name reach =>
    let (found, after) := tables.lookup name reach
    (.found found, after)
  | .clearVariables id => (.done, tables.edit id .clear)

/-- Everything in the tables and nothing else is so: open scopes exist, a node is mapped to the
one scope of it, the parent of a scope was created before it, the scope of the module is the first
that was created as one, and the tables of each scope are aligned. -/
structure Aligned (tables : TabledScopes) : Prop where
  opened : ∀ id ∈ tables.stack, id.index < tables.all.size
  byNode : ∀ node id, tables.byNode.find? node = some id ↔
    id.index < tables.all.size ∧ (tables.scopeAt id).node = node
  outward : ∀ id outer, (tables.scopeAt id).parent = some outer → outer.index < id.index
  module : ∀ id, tables.module = some id ↔
    (id.index < tables.all.size ∧ (tables.scopeAt id).kind = .module) ∧
      ∀ earlier : ScopeId, earlier.index < id.index → (tables.scopeAt earlier).kind ≠ .module
  contents : ∀ id, (tables.scopeAt id).Aligned

theorem aligned_empty : Aligned empty where
  opened _ listed := nomatch listed
  byNode _ _ := ⟨nofun, fun present => nomatch present.1⟩
  outward _ _ impossible := nomatch impossible
  module _ := ⟨nofun, fun present => nomatch present.1.1⟩
  contents _ := TabledScope.aligned_new ..

variable {tables : TabledScopes}

@[simp] theorem size_plain (tables : TabledScopes) : tables.plain.all.size = tables.all.size :=
  Array.size_map ..

/-- A scope without its tables. -/
theorem scopeAt_plain (tables : TabledScopes) (id : ScopeId) :
    tables.plain.scopeAt id = (tables.scopeAt id).plain := by
  unfold plain Scopes.scopeAt scopeAt
  rw [Array.getElem?_map]
  cases tables.all[id.index]? <;> rfl

/-- Every scope after one of them is edited. -/
theorem scopeAt_edit (tables : TabledScopes) (edited id : ScopeId) (edit : ScopeEdit) :
    (tables.edit edited edit).scopeAt id =
      if id = edited ∧ id.index < tables.all.size then (tables.scopeAt id).apply edit
      else tables.scopeAt id := by
  unfold TabledScopes.edit scopeAt
  rw [Array.getElem?_modify]
  by_cases same : id = edited
  · subst same
    by_cases inside : id.index < tables.all.size <;> simp [inside]
  · have apart : edited.index ≠ id.index := fun equal => same (Scopes.eq_of_index equal.symm)
    simp [same, apart]

@[simp] theorem size_edit (tables : TabledScopes) (id : ScopeId) (edit : ScopeEdit) :
    (tables.edit id edit).all.size = tables.all.size :=
  Array.size_modify ..

namespace Aligned

/-- Without their tables the scopes are well-formed. -/
theorem wellFormed (aligned : tables.Aligned) : tables.plain.WellFormed where
  opened id listed := (size_plain tables).symm ▸ aligned.opened id listed
  distinct id other present otherPresent same := by
    rw [scopeAt_plain, scopeAt_plain] at same
    rw [size_plain] at present otherPresent
    have first := (aligned.byNode _ id).mpr ⟨present, same⟩
    have second := (aligned.byNode _ other).mpr ⟨otherPresent, rfl⟩
    exact Option.some.inj (first.symm.trans second)
  outward id outer parent := aligned.outward id outer (by rwa [scopeAt_plain] at parent)
  contents id := by
    rw [scopeAt_plain]
    exact (aligned.contents id).distinct

theorem scopeOf?_eq (aligned : tables.Aligned) (node : NodeId) :
    tables.byNode.find? node = tables.plain.scopeOf? node := by
  refine Option.ext fun id => ?_
  rw [aligned.byNode, aligned.wellFormed.scopeOf?_eq_some, size_plain, scopeAt_plain]
  rfl

theorem moduleScope?_eq (aligned : tables.Aligned) :
    tables.module = tables.plain.moduleScope? := by
  refine Option.ext fun id => ?_
  rw [aligned.module, Scopes.moduleScope?_eq_some, size_plain, scopeAt_plain]
  simp only [scopeAt_plain]
  rfl

theorem variableIn?_eq (aligned : tables.Aligned) (name : String) (id : ScopeId) :
    tables.variableIn? name id = tables.plain.variableIn? name id := by
  unfold variableIn? Scopes.variableIn?
  rw [(aligned.contents id).find?_eq, scopeAt_plain]

theorem enclosingFunction?_eq (aligned : tables.Aligned) (id : ScopeId) (name : String) :
    tables.enclosingFunction? id name = tables.plain.enclosingFunction? id name := by
  unfold enclosingFunction? Scopes.enclosingFunction?
  simp only [(aligned.contents _).find?_eq, scopeAt_plain]
  rfl

theorem redirect_eq (aligned : tables.Aligned) (id : ScopeId) (name : String)
    (kind : VariableKind) : tables.redirect id name kind = tables.plain.redirect id name kind := by
  unfold redirect Scopes.redirect
  simp only [aligned.moduleScope?_eq, aligned.enclosingFunction?_eq, scopeAt_plain]
  rfl

theorem findHere?_eq (aligned : tables.Aligned) (id : ScopeId) (name : String) (reach : Reach) :
    tables.findHere? id name reach = tables.plain.findHere? id name reach := by
  unfold findHere? Scopes.findHere?
  have variableIn : tables.variableIn? name = tables.plain.variableIn? name :=
    funext (aligned.variableIn?_eq name)
  simp only [aligned.moduleScope?_eq, variableIn, scopeAt_plain]
  rfl

theorem findAround?_eq (aligned : tables.Aligned) (id : ScopeId) (name : String)
    (reach : Reach) : tables.findAround? id name reach = tables.plain.findAround? id name reach := by
  unfold findAround? Scopes.findAround?
  simp only [aligned.variableIn?_eq, scopeAt_plain]
  rfl

/-- An edit that keeps the tables of a scope up to date is the edit of the plain scope. -/
theorem plain_edit (aligned : tables.Aligned) (id : ScopeId) (edit : ScopeEdit) :
    (tables.edit id edit).plain = tables.plain.modifyScope id edit.apply := by
  refine Scopes.ext_scopeAt rfl (by simp [Scopes.size_modifyScope]) fun other => ?_
  rw [scopeAt_plain, scopeAt_edit, Scopes.scopeAt_modifyScope, scopeAt_plain, size_plain]
  split
  · exact (aligned.contents other).plain_apply edit
  · rfl

theorem edit (aligned : tables.Aligned) (id : ScopeId) (edit : ScopeEdit) :
    (tables.edit id edit).Aligned := by
  have shape (other : ScopeId) : ((tables.edit id edit).scopeAt other).plain.kind =
      (tables.scopeAt other).plain.kind ∧ ((tables.edit id edit).scopeAt other).plain.node =
      (tables.scopeAt other).plain.node ∧ ((tables.edit id edit).scopeAt other).plain.parent =
      (tables.scopeAt other).plain.parent := by
    rw [scopeAt_edit]
    split
    · rw [(aligned.contents other).plain_apply]
      exact edit.shape_apply _
    · exact ⟨rfl, rfl, rfl⟩
  have kind (other : ScopeId) : ((tables.edit id edit).scopeAt other).kind =
    (tables.scopeAt other).kind := (shape other).1
  have node (other : ScopeId) : ((tables.edit id edit).scopeAt other).node =
    (tables.scopeAt other).node := (shape other).2.1
  have parent (other : ScopeId) : ((tables.edit id edit).scopeAt other).parent =
    (tables.scopeAt other).parent := (shape other).2.2
  refine ⟨?_, ?_, ?_, ?_, ?_⟩
  · simp only [size_edit]
    exact aligned.opened
  · simp only [size_edit, node]
    exact aligned.byNode
  · simp only [parent]
    exact aligned.outward
  · simp only [size_edit, kind]
    exact aligned.module
  · intro other
    rw [scopeAt_edit]
    split
    · exact (aligned.contents other).apply edit
    · exact aligned.contents other

/-- Tables that answer as a search in well-formed scopes does are aligned. -/
theorem of_plain (wellFormed : tables.plain.WellFormed)
    (byNode : ∀ node, tables.byNode.find? node = tables.plain.scopeOf? node)
    (module : tables.module = tables.plain.moduleScope?)
    (contents : ∀ id, (tables.scopeAt id).Aligned) : tables.Aligned where
  opened id listed := size_plain tables ▸ wellFormed.opened id listed
  byNode node id := by
    rw [byNode, wellFormed.scopeOf?_eq_some, size_plain, scopeAt_plain]
    rfl
  outward id outer parent := wellFormed.outward id outer (by rwa [scopeAt_plain])
  module id := by
    rw [module, Scopes.moduleScope?_eq_some, size_plain]
    simp only [scopeAt_plain]
    rfl
  contents := contents

/-- A new scope is entered into the tables. -/
theorem create (aligned : tables.Aligned) {node : NodeId} {kind : ScopeKind}
    {parent : Option ScopeId} (new : tables.byNode.find? node = none)
    (wellFormed : (tables.create node kind parent).plain.WellFormed) :
    (tables.create node kind parent).Aligned := by
  let created : TabledScope := { kind, node, parent }
  have plain : (tables.create node kind parent).plain = tables.plain.create created.plain := by
    simp [TabledScopes.create, TabledScopes.plain, Scopes.create, created]
  refine .of_plain wellFormed (fun asked => ?_) ?_ fun id => ?_
  · change (tables.byNode.put node ⟨tables.all.size⟩).find? asked = _
    rw [plain, Scopes.scopeOf?_create, OrderedTable.find?_put, aligned.scopeOf?_eq, size_plain]
    change _ = (tables.plain.scopeOf? asked).or (if node = asked then _ else _)
    by_cases same : node = asked
    · subst same
      rw [if_pos rfl, if_pos rfl, ← aligned.scopeOf?_eq, new, Option.none_or]
    · rw [if_neg same, if_neg same, Option.or_none]
  · change (if kind = .module then tables.module.or (some ⟨tables.all.size⟩) else tables.module) = _
    rw [plain, Scopes.moduleScope?_create, aligned.moduleScope?_eq, size_plain]
    change _ = tables.plain.moduleScope?.or (if kind = .module then _ else _)
    split
    · rfl
    · rw [Option.or_none]
  · change ((tables.all.push created)[id.index]?.getD default).Aligned
    rw [Array.getElem?_push]
    split
    · exact TabledScope.aligned_new ..
    · exact aligned.contents id

/-- The scope of a node is opened as it is without tables, and the tables are kept. -/
theorem push (aligned : tables.Aligned) (node : NodeId) (kind : ScopeKind)
    (parent : Option ScopeId) : tables.plain.push node kind parent =
      ((tables.push node kind parent).1, (tables.push node kind parent).2.plain) ∧
      (tables.plain.Admits (.push node kind parent) →
        (tables.push node kind parent).2.Aligned) := by
  have same : tables.plain.push node kind parent =
      ((tables.push node kind parent).1, (tables.push node kind parent).2.plain) := by
    unfold TabledScopes.push Scopes.push
    rw [aligned.scopeOf?_eq]
    cases tables.plain.scopeOf? node with
    | some id => rfl
    | none => simp [TabledScopes.create, plain, TabledScope.plain, Scopes.current?]
  refine ⟨same, fun admitted => ?_⟩
  have wellFormed := aligned.wellFormed.push node kind admitted
  rw [same] at wellFormed
  revert wellFormed
  unfold TabledScopes.push
  cases known : tables.byNode.find? node with
  | some id =>
    exact fun wellFormed =>
      .of_plain wellFormed aligned.scopeOf?_eq aligned.moduleScope?_eq aligned.contents
  | none => exact fun wellFormed => aligned.create known wellFormed

/-- An edit that the current scope determines is made as it is without tables. -/
theorem fromCurrent (aligned : tables.Aligned) (change : ScopeId → ScopeId × ScopeEdit) :
    tables.plain.attempt (do
      let id ← tables.plain.current
      return tables.plain.modifyScope (change id).1 (change id).2.apply) =
      ((tables.fromCurrent change).1, (tables.fromCurrent change).2.plain) ∧
      (tables.fromCurrent change).2.Aligned := by
  have current : tables.plain.current? = tables.stack.head? := rfl
  unfold TabledScopes.fromCurrent Scopes.current
  rw [current]
  cases tables.stack.head? with
  | none => exact ⟨rfl, aligned⟩
  | some id => exact ⟨congrArg (Prod.mk _) (aligned.plain_edit _ _).symm, aligned.edit _ _⟩

/-- A name is looked up as it is without tables. -/
theorem lookup (aligned : tables.Aligned) (name : String) (reach : Reach) :
    tables.plain.lookup name reach =
      ((tables.lookup name reach).1, (tables.lookup name reach).2.plain) ∧
      (tables.lookup name reach).2.Aligned := by
  have free (id found : ScopeId) :
      tables.plain.recordFree id name found = (tables.recordFree id name found).plain ∧
        (tables.recordFree id name found).Aligned := by
    have kind : (tables.plain.scopeAt found).kind = (tables.scopeAt found).kind :=
      congrArg Scope.kind (scopeAt_plain tables found)
    unfold Scopes.recordFree TabledScopes.recordFree
    rw [kind]
    split
    · exact ⟨(aligned.plain_edit id (.markFree name)).symm, aligned.edit id (.markFree name)⟩
    · exact ⟨rfl, aligned⟩
  have current : tables.plain.current? = tables.stack.head? := rfl
  unfold Scopes.lookup TabledScopes.lookup
  rw [current]
  cases tables.stack.head? with
  | none => exact ⟨rfl, aligned⟩
  | some id =>
    have globals : (tables.plain.scopeAt id).globals = (tables.scopeAt id).globals :=
      congrArg Scope.globals (scopeAt_plain tables id)
    dsimp only
    rw [aligned.findHere?_eq, aligned.findAround?_eq, globals]
    cases tables.plain.findHere? id name reach with
    | some found => exact ⟨rfl, aligned⟩
    | none =>
      dsimp only
      split
      · exact ⟨rfl, aligned⟩
      · cases tables.plain.findAround? id name reach with
        | none => exact ⟨rfl, aligned⟩
        | some found => exact ⟨congrArg (Prod.mk _) (free id found.1).1, (free id found.1).2⟩

/-- Whatever is done is answered as it is without tables, and keeps the tables aligned. -/
theorem perform (aligned : tables.Aligned) {operation : ScopeOperation}
    (admitted : tables.plain.Admits operation) :
    tables.plain.perform operation =
      ((tables.perform operation).1, (tables.perform operation).2.plain) ∧
      (tables.perform operation).2.Aligned := by
  cases operation with
  | push node kind parent =>
    obtain ⟨same, kept⟩ := aligned.push node kind parent
    refine ⟨?_, kept admitted⟩
    simp only [Scopes.perform, TabledScopes.perform, same]
  | truncate depth =>
    refine ⟨rfl, ?_, aligned.byNode, aligned.outward, aligned.module, aligned.contents⟩
    exact fun id listed => aligned.opened id (List.mem_of_mem_drop listed)
  | declare name value kind node span =>
    have declared := aligned.fromCurrent fun id =>
      let (target, kind) := tables.redirect id name kind
      (target, .insert { name, value, kind, node, span })
    simp only [aligned.redirect_eq] at declared
    simp only [TabledScopes.perform, aligned.redirect_eq]
    exact declared
  | declareGlobal name =>
    exact aligned.fromCurrent fun id => (id, .redirectGlobal name)
  | declareNonlocal name =>
    exact aligned.fromCurrent fun id => (id, .redirectNonlocal name)
  | lookup name reach =>
    obtain ⟨same, kept⟩ := aligned.lookup name reach
    refine ⟨?_, kept⟩
    simp only [Scopes.perform, TabledScopes.perform, same]
  | clearVariables id =>
    exact ⟨congrArg (Prod.mk _) (aligned.plain_edit id .clear).symm, aligned.edit id .clear⟩

end Aligned

end TabledScopes

namespace Scopes

/-- Does one thing after the other, and lists what is answered. -/
def performAll (scopes : Scopes) : List ScopeOperation → List ScopeAnswer × Scopes
  | [] => ([], scopes)
  | operation :: rest =>
    let (answer, after) := scopes.perform operation
    let (answers, last) := after.performAll rest
    (answer :: answers, last)

/-- Whether scopes are opened inside of existing ones only, one thing after the other. -/
def AdmitsAll (scopes : Scopes) : List ScopeOperation → Prop
  | [] => True
  | operation :: rest => scopes.Admits operation ∧ (scopes.perform operation).2.AdmitsAll rest

instance decidableAdmitsAll (scopes : Scopes) :
    (operations : List ScopeOperation) → Decidable (scopes.AdmitsAll operations)
  | [] => isTrue trivial
  | operation :: rest =>
    have := decidableAdmitsAll (scopes.perform operation).2 rest
    inferInstanceAs (Decidable (_ ∧ _))

end Scopes

namespace TabledScopes

variable {tables : TabledScopes}

/-- Does one thing after the other, and lists what is answered. -/
def performAll (tables : TabledScopes) : List ScopeOperation → List ScopeAnswer × TabledScopes
  | [] => ([], tables)
  | operation :: rest =>
    let (answer, after) := tables.perform operation
    let (answers, last) := after.performAll rest
    (answer :: answers, last)

/-- A run of operations is answered as it is without tables, and keeps the tables aligned. -/
theorem Aligned.performAll (operations : List ScopeOperation) :
    ∀ {tables : TabledScopes}, tables.Aligned → tables.plain.AdmitsAll operations →
      tables.plain.performAll operations =
        ((tables.performAll operations).1, (tables.performAll operations).2.plain) ∧
        (tables.performAll operations).2.Aligned := by
  induction operations with
  | nil => exact fun aligned _ => ⟨rfl, aligned⟩
  | cons operation rest inductionHypothesis =>
    rintro tables aligned ⟨admitted, restAdmitted⟩
    obtain ⟨same, kept⟩ := aligned.perform admitted
    rw [same] at restAdmitted
    obtain ⟨sameRest, keptRest⟩ := inductionHypothesis kept restAdmitted
    refine ⟨?_, keptRest⟩
    simp only [Scopes.performAll, TabledScopes.performAll, same, sameRest]

/-- Whatever is done with scopes, in any order, they are well-formed, the tables beside them are
aligned and give the same answers, and nothing that is done next removes a scope or changes its
kind, its node or its parent. -/
theorem aligned_from_empty (operations : List ScopeOperation)
    (admitted : Scopes.empty.AdmitsAll operations) :
    let (answers, scopes) := Scopes.empty.performAll operations
    let (tableAnswers, tables) := empty.performAll operations
    answers = tableAnswers ∧ tables.plain = scopes ∧ scopes.WellFormed ∧ tables.Aligned ∧
      ∀ operation, scopes.Lasts (scopes.perform operation).2 := by
  have plain : empty.plain = Scopes.empty := by simp [empty, TabledScopes.plain, Scopes.empty]
  obtain ⟨same, aligned⟩ := aligned_empty.performAll operations (plain ▸ admitted)
  rw [plain] at same
  have answers := congrArg Prod.fst same
  have scopes := congrArg Prod.snd same
  exact ⟨answers, scopes.symm, scopes.symm ▸ aligned.wellFormed, aligned,
    Scopes.lasts_perform _⟩

/-- Names of a function inside of another one are redirected, declared and looked up, the scopes
are closed, reopened and emptied. -/
theorem aligned_from_empty_nested :
    let inner : List ScopeOperation := [.declareNonlocal "total", .declareGlobal "limit",
      .declare "total" .unknown .local none default, .declare "limit" .unknown .local none default,
      .lookup "total" Reach.everything, .truncate 1]
    let operations : List ScopeOperation := [.push ⟨0⟩ .module none,
      .push ⟨1⟩ .functionBody (some ⟨0⟩), .declare "total" .unknown .parameter none default,
      .push ⟨2⟩ .functionBody none] ++ inner ++
      [.push ⟨2⟩ .functionBody none, .lookup "total" Reach.everything, .clearVariables ⟨1⟩]
    let tables := (empty.performAll operations).2
    tables.Aligned ∧ tables.byNode.find? ⟨2⟩ = some ⟨2⟩ ∧ tables.module = some ⟨0⟩ ∧
      (tables.scopeAt ⟨2⟩).freeVariables = ["total"] ∧ (tables.scopeAt ⟨2⟩).closure = true ∧
      (tables.scopeAt ⟨0⟩).index.find? "limit" = some 0 ∧
      (tables.scopeAt ⟨1⟩).index.find? "total" = none := by
  refine ⟨(aligned_from_empty _ (by decide +kernel)).2.2.2.1, ?_⟩
  decide +kernel

end TabledScopes

end TypeInference
