import Mathlib.Tactic.ByContra
import TypeInference.Proofs.Variables

/-!
# What can be done with scopes

Scopes are opened and closed, names are declared, redirected and looked up in the current one,
and the variables of a scope are discarded. Each of these opens or closes scopes, or makes one
edit of what a single scope contains, or changes nothing. No scope is ever removed, and none
changes its kind, its node or its parent.

In the scopes that arise so, the parent of a scope was created before it. So the way outward
from a scope ends, and it visits no scope twice.
-/

namespace TypeInference

/-- What can be done with scopes. -/
inductive ScopeOperation where
  | push (node : NodeId) (kind : ScopeKind) (parent : Option ScopeId)
  | truncate (depth : Nat)
  | declare (name : String) (value : Value) (kind : VariableKind) (node : Option NodeId)
      (span : Span)
  | declareGlobal (name : String)
  | declareNonlocal (name : String)
  | lookup (name : String) (reach : Reach)
  | clearVariables (id : ScopeId)

/-- What is answered when something was done with scopes. -/
inductive ScopeAnswer where
  | opened (id : ScopeId)
  | done
  | failed (fault : Fault)
  | found (looked : Option (ScopeId × Variable))

/-- How what a scope contains is edited. -/
inductive ScopeEdit where
  | insert (declared : Variable)
  | redirectGlobal (name : String)
  | redirectNonlocal (name : String)
  | markFree (name : String)
  | clear

namespace ScopeEdit

/-- A scope after an edit. -/
def apply : ScopeEdit → Scope → Scope
  | insert declared, scope => scope.insert declared
  | redirectGlobal name, scope => scope.redirectGlobal name
  | redirectNonlocal name, scope => scope.redirectNonlocal name
  | markFree name, scope => scope.markFree name
  | clear, scope => { scope with entries := [] }

/-- An edit changes neither kind nor node nor parent. -/
theorem shape_apply (edit : ScopeEdit) (scope : Scope) :
    (edit.apply scope).kind = scope.kind ∧ (edit.apply scope).node = scope.node ∧
      (edit.apply scope).parent = scope.parent := by
  cases edit with
  | insert | clear => exact ⟨rfl, rfl, rfl⟩
  | redirectGlobal name =>
    simp only [apply, Scope.redirectGlobal]
    split <;> exact ⟨rfl, rfl, rfl⟩
  | redirectNonlocal name =>
    simp only [apply, Scope.redirectNonlocal]
    split <;> exact ⟨rfl, rfl, rfl⟩
  | markFree name =>
    simp only [apply, Scope.markFree]
    split <;> exact ⟨rfl, rfl, rfl⟩

/-- The variables of a scope change by a declaration or when they are discarded. -/
theorem entries_apply (edit : ScopeEdit) (scope : Scope) :
    (edit.apply scope).entries = scope.entries ∨
      (∃ declared, edit = insert declared ∧ (edit.apply scope).entries =
        Scope.declareIn declared scope.entries) ∨
      edit = clear ∧ (edit.apply scope).entries = [] := by
  cases edit with
  | insert declared => exact .inr (.inl ⟨declared, rfl, rfl⟩)
  | clear => exact .inr (.inr ⟨rfl, rfl⟩)
  | redirectGlobal name =>
    left
    simp only [apply, Scope.redirectGlobal]
    split <;> rfl
  | redirectNonlocal name =>
    left
    simp only [apply, Scope.redirectNonlocal]
    split <;> rfl
  | markFree name =>
    left
    simp only [apply, Scope.markFree]
    split <;> rfl

end ScopeEdit

/-- A scope that lists no variable and no free name twice. -/
structure Scope.Distinct (scope : Scope) : Prop where
  names : scope.names.Nodup
  free : scope.freeVariables.Nodup

instance Scope.decidableDistinct (scope : Scope) : Decidable scope.Distinct :=
  decidable_of_iff (scope.names.Nodup ∧ scope.freeVariables.Nodup)
    ⟨fun ⟨names, free⟩ => ⟨names, free⟩, fun ⟨names, free⟩ => ⟨names, free⟩⟩

/-- No edit makes a scope list something twice. -/
theorem Scope.Distinct.apply {scope : Scope} (distinct : scope.Distinct) (edit : ScopeEdit) :
    (edit.apply scope).Distinct := by
  have declaredNames (declared : Variable) :
      ((Scope.declareIn declared scope.entries).map (·.name)).Nodup := by
    have names := scope.names_insert declared
    change (Scope.declareIn declared scope.entries).map (·.name) = _ at names
    rw [names]
    split
    · exact distinct.names
    · next new =>
      refine List.nodup_append.mpr ⟨distinct.names, by simp, ?_⟩
      intro listed old last lastListed same
      exact new (List.mem_singleton.mp lastListed ▸ same ▸ old)
  constructor
  · unfold Scope.names
    rcases edit.entries_apply scope with same | ⟨declared, -, declaredIn⟩ | ⟨-, none⟩
    · rw [same]
      exact distinct.names
    · rw [declaredIn]
      exact declaredNames declared
    · rw [none]
      exact List.nodup_nil
  · cases edit with
    | insert | clear => exact distinct.free
    | redirectGlobal name =>
      simp only [ScopeEdit.apply, Scope.redirectGlobal]
      split <;> exact distinct.free
    | redirectNonlocal name =>
      simp only [ScopeEdit.apply, Scope.redirectNonlocal]
      split <;> exact distinct.free
    | markFree name => exact scope.nodup_freeVariables_markFree name distinct.free

namespace Scopes

variable {scopes after last : Scopes}

/-- Scopes with the same stack, of which each is the same, are the same. -/
theorem ext_scopeAt {first second : Scopes} (stack : first.stack = second.stack)
    (size : first.all.size = second.all.size)
    (same : ∀ id, first.scopeAt id = second.scopeAt id) : first = second := by
  obtain ⟨all, stack⟩ := first
  obtain ⟨others, _⟩ := second
  cases stack
  congr
  apply Array.ext size
  intro index inside insideOther
  have here := same ⟨index⟩
  simpa [scopeAt, Array.getElem?_eq_getElem inside, Array.getElem?_eq_getElem insideOther]
    using here

/-- Scopes with one more, which is open. -/
def create (scopes : Scopes) (created : Scope) : Scopes :=
  ⟨scopes.all.push created, ⟨scopes.all.size⟩ :: scopes.stack⟩

/-- A scope that was just created is the last one. -/
theorem scopeAt_create (scopes : Scopes) (created : Scope) (id : ScopeId) :
    (scopes.create created).scopeAt id =
      if id.index = scopes.all.size then created else scopes.scopeAt id := by
  unfold create scopeAt
  rw [Array.getElem?_push]
  split <;> rfl

@[simp] theorem size_create (scopes : Scopes) (created : Scope) :
    (scopes.create created).all.size = scopes.all.size + 1 :=
  Array.size_push ..

/-- The scope of a node is opened again. -/
theorem push_of_known {node : NodeId} {id : ScopeId} (known : scopes.scopeOf? node = some id)
    (kind : ScopeKind) (parent : Option ScopeId) :
    scopes.push node kind parent = (id, { scopes with stack := id :: scopes.stack }) := by
  unfold push
  rw [known]

/-- The scope of a node is created. -/
theorem push_of_new {node : NodeId} (new : scopes.scopeOf? node = none) (kind : ScopeKind)
    (parent : Option ScopeId) :
    scopes.push node kind parent = (⟨scopes.all.size⟩,
      scopes.create { kind, node, parent := parent.or scopes.current? }) := by
  unfold push
  rw [new]
  rfl

/-- Some scope is that of a node. -/
def Has (scopes : Scopes) (node : NodeId) : Prop :=
  ∃ id, id.index < scopes.all.size ∧ (scopes.scopeAt id).node = node

/-- The scope of a node that has one. -/
theorem of_scopeOf? {node : NodeId} {id : ScopeId} (found : scopes.scopeOf? node = some id) :
    id.index < scopes.all.size ∧ (scopes.scopeAt id).node = node := by
  obtain ⟨index, first, rfl⟩ := Option.map_eq_some_iff.mp found
  obtain ⟨inside, same, -⟩ := Array.findIdx?_eq_some_iff_getElem.mp first
  refine ⟨inside, ?_⟩
  simpa [scopeAt, Array.getElem?_eq_getElem inside] using of_decide_eq_true same

/-- A node without a scope. -/
theorem scopeOf?_eq_none {node : NodeId} : scopes.scopeOf? node = none ↔ ¬scopes.Has node := by
  constructor
  · rintro missing ⟨id, present, same⟩
    have none := Array.findIdx?_eq_none_iff.mp (Option.map_eq_none_iff.mp missing)
    have other := none _ (Array.getElem_mem present)
    rw [scopeAt, Array.getElem?_eq_getElem present] at same
    exact of_decide_eq_false other same
  · intro missing
    cases found : scopes.scopeOf? node with
    | none => rfl
    | some id => exact absurd ⟨id, of_scopeOf? found⟩ missing

/-- The scope of the module is the first of its kind. -/
theorem moduleScope?_eq_some {id : ScopeId} : scopes.moduleScope? = some id ↔
    (id.index < scopes.all.size ∧ (scopes.scopeAt id).kind = .module) ∧
      ∀ earlier : ScopeId, earlier.index < id.index → (scopes.scopeAt earlier).kind ≠ .module := by
  have at_ {index : Nat} (inside : index < scopes.all.size) :
      scopes.scopeAt ⟨index⟩ = scopes.all[index] := by
    simp [scopeAt, Array.getElem?_eq_getElem inside]
  constructor
  · intro found
    obtain ⟨index, first, rfl⟩ := Option.map_eq_some_iff.mp found
    obtain ⟨inside, kind, before⟩ := Array.findIdx?_eq_some_iff_getElem.mp first
    refine ⟨⟨inside, at_ inside ▸ of_decide_eq_true kind⟩, fun earlier less => ?_⟩
    rw [at_ (Nat.lt_trans less inside)]
    simpa using before earlier.index less
  · rintro ⟨⟨inside, kind⟩, before⟩
    refine Option.map_eq_some_iff.mpr ⟨id.index, ?_, rfl⟩
    refine Array.findIdx?_eq_some_iff_getElem.mpr ⟨inside, ?_, fun earlier less => ?_⟩
    · exact decide_eq_true (at_ inside ▸ kind)
    · have other := before ⟨earlier⟩ less
      rw [at_ (Nat.lt_trans less inside)] at other
      simpa using other

/-- A scope that is created is that of its node, unless there is one. -/
theorem scopeOf?_create (scopes : Scopes) (created : Scope) (node : NodeId) :
    (scopes.create created).scopeOf? node =
      (scopes.scopeOf? node).or (if created.node = node then some ⟨scopes.all.size⟩ else none) := by
  unfold scopeOf? create
  rw [Array.findIdx?_push, Option.map_or]
  by_cases same : created.node = node <;> simp [same]

/-- A scope that is created as one is that of the module, unless there is one. -/
theorem moduleScope?_create (scopes : Scopes) (created : Scope) :
    (scopes.create created).moduleScope? =
      scopes.moduleScope?.or
        (if created.kind = .module then some ⟨scopes.all.size⟩ else none) := by
  unfold moduleScope? create
  rw [Array.findIdx?_push, Option.map_or]
  by_cases same : created.kind = .module <;> simp [same]

/-- Scopes that differ in what they contain only. -/
structure SameShape (scopes after : Scopes) : Prop where
  stack : after.stack = scopes.stack
  size : after.all.size = scopes.all.size
  kind : ∀ id, (after.scopeAt id).kind = (scopes.scopeAt id).kind
  node : ∀ id, (after.scopeAt id).node = (scopes.scopeAt id).node
  parent : ∀ id, (after.scopeAt id).parent = (scopes.scopeAt id).parent

namespace SameShape

theorem refl (scopes : Scopes) : scopes.SameShape scopes :=
  ⟨rfl, rfl, fun _ => rfl, fun _ => rfl, fun _ => rfl⟩

/-- A change of what a scope contains. -/
theorem modifyScope (scopes : Scopes) (id : ScopeId) {change : Scope → Scope}
    (keeps : ∀ scope, (change scope).kind = scope.kind ∧ (change scope).node = scope.node ∧
      (change scope).parent = scope.parent) : scopes.SameShape (scopes.modifyScope id change) := by
  have same (other : ScopeId) {β : Type} (read : Scope → β)
      (keeps : ∀ scope, read (change scope) = read scope) :
      read ((scopes.modifyScope id change).scopeAt other) = read (scopes.scopeAt other) := by
    rw [scopeAt_modifyScope]
    split
    · exact keeps _
    · rfl
  exact ⟨rfl, size_modifyScope .., fun other => same other Scope.kind fun scope => (keeps scope).1,
    fun other => same other Scope.node fun scope => (keeps scope).2.1,
    fun other => same other Scope.parent fun scope => (keeps scope).2.2⟩


end SameShape

/-- Scopes of which at most one was edited, and discarded its variables only if it might. -/
inductive Edited (mayClear : Prop) (scopes : Scopes) : Scopes → Prop where
  | same : Edited mayClear scopes scopes
  | edit (id : ScopeId) (edit : ScopeEdit) (permitted : edit = .clear → mayClear) :
    Edited mayClear scopes (scopes.modifyScope id edit.apply)

theorem Edited.mono {mayClear permitted : Prop} (edited : scopes.Edited mayClear after)
    (permits : mayClear → permitted) : scopes.Edited permitted after := by
  cases edited with
  | same => exact .same
  | edit id edit clears => exact .edit id edit fun isClear => permits (clears isClear)

theorem Edited.sameShape {mayClear : Prop} (edited : scopes.Edited mayClear after) :
    scopes.SameShape after := by
  cases edited with
  | same => exact .refl scopes
  | edit id edit permitted => exact .modifyScope scopes id edit.shape_apply

/-- What is done from within the current scope is an edit, or fails. -/
theorem edited_fromCurrent {target : ScopeId → ScopeId} (edit : ScopeId → ScopeEdit)
    (keeps : ∀ id, edit id ≠ .clear)
    (done : (do
      let id ← scopes.current
      return scopes.modifyScope (target id) (edit id).apply : Except Fault Scopes) = .ok after) :
    scopes.Edited False after := by
  cases current : scopes.current with
  | error fault =>
    rw [current] at done
    cases done
  | ok id =>
    rw [current] at done
    cases done
    exact .edit _ _ (keeps id)

theorem edited_declare {name : String} {value : Value} {kind : VariableKind}
    {node : Option NodeId} {span : Span}
    (declared : scopes.declare name value kind node span = .ok after) :
    scopes.Edited False after := by
  let edit (id : ScopeId) : ScopeEdit :=
    .insert { name, value, kind := (scopes.redirect id name kind).2, node, span }
  exact edited_fromCurrent edit (fun _ => nofun) declared

theorem edited_declareGlobal {name : String}
    (declared : scopes.declareGlobal name = .ok after) : scopes.Edited False after :=
  edited_fromCurrent (fun _ => .redirectGlobal name) (fun _ => nofun) declared

theorem edited_declareNonlocal {name : String}
    (declared : scopes.declareNonlocal name = .ok after) : scopes.Edited False after :=
  edited_fromCurrent (fun _ => .redirectNonlocal name) (fun _ => nofun) declared

theorem edited_lookup (scopes : Scopes) (name : String) (reach : Reach) :
    scopes.Edited False (scopes.lookup name reach).2 := by
  rcases scopes.snd_lookup_cases name reach with same | ⟨id, marked⟩
  · rw [same]
    exact .same
  · rw [marked]
    exact .edit id (.markFree name) nofun

/-- What is answered, and the scopes, after something that may fail. -/
def attempt (scopes : Scopes) : Except Fault Scopes → ScopeAnswer × Scopes
  | .ok after => (.done, after)
  | .error fault => (.failed fault, scopes)

/-- Does something with scopes. -/
def perform (scopes : Scopes) : ScopeOperation → ScopeAnswer × Scopes
  | .push node kind parent =>
    let (id, after) := scopes.push node kind parent
    (.opened id, after)
  | .truncate depth => (.done, scopes.truncate depth)
  | .declare name value kind node span => scopes.attempt (scopes.declare name value kind node span)
  | .declareGlobal name => scopes.attempt (scopes.declareGlobal name)
  | .declareNonlocal name => scopes.attempt (scopes.declareNonlocal name)
  | .lookup name reach =>
    let (found, after) := scopes.lookup name reach
    (.found found, after)
  | .clearVariables id => (.done, scopes.clearVariables id)

/-- A scope can be opened inside of one that exists only. -/
def Admits (scopes : Scopes) : ScopeOperation → Prop
  | .push _ _ (some parent) => parent.index < scopes.all.size
  | _ => True

instance (scopes : Scopes) (operation : ScopeOperation) : Decidable (scopes.Admits operation) := by
  unfold Admits
  split <;> infer_instance

/-- What one thing that is done with scopes can do: close scopes, open one, or edit one. -/
theorem perform_cases (scopes : Scopes) (operation : ScopeOperation) :
    (∃ depth, operation = .truncate depth) ∨
      (∃ node kind parent, operation = .push node kind parent) ∨
      scopes.Edited (∃ id, operation = .clearVariables id) (scopes.perform operation).2 := by
  have attempted {mayClear : Prop} {result : Except Fault Scopes}
      (edited : ∀ after, result = .ok after → scopes.Edited False after) :
      scopes.Edited mayClear (scopes.attempt result).2 := by
    cases result with
    | error fault => exact .same
    | ok after => exact (edited after rfl).mono False.elim
  cases operation with
  | push node kind parent => exact .inr (.inl ⟨node, kind, parent, rfl⟩)
  | truncate depth => exact .inl ⟨depth, rfl⟩
  | declare => exact .inr (.inr (attempted fun _ => edited_declare))
  | declareGlobal => exact .inr (.inr (attempted fun _ => edited_declareGlobal))
  | declareNonlocal => exact .inr (.inr (attempted fun _ => edited_declareNonlocal))
  | lookup name reach =>
    refine .inr (.inr ?_)
    exact (edited_lookup scopes name reach).mono False.elim
  | clearVariables id => exact .inr (.inr (.edit id .clear fun _ => ⟨id, rfl⟩))

/-- Scopes of which each is still there, with its kind, its node and its parent. -/
structure Lasts (scopes after : Scopes) : Prop where
  size : scopes.all.size ≤ after.all.size
  kind : ∀ id, id.index < scopes.all.size → (after.scopeAt id).kind = (scopes.scopeAt id).kind
  node : ∀ id, id.index < scopes.all.size → (after.scopeAt id).node = (scopes.scopeAt id).node
  parent : ∀ id, id.index < scopes.all.size →
    (after.scopeAt id).parent = (scopes.scopeAt id).parent

theorem SameShape.lasts (same : scopes.SameShape after) : scopes.Lasts after :=
  ⟨Nat.le_of_eq same.size.symm, fun id _ => same.kind id, fun id _ => same.node id,
    fun id _ => same.parent id⟩

/-- Opening a scope leaves those that are there as they are. -/
theorem scopeAt_push (scopes : Scopes) (node : NodeId) (kind : ScopeKind)
    (parent : Option ScopeId) {id : ScopeId} (present : id.index < scopes.all.size) :
    (scopes.push node kind parent).2.scopeAt id = scopes.scopeAt id := by
  cases known : scopes.scopeOf? node with
  | some _ =>
    rw [push_of_known known]
    rfl
  | none => rw [push_of_new known, scopeAt_create, if_neg (by omega)]

/-- Opening a scope removes none. -/
theorem size_push_le (scopes : Scopes) (node : NodeId) (kind : ScopeKind)
    (parent : Option ScopeId) : scopes.all.size ≤ (scopes.push node kind parent).2.all.size := by
  cases known : scopes.scopeOf? node with
  | some _ => exact Nat.le_of_eq (by rw [push_of_known known])
  | none =>
    rw [push_of_new known, size_create]
    exact Nat.le_succ _

/-- Whatever is done, every scope lasts. -/
theorem lasts_perform (scopes : Scopes) (operation : ScopeOperation) :
    scopes.Lasts (scopes.perform operation).2 := by
  rcases scopes.perform_cases operation with ⟨_, rfl⟩ | ⟨node, kind, parent, rfl⟩ | edited
  · exact ⟨Nat.le_refl _, fun _ _ => rfl, fun _ _ => rfl, fun _ _ => rfl⟩
  · have same {id : ScopeId} (present : id.index < scopes.all.size) :=
      scopes.scopeAt_push node kind parent present
    exact ⟨scopes.size_push_le node kind parent,
      fun _ present => congrArg Scope.kind (same present),
      fun _ present => congrArg Scope.node (same present),
      fun _ present => congrArg Scope.parent (same present)⟩
  · exact edited.sameShape.lasts

/-- Scopes as they arise: what is open exists, a node has one scope, the parent of a scope was
created before it, and no scope lists something twice. -/
structure WellFormed (scopes : Scopes) : Prop where
  opened : ∀ id ∈ scopes.stack, id.index < scopes.all.size
  distinct : ∀ id other : ScopeId, id.index < scopes.all.size → other.index < scopes.all.size →
    (scopes.scopeAt id).node = (scopes.scopeAt other).node → id = other
  outward : ∀ id outer, (scopes.scopeAt id).parent = some outer → outer.index < id.index
  contents : ∀ id, (scopes.scopeAt id).Distinct

/-- Only the scopes that are there have parents and list anything. -/
theorem wellFormed_iff : scopes.WellFormed ↔
    (∀ id ∈ scopes.stack, id.index < scopes.all.size) ∧
      ∀ place < scopes.all.size,
        (∀ other < scopes.all.size, (scopes.scopeAt ⟨place⟩).node = (scopes.scopeAt ⟨other⟩).node →
          place = other) ∧
        (∀ outer ∈ (scopes.scopeAt ⟨place⟩).parent, outer.index < place) ∧
        (scopes.scopeAt ⟨place⟩).Distinct := by
  constructor
  · intro wellFormed
    refine ⟨wellFormed.opened, fun place inside => ⟨fun other present same => ?_,
      wellFormed.outward ⟨place⟩, wellFormed.contents ⟨place⟩⟩⟩
    exact congrArg ScopeId.index (wellFormed.distinct ⟨place⟩ ⟨other⟩ inside present same)
  · rintro ⟨opened, every⟩
    refine ⟨opened, fun id other inside present same =>
      eq_of_index ((every _ inside).1 _ present same), fun id outer parent => ?_, fun id => ?_⟩
    · by_cases inside : id.index < scopes.all.size
      · exact (every _ inside).2.1 outer parent
      · rw [scopeAt_of_size_le scopes id (Nat.le_of_not_lt inside)] at parent
        cases parent
    · by_cases inside : id.index < scopes.all.size
      · exact (every _ inside).2.2
      · rw [scopeAt_of_size_le scopes id (Nat.le_of_not_lt inside)]
        exact ⟨List.nodup_nil, List.nodup_nil⟩

instance (scopes : Scopes) : Decidable scopes.WellFormed :=
  decidable_of_iff' _ wellFormed_iff

namespace WellFormed

theorem truncate (wellFormed : scopes.WellFormed) (depth : Nat) :
    (scopes.truncate depth).WellFormed :=
  ⟨fun id listed => wellFormed.opened id (List.mem_of_mem_drop listed), wellFormed.distinct,
    wellFormed.outward, wellFormed.contents⟩

theorem edited (wellFormed : scopes.WellFormed) {mayClear : Prop}
    (edited : scopes.Edited mayClear after) : after.WellFormed where
  opened := by simpa only [edited.sameShape.size, edited.sameShape.stack] using wellFormed.opened
  distinct := by
    simpa only [edited.sameShape.size, edited.sameShape.node] using wellFormed.distinct
  outward := by simpa only [edited.sameShape.parent] using wellFormed.outward
  contents id := by
    cases edited with
    | same => exact wellFormed.contents id
    | edit changed edit permitted =>
      rw [scopeAt_modifyScope]
      split
      · exact (wellFormed.contents id).apply edit
      · exact wellFormed.contents id

/-- A scope is created for a node that has none, inside of one that exists. -/
theorem create (wellFormed : scopes.WellFormed) {created : Scope}
    (new : ¬scopes.Has created.node) (contents : created.Distinct)
    (around : ∀ outer, created.parent = some outer → outer.index < scopes.all.size) :
    (scopes.create created).WellFormed := by
  refine ⟨?_, ?_, ?_, ?_⟩
  · intro id listed
    rw [size_create]
    rcases List.mem_cons.mp listed with rfl | listed
    · exact Nat.lt_succ_self _
    · exact Nat.lt_succ_of_lt (wellFormed.opened id listed)
  · intro id other present otherPresent same
    rw [size_create] at present otherPresent
    rw [scopeAt_create, scopeAt_create] at same
    split at same <;> split at same
    · next first second => exact eq_of_index (first.trans second.symm)
    · exact absurd ⟨other, by omega, same.symm⟩ new
    · exact absurd ⟨id, by omega, same⟩ new
    · exact wellFormed.distinct id other (by omega) (by omega) same
  · intro id outer parent
    rw [scopeAt_create] at parent
    split at parent
    · next last => exact last ▸ around outer parent
    · exact wellFormed.outward id outer parent
  · intro id
    rw [scopeAt_create]
    split
    · exact contents
    · exact wellFormed.contents id

theorem push (wellFormed : scopes.WellFormed) (node : NodeId) (kind : ScopeKind)
    {parent : Option ScopeId} (admitted : scopes.Admits (.push node kind parent)) :
    (scopes.push node kind parent).2.WellFormed := by
  cases known : scopes.scopeOf? node with
  | some id =>
    rw [push_of_known known]
    refine ⟨fun other listed => ?_, wellFormed.distinct, wellFormed.outward, wellFormed.contents⟩
    rcases List.mem_cons.mp listed with rfl | listed
    · exact (of_scopeOf? known).1
    · exact wellFormed.opened other listed
  | none =>
    rw [push_of_new known]
    refine wellFormed.create (scopeOf?_eq_none.mp known) ⟨List.nodup_nil, List.nodup_nil⟩ ?_
    intro outer given
    cases parent with
    | some explicit =>
      cases Option.some.inj given
      exact admitted
    | none => exact wellFormed.opened outer (List.mem_of_mem_head? (Option.mem_def.mpr given))

/-- What is done with well-formed scopes keeps them so. -/
theorem perform (wellFormed : scopes.WellFormed) {operation : ScopeOperation}
    (admitted : scopes.Admits operation) : (scopes.perform operation).2.WellFormed := by
  rcases scopes.perform_cases operation with ⟨depth, rfl⟩ | ⟨node, kind, parent, rfl⟩ | edited
  · exact wellFormed.truncate depth
  · exact wellFormed.push node kind admitted
  · exact wellFormed.edited edited

/-- A node of well-formed scopes has exactly the scope that is found for it. -/
theorem scopeOf?_eq_some (wellFormed : scopes.WellFormed) {node : NodeId} {id : ScopeId} :
    scopes.scopeOf? node = some id ↔
      id.index < scopes.all.size ∧ (scopes.scopeAt id).node = node := by
  refine ⟨of_scopeOf?, fun ⟨present, same⟩ => ?_⟩
  cases found : scopes.scopeOf? node with
  | none => exact absurd ⟨id, present, same⟩ (scopeOf?_eq_none.mp found)
  | some other =>
    obtain ⟨otherPresent, otherSame⟩ := of_scopeOf? found
    rw [wellFormed.distinct id other present otherPresent (same.trans otherSame.symm)]

/-- A bound that is greater than the place of a scope does not end the way outward from it: any
two such bounds give one way. -/
theorem outwardWithin_eq (wellFormed : scopes.WellFormed) (bound : Nat) :
    ∀ (other : Nat) (start : Option ScopeId),
      (∀ id, start = some id → id.index < bound ∧ id.index < other) →
      scopes.outwardWithin bound start = scopes.outwardWithin other start := by
  induction bound with
  | zero =>
    intro other start within
    cases start with
    | none => cases other <;> rfl
    | some id => exact absurd (within id rfl).1 (Nat.not_lt_zero _)
  | succ bound inductionHypothesis =>
    intro other start within
    cases start with
    | none => cases other <;> rfl
    | some id =>
      obtain ⟨inside, insideOther⟩ := within id rfl
      obtain ⟨other, rfl⟩ := Nat.exists_eq_succ_of_ne_zero (Nat.ne_zero_of_lt insideOther)
      refine congrArg (id :: ·) (inductionHypothesis other _ fun outer parent => ?_)
      have before := wellFormed.outward id outer parent
      omega

/-- The scopes around a scope of well-formed scopes are its parent and the scopes around that:
the way outward is never cut short. -/
theorem around_eq (wellFormed : scopes.WellFormed) (id : ScopeId) :
    scopes.around id =
      match (scopes.scopeAt id).parent with
      | none => []
      | some outer => outer :: scopes.around outer := by
  unfold around
  cases parent : (scopes.scopeAt id).parent with
  | none => cases scopes.all.size <;> rfl
  | some outer =>
    have before := wellFormed.outward id outer parent
    have present : id.index < scopes.all.size := by
      by_contra outside
      rw [scopeAt_of_size_le scopes id (Nat.le_of_not_lt outside)] at parent
      cases parent
    obtain ⟨size, isSize⟩ := Nat.exists_eq_succ_of_ne_zero (Nat.ne_zero_of_lt present)
    rw [isSize]
    refine congrArg (outer :: ·) (wellFormed.outwardWithin_eq _ _ _ fun further parent => ?_)
    have beyond := wellFormed.outward outer further parent
    omega

end WellFormed

end Scopes

end TypeInference
