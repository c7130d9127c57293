import TypeInference.Proofs.Evaluations
import TypeInference.Proofs.Forgetting

/-!
# Where scopes are opened

If no function is defined inside of another one and no node is used twice, then every scope
has a home: the function whose evaluation opens it, which is the scope of a function itself
for its own node, or none for what is opened outside of functions. The scopes around a scope
have the same home until the scope of a function is reached, and none from there on. So the
only function around the current scope is the one that is being evaluated, whose scope is open.

Every function is evaluated once: its scope is created then, and not before.
-/

namespace TypeInference

/-- Where an analysis takes place. -/
structure Place where
  /-- The node of the function that is being evaluated innermost. -/
  inside : Option NodeId := none
  /-- The node of the function whose decorators are being evaluated. -/
  declaring : Option NodeId := none

/-- What is opened inside a function, or outside of all of them, and is no function. -/
def OpenedIn (home : NodeId → Option NodeId) (inside : Option NodeId) (node : NodeId) : Prop :=
  home node = inside ∧ home node ≠ some node

/-- The home of what is around the scope of a node. -/
def homeAround (home : NodeId → Option NodeId) (node : NodeId) : Option NodeId :=
  if home node = some node then none else home node

/-- A function that defines no function, all of whose nodes have it as their home. -/
structure FunctionDefinition.Settled (home : NodeId → Option NodeId)
    (definition : FunctionDefinition) : Prop where
  own : home definition.id = some definition.id
  parameters : Opens (OpenedIn home (some definition.id))
    (Outline.ofParameters definition.parameters)
  returns : Opens (OpenedIn home (some definition.id)) (Outline.ofOptional definition.returns)
  body : Statement.BlockPermitted (OpenedIn home (some definition.id)) (fun _ => False)
    definition.body

namespace Scopes

variable {home : NodeId → Option NodeId} {inside : Option NodeId} {scopes after last : Scopes}

/-- Scopes of the same open ones and with the same nodes, and maybe with more scopes. -/
structure Onward (scopes after : Scopes) : Prop where
  stack : after.stack = scopes.stack
  size : scopes.all.size ≤ after.all.size
  node : ∀ id, id.index < scopes.all.size → (after.scopeAt id).node = (scopes.scopeAt id).node

namespace Onward

theorem refl (scopes : Scopes) : scopes.Onward scopes :=
  ⟨rfl, le_rfl, fun _ _ => rfl⟩

theorem trans (one : scopes.Onward after) (other : after.Onward last) : scopes.Onward last where
  stack := other.stack.trans one.stack
  size := one.size.trans other.size
  node id present :=
    (other.node id (lt_of_lt_of_le present one.size)).trans (one.node id present)

end Onward

namespace SameShape

theorem onward (same : scopes.SameShape after) : scopes.Onward after :=
  ⟨same.stack, same.size.ge, fun id _ => same.node id⟩

theorem has (same : scopes.SameShape after) {node : NodeId} (has : after.Has node) :
    scopes.Has node := by
  obtain ⟨id, present, found⟩ := has
  exact ⟨id, same.size ▸ present, (same.node id).symm.trans found⟩

end SameShape

/-- Every scope is where its node has its home, and an analysis may take place inside some
function, or outside of all of them. -/
structure Placed (home : NodeId → Option NodeId) (inside : Option NodeId) (scopes : Scopes) :
    Prop where
  distinct : ∀ id other : ScopeId, id.index < scopes.all.size → other.index < scopes.all.size →
    (scopes.scopeAt id).node = (scopes.scopeAt other).node → id = other
  kind : ∀ id : ScopeId, id.index < scopes.all.size →
    ((scopes.scopeAt id).kind = .functionBody ↔
      home (scopes.scopeAt id).node = some (scopes.scopeAt id).node)
  parent : ∀ id outer : ScopeId, id.index < scopes.all.size →
    (scopes.scopeAt id).parent = some outer → outer.index < scopes.all.size ∧
      home (scopes.scopeAt outer).node = homeAround home (scopes.scopeAt id).node
  valid : ∀ id ∈ scopes.stack, id.index < scopes.all.size
  current : ∃ id, scopes.current? = some id ∧ home (scopes.scopeAt id).node = inside
  opened : ∀ function, inside = some function →
    ∃ id ∈ scopes.stack, (scopes.scopeAt id).node = function

namespace Placed

/-- A function around a scope, or that scope itself, is its home. -/
theorem outward (placed : scopes.Placed home inside) (bound : Nat) : ∀ start : ScopeId,
    start.index < scopes.all.size → ∀ outer ∈ scopes.outwardWithin bound (some start),
      outer.index < scopes.all.size ∧ ((scopes.scopeAt outer).kind = .functionBody →
        home (scopes.scopeAt start).node = some (scopes.scopeAt outer).node) := by
  induction bound with
  | zero => exact fun _ _ _ impossible => nomatch impossible
  | succ bound inductionHypothesis =>
    intro start present outer listed
    rcases List.mem_cons.mp listed with rfl | beyond
    · exact ⟨present, (placed.kind outer present).mp⟩
    · cases parent : (scopes.scopeAt start).parent with
      | none =>
        rw [parent] at beyond
        cases bound <;> cases beyond
      | some next =>
        rw [parent] at beyond
        obtain ⟨nextPresent, nextHome⟩ := placed.parent start next present parent
        obtain ⟨outerPresent, function⟩ := inductionHypothesis next nextPresent outer beyond
        refine ⟨outerPresent, fun kind => ?_⟩
        have home := nextHome.symm.trans (function kind)
        unfold homeAround at home
        split at home
        · cases home
        · exact home

/-- The functions around the current scope are open. -/
theorem surrounded (placed : scopes.Placed home inside) : scopes.Surrounded := by
  intro id current outer around finished
  obtain ⟨_, same, homeOf⟩ := placed.current
  cases Option.some.inj (current.symm.trans same)
  have listed : outer ∈ scopes.outwardWithin (scopes.all.size + 1) (some id) :=
    List.mem_cons_of_mem _ around
  have present := placed.valid id (mem_of_current? current)
  obtain ⟨outerPresent, function⟩ := placed.outward _ id present outer listed
  obtain ⟨opened, open_, node⟩ := placed.opened _ (homeOf.symm.trans (function finished.1))
  cases placed.distinct opened outer (placed.valid opened open_) outerPresent node
  exact finished.2 open_

/-- What scopes contain does not matter. -/
theorem of_sameShape (placed : scopes.Placed home inside) (same : scopes.SameShape after) :
    after.Placed home inside where
  distinct := by simpa only [same.size, same.node] using placed.distinct
  kind := by simpa only [same.size, same.node, same.kind] using placed.kind
  parent := by simpa only [same.size, same.node, same.parent] using placed.parent
  valid := by simpa only [same.size, same.stack] using placed.valid
  current := by simpa only [current?, same.stack, same.node] using placed.current
  opened := by simpa only [same.stack, same.node] using placed.opened

/-- The scope of a node that has none is created inside of what is around its home. -/
theorem create (placed : scopes.Placed home inside) {created : Scope}
    (missing : ¬scopes.Has created.node)
    (kind : created.kind = .functionBody ↔ home created.node = some created.node)
    (around : ∀ outer, created.parent = some outer → outer.index < scopes.all.size ∧
      home (scopes.scopeAt outer).node = homeAround home created.node)
    (opened : ∀ function, home created.node = some function →
      function = created.node ∨ ∃ id ∈ scopes.stack, (scopes.scopeAt id).node = function) :
    (scopes.create created).Placed home (home created.node) := by
  have old {id : ScopeId} (present : id.index < scopes.all.size) :
      (scopes.create created).scopeAt id = scopes.scopeAt id := by
    rw [scopeAt_create, if_neg (by omega)]
  have new : (scopes.create created).scopeAt ⟨scopes.all.size⟩ = created := by
    rw [scopeAt_create, if_pos rfl]
  have still {id : ScopeId} (present : id.index < scopes.all.size) :
      id.index < (scopes.create created).all.size := by
    rw [size_create]
    omega
  have oldOrNew {id : ScopeId} (present : id.index < (scopes.create created).all.size) :
      id.index < scopes.all.size ∨ id = ⟨scopes.all.size⟩ := by
    rw [size_create] at present
    exact (Nat.lt_succ_iff_lt_or_eq.mp present).imp_right eq_of_index
  refine ⟨?_, ?_, ?_, ?_, ⟨_, rfl, congrArg (fun scope => home scope.node) new⟩, ?_⟩
  · intro id other present otherPresent same
    rcases oldOrNew present with present | rfl <;> rcases oldOrNew otherPresent with other' | rfl
    · rw [old present, old other'] at same
      exact placed.distinct id other present other' same
    · rw [old present, new] at same
      exact absurd ⟨id, present, same⟩ missing
    · rw [old other', new] at same
      exact absurd ⟨other, other', same.symm⟩ missing
    · rfl
  · intro id present
    rcases oldOrNew present with present | rfl
    · rw [old present]
      exact placed.kind id present
    · rw [new]
      exact kind
  · intro id outer present parent
    rcases oldOrNew present with present | rfl
    · rw [old present] at parent ⊢
      obtain ⟨outerPresent, homeOf⟩ := placed.parent id outer present parent
      exact ⟨still outerPresent, by rwa [old outerPresent]⟩
    · rw [new] at parent ⊢
      obtain ⟨outerPresent, homeOf⟩ := around outer parent
      exact ⟨still outerPresent, by rwa [old outerPresent]⟩
  · intro id listed
    rcases List.mem_cons.mp listed with rfl | listed
    · simp
    · exact still (placed.valid id listed)
  · intro function homeOf
    rcases opened function homeOf with rfl | ⟨id, listed, found⟩
    · exact ⟨⟨scopes.all.size⟩, List.mem_cons_self, by rw [new]⟩
    · exact ⟨id, List.mem_cons_of_mem _ listed, by rwa [old (placed.valid id listed)]⟩

/-- The scope of a node is opened inside of what is around its home. -/
theorem push (placed : scopes.Placed home inside) {node : NodeId} {kind : ScopeKind}
    {parent : Option ScopeId} (kinds : kind = .functionBody ↔ home node = some node)
    (around : ∀ outer, parent.or scopes.current? = some outer → outer.index < scopes.all.size ∧
      home (scopes.scopeAt outer).node = homeAround home node)
    (opened : ∀ function, home node = some function →
      function = node ∨ ∃ id ∈ scopes.stack, (scopes.scopeAt id).node = function) :
    (scopes.push node kind parent).2.Placed home (home node) := by
  cases known : scopes.scopeOf? node with
  | none =>
    let created : Scope := { kind, node, parent := parent.or scopes.current? }
    have missing : ¬scopes.Has created.node := scopeOf?_eq_none.mp known
    rw [push_of_new known]
    exact placed.create missing kinds around opened
  | some id =>
    obtain ⟨present, same⟩ := of_scopeOf? known
    rw [push_of_known known]
    refine ⟨placed.distinct, placed.kind, placed.parent, ?_, ⟨id, rfl, congrArg home same⟩, ?_⟩
    · rintro other listed
      rcases List.mem_cons.mp listed with rfl | listed
      · exact present
      · exact placed.valid other listed
    · intro function homeOf
      rcases opened function homeOf with rfl | ⟨other, listed, found⟩
      · exact ⟨id, List.mem_cons_self, same⟩
      · exact ⟨other, List.mem_cons_of_mem _ listed, found⟩

end Placed

/-- Opening a scope keeps the nodes of those that are there. -/
theorem node_push (scopes : Scopes) (node : NodeId) (kind : ScopeKind) (parent : Option ScopeId)
    {id : ScopeId} (present : id.index < scopes.all.size) :
    id.index < (scopes.push node kind parent).2.all.size ∧
      ((scopes.push node kind parent).2.scopeAt id).node = (scopes.scopeAt id).node :=
  ⟨lt_of_lt_of_le present (scopes.size_push_le node kind parent),
    congrArg Scope.node (scopes.scopeAt_push node kind parent present)⟩

/-- The scope that is opened is that of the node. -/
theorem node_opened (scopes : Scopes) (node : NodeId) (kind : ScopeKind)
    (parent : Option ScopeId) :
    (scopes.push node kind parent).1.index < (scopes.push node kind parent).2.all.size ∧
      ((scopes.push node kind parent).2.scopeAt (scopes.push node kind parent).1).node = node := by
  cases known : scopes.scopeOf? node with
  | some _ =>
    rw [push_of_known known]
    exact of_scopeOf? known
  | none =>
    rw [push_of_new known, scopeAt_create, if_pos rfl, size_create]
    exact ⟨Nat.lt_succ_self _, rfl⟩

/-- Opening the scope of a node gives no scope to another one. -/
theorem has_push (scopes : Scopes) {node other : NodeId} (kind : ScopeKind)
    (parent : Option ScopeId) (has : (scopes.push node kind parent).2.Has other) :
    other = node ∨ scopes.Has other := by
  cases known : scopes.scopeOf? node with
  | some _ =>
    rw [push_of_known known] at has
    exact .inr has
  | none =>
    rw [push_of_new known] at has
    obtain ⟨id, present, same⟩ := has
    rw [scopeAt_create] at same
    rw [size_create] at present
    split at same
    · exact .inl same.symm
    · exact .inr ⟨id, by omega, same⟩

namespace Placed

/-- After what was done in a scope that was opened, it is closed. -/
theorem close (placed : scopes.Placed home inside) {other : Option NodeId} {node : NodeId}
    {kind : ScopeKind} {parent : Option ScopeId} (later : after.Placed home other)
    (onward : (scopes.push node kind parent).2.Onward after) :
    (after.truncate scopes.depth).Placed home inside ∧
      scopes.Onward (after.truncate scopes.depth) := by
  have stack : (after.truncate scopes.depth).stack = scopes.stack :=
    stack_truncate_cons (onward.stack.trans (stack_push scopes node kind parent))
  have same {id : ScopeId} (present : id.index < scopes.all.size) :
      id.index < after.all.size ∧ (after.scopeAt id).node = (scopes.scopeAt id).node := by
    obtain ⟨opened, kept⟩ := node_push scopes node kind parent present
    exact ⟨lt_of_lt_of_le opened onward.size, (onward.node id opened).trans kept⟩
  have size : scopes.all.size ≤ after.all.size :=
    (size_push_le scopes node kind parent).trans onward.size
  refine ⟨⟨later.distinct, later.kind, later.parent, ?_, ?_, ?_⟩, stack, size,
    fun id present => (same present).2⟩
  · intro id listed
    rw [stack] at listed
    exact (same (placed.valid id listed)).1
  · obtain ⟨id, current, homeOf⟩ := placed.current
    refine ⟨id, (congrArg List.head? stack).trans current, ?_⟩
    change home (after.scopeAt id).node = inside
    rw [(same (placed.valid id (mem_of_current? current))).2]
    exact homeOf
  · intro function homeOf
    obtain ⟨id, listed, found⟩ := placed.opened function homeOf
    exact ⟨id, stack ▸ listed, (same (placed.valid id listed)).2.trans found⟩

end Placed

end Scopes

/-- Stores whose functions have the same definitions, each of them evaluated as far. -/
structure Store.SameDefinitions (before after : Store) : Prop where
  node : ∀ id, (after.functionAt id).node = (before.functionAt id).node
  states : ∀ id, (after.functionAt id).overloads.map (·.state) =
    (before.functionAt id).overloads.map (·.state)

theorem Store.Alike.sameDefinitions {before after : Store} (alike : before.Alike after) :
    before.SameDefinitions after :=
  ⟨alike.node, alike.states⟩

/-- Every definition is declared in one place and belongs to one function, which has no scope
until it is evaluated. -/
structure Progress.Placed (home : NodeId → Option NodeId) (place : Place) (progress : Progress) :
    Prop where
  scopes : progress.scopes.Placed home place.inside
  entries : ∀ entry ∈ progress.symbols.functions.toList, entry.definition.Settled home ∧
    entry.scope.index < progress.scopes.all.size ∧
      home (progress.scopes.scopeAt entry.scope).node = none
  single : ∀ id node, (progress.store.functionAt id).node = some node →
    ∃ state, (progress.store.functionAt id).overloads.map (·.state) = [state]
  unique : ∀ id other node, (progress.store.functionAt id).node = some node →
    (progress.store.functionAt other).node = some node → id = other
  declared : ∀ id node, (progress.store.functionAt id).node = some node →
    (progress.symbols.function? node).isSome ∨ place.declaring = some node
  undeclared : ∀ node, place.declaring = some node → progress.symbols.function? node = none
  begun : ∀ node, home node = some node → progress.scopes.Has node →
    (progress.symbols.function? node).isSome ∧
      ∀ id, (progress.store.functionAt id).node = some node →
        (progress.store.functionAt id).overloads.map (·.state) ≠ [.pending]

namespace Progress.Placed

variable {home : NodeId → Option NodeId} {place : Place} {progress : Progress}

/-- A change that leaves definitions alone. -/
theorem changeStore (placed : progress.Placed home place) {store : Store}
    (same : progress.store.SameDefinitions store) :
    Progress.Placed home place { progress with store } where
  scopes := placed.scopes
  entries := placed.entries
  single := by simpa only [same.node, same.states] using placed.single
  unique := by simpa only [same.node] using placed.unique
  declared := by simpa only [same.node] using placed.declared
  undeclared := placed.undeclared
  begun := by simpa only [same.node, same.states] using placed.begun

/-- A change of scopes that opens the scope of a function only if its evaluation has begun. -/
theorem changeScopes (placed : progress.Placed home place) {scopes : Scopes}
    {inside : Option NodeId} (placedScopes : scopes.Placed home inside)
    (kept : ∀ id : ScopeId, id.index < progress.scopes.all.size → id.index < scopes.all.size ∧
      (scopes.scopeAt id).node = (progress.scopes.scopeAt id).node)
    (begun : ∀ node, home node = some node → scopes.Has node → progress.scopes.Has node ∨
      (progress.symbols.function? node).isSome ∧
        ∀ id, (progress.store.functionAt id).node = some node →
          (progress.store.functionAt id).overloads.map (·.state) ≠ [.pending]) :
    Progress.Placed home { place with inside } { progress with scopes } where
  scopes := placedScopes
  entries entry listed := by
    obtain ⟨settled, present, outside⟩ := placed.entries entry listed
    obtain ⟨still, same⟩ := kept entry.scope present
    exact ⟨settled, still, same ▸ outside⟩
  single := placed.single
  unique := placed.unique
  declared := placed.declared
  undeclared := placed.undeclared
  begun node own has := (begun node own has).elim (placed.begun node own) id

/-- A change of what scopes contain. -/
theorem changeContents (placed : progress.Placed home place) {scopes : Scopes}
    (same : progress.scopes.SameShape scopes) :
    Progress.Placed home place { progress with scopes } :=
  placed.changeScopes (placed.scopes.of_sameShape same)
    (fun id present => ⟨lt_of_lt_of_eq present same.size.symm, same.node id⟩)
    fun _ _ has => .inl (same.has has)

/-- A scope that is no function's is opened inside of the same function. -/
theorem push (placed : progress.Placed home place) {node : NodeId} {kind : ScopeKind}
    (opens : OpenedIn home place.inside node) (other : kind ≠ .functionBody) :
    Progress.Placed home place
      { progress with scopes := (progress.scopes.push node kind none).2 } := by
  obtain ⟨homeOf, notFunction⟩ := opens
  have around : homeAround home node = place.inside := by
    rw [homeAround, if_neg notFunction, homeOf]
  have pushed : (progress.scopes.push node kind none).2.Placed home place.inside := by
    rw [← homeOf]
    refine placed.scopes.push ?_ ?_ ?_
    · exact ⟨fun function => absurd function other, fun own => absurd own notFunction⟩
    · intro outer current
      obtain ⟨_, same, outerHome⟩ := placed.scopes.current
      cases Option.some.inj (current.symm.trans same)
      exact ⟨placed.scopes.valid outer (Scopes.mem_of_current? same), outerHome.trans around.symm⟩
    · intro function own
      exact .inr (placed.scopes.opened function (homeOf.symm.trans own))
  refine placed.changeScopes pushed
    (fun id present => Scopes.node_push progress.scopes node kind none present) ?_
  intro function own has
  rcases Scopes.has_push progress.scopes kind none has with rfl | has
  · exact absurd own notFunction
  · exact .inl has

theorem changeLog (placed : progress.Placed home place) (log : DiagnosticLog) :
    Progress.Placed home place { progress with log } :=
  { placed with }

theorem insertClass (placed : progress.Placed home place) (node : NodeId) (id : ClassId) :
    Progress.Placed home place
      { progress with symbols := progress.symbols.insertClass node id } :=
  { placed with }

/-- A function that is evaluated, or being evaluated, is not pending. -/
theorem setState (placed : progress.Placed home place) (function : FunctionId)
    {state : OverloadState} (begun : state ≠ .pending) :
    (progress.setState function state).Placed home place where
  scopes := placed.scopes
  entries := placed.entries
  single id node definedBy := by
    have definedBy := (Store.node_setState _ function id state).symm.trans definedBy
    obtain ⟨before, single⟩ := placed.single id node definedBy
    change ∃ state', ((progress.store.setState function state).functionAt id).overloads.map
      (·.state) = [state']
    rw [Store.states_setState, single]
    split
    · exact ⟨state, rfl⟩
    · exact ⟨before, rfl⟩
  unique id other node one two := by
    have one := (Store.node_setState _ function id state).symm.trans one
    have two := (Store.node_setState _ function other state).symm.trans two
    exact placed.unique id other node one two
  declared id node definedBy := by
    have definedBy := (Store.node_setState _ function id state).symm.trans definedBy
    exact placed.declared id node definedBy
  undeclared := placed.undeclared
  begun node own has := by
    obtain ⟨declared, states⟩ := placed.begun node own has
    refine ⟨declared, fun id definedBy pending => ?_⟩
    have definedBy := (Store.node_setState _ function id state).symm.trans definedBy
    change ((progress.store.setState function state).functionAt id).overloads.map (·.state) =
      [.pending] at pending
    rw [Store.states_setState] at pending
    split at pending
    · obtain ⟨before, single⟩ := placed.single id node definedBy
      rw [single] at pending
      exact begun (List.cons.inj pending).1
    · exact states id definedBy pending

/-- A definition that was not declared makes a function, outside of which its decorators are
evaluated. -/
theorem addFunction (placed : progress.Placed home {}) {definition : FunctionDefinition}
    (new : progress.symbols.function? definition.id = none) (owner : Option ClassId)
    (qualifiedName : String) :
    Progress.Placed home { declaring := some definition.id }
      { progress with store := (progress.store.addFunction
          (Engine.declaredRecord definition owner qualifiedName)).2 } := by
  obtain ⟨created, pending⟩ := declaredRecord_fresh definition owner qualifiedName
  generalize Engine.declaredRecord definition owner qualifiedName = record at created pending ⊢
  have functionAt (id : FunctionId) : (progress.store.addFunction record).2.functionAt id =
      if id = progress.store.nextFunction then record else progress.store.functionAt id :=
    Store.functionAt_addFunction_eq ..
  have other {id : FunctionId} {node : NodeId}
      (definedBy : (progress.store.functionAt id).node = some node) :
      (progress.symbols.function? node).isSome :=
    (placed.declared id node definedBy).resolve_right fun impossible => nomatch impossible
  have apart {id : FunctionId}
      (definedBy : (progress.store.functionAt id).node = some definition.id) : False := by
    have declared := other definedBy
    rw [new] at declared
    cases declared
  refine ⟨placed.scopes, placed.entries, ?_, ?_, ?_, ?_, ?_⟩
  · intro id node definedBy
    rw [functionAt] at definedBy ⊢
    split at definedBy
    · next same =>
      rw [if_pos same]
      exact ⟨.pending, pending⟩
    · next different =>
      rw [if_neg different]
      exact placed.single id node definedBy
  · intro first second node one two
    rw [functionAt] at one two
    split at one <;> split at two
    · next same again => exact same.trans again.symm
    · cases created.symm.trans one
      exact (apart two).elim
    · cases created.symm.trans two
      exact (apart one).elim
    · exact placed.unique first second node one two
  · intro id node definedBy
    rw [functionAt] at definedBy
    split at definedBy
    · exact .inr (created.symm.trans definedBy)
    · exact .inl (other definedBy)
  · rintro node same
    cases same
    exact new
  · intro node own has
    obtain ⟨declared, states⟩ := placed.begun node own has
    refine ⟨declared, fun id definedBy => ?_⟩
    rw [functionAt] at definedBy ⊢
    split at definedBy
    · cases created.symm.trans definedBy
      rw [new] at declared
      cases declared
    · next different =>
      rw [if_neg different]
      exact states id definedBy

/-- The function is declared after its decorators were evaluated. -/
theorem insert {definition : FunctionDefinition}
    (placed : progress.Placed home { declaring := some definition.id })
    (settled : definition.Settled home) {scope : ScopeId}
    (current : progress.scopes.current? = some scope) (function : FunctionId) :
    Progress.Placed home {}
      { progress with symbols := progress.symbols.insert { definition, scope, function } } := by
  have still {node : NodeId} (declared : (progress.symbols.function? node).isSome) :
      ((progress.symbols.insert { definition, scope, function }).function? node).isSome := by
    rw [Symbols.function?_insert]
    split
    · rfl
    · exact declared
  have nothing : ∀ node, (none : Option NodeId) = some node →
      (progress.symbols.insert { definition, scope, function }).function? node = none :=
    fun _ impossible => nomatch impossible
  refine ⟨placed.scopes, ?_, placed.single, placed.unique, ?_, nothing, ?_⟩
  · intro entry listed
    rw [Symbols.insert, Array.toList_push, List.mem_append, List.mem_singleton] at listed
    rcases listed with listed | rfl
    · exact placed.entries entry listed
    · obtain ⟨_, same, outside⟩ := placed.scopes.current
      cases Option.some.inj (current.symm.trans same)
      exact ⟨settled, placed.scopes.valid _ (Scopes.mem_of_current? current), outside⟩
  · intro id node definedBy
    left
    rcases placed.declared id node definedBy with declared | declaring
    · exact still declared
    · cases declaring
      rw [Symbols.function?_insert, if_pos rfl]
      rfl
  · intro node own has
    obtain ⟨declared, states⟩ := placed.begun node own has
    exact ⟨still declared, states⟩

end Progress.Placed

end TypeInference
