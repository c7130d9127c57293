import TypeInference.Proofs.Touching
import TypeInference.Proofs.Visibility
import Mathlib.Order.CompletePartialOrder
import Mathlib.Data.Set.Disjoint

/-!
# What a look-up sees

A place is a name in the scope of a node. What a name means depends on the scopes from the current
one outward, and on that of the module, at the places of this name. So look-ups find the same values
before and after changes at other places, whatever these are and whichever scopes of comprehensions
were created meanwhile.
-/

namespace TypeInference

/-- The value of a name in a scope. -/
def Scope.valueOf? (scope : Scope) (name : String) : Option Value :=
  (scope.find? name).map (·.value)

/-- The value of a name that is declared with a value where it may have one before. A known value is
not replaced by the unknown one. -/
def Value.after (declared : Value) (before : Option Value) : Value :=
  if declared.isUnknown then before.getD declared else declared

namespace Scope

/-- A declaration changes the value of its own name. -/
theorem valueOf?_insert (scope : Scope) (declared : Variable) (name : String) :
    (scope.insert declared).valueOf? name =
      if declared.name = name then some (declared.value.after (scope.valueOf? name))
      else scope.valueOf? name := by
  have inVariables (entries : List Variable) :
      ((declareIn declared entries).find? fun known => known.name = name).map (·.value) =
        if declared.name = name then
          some (declared.value.after ((entries.find? fun known => known.name = name).map (·.value)))
        else (entries.find? fun known => known.name = name).map (·.value) := by
    induction entries with
    | nil =>
      by_cases here : declared.name = name <;> simp [declareIn, here, Value.after]
    | cons known rest inductionHypothesis =>
      rw [declareIn]
      by_cases same : known.name = declared.name
      · rw [if_pos same, List.find?_cons, List.find?_cons, name_refine]
        by_cases here : declared.name = name
        · rw [if_pos here, same, decide_eq_true here]
          simp only [Option.map_some, Option.some.injEq, Variable.refine, Value.after,
            Option.getD_some]
          cases unknown : declared.value.isUnknown with
          | false => simp
          | true =>
            cases already : known.value.isUnknown with
            | false => simp
            | true =>
              have both {value : Value} (none : value.isUnknown = true) : value = .unknown := by
                cases value <;> first | rfl | cases none
              simp [both unknown, both already]
        · rw [if_neg here, same, decide_eq_false here]
      · rw [if_neg same, List.find?_cons, List.find?_cons]
        by_cases first : known.name = name
        · have other : declared.name ≠ name := fun here => same (first.trans here.symm)
          rw [if_neg other, decide_eq_true first]
        · rw [decide_eq_false first]
          exact inductionHypothesis
  exact inVariables scope.entries

theorem valueOf?_markFree (scope : Scope) (name other : String) :
    (scope.markFree name).valueOf? other = scope.valueOf? other := by
  unfold markFree
  split <;> rfl

end Scope

namespace Scopes

/-- Scopes in which values changed at some places only, and names kept having a value. Scopes of
comprehensions may have been created, all of whose places are among these. -/
def Changes (places : Set (NodeId × String)) (before after : Scopes) : Prop :=
  before.Grows
    (fun scope later => scope.SameFrame later ∧ ∀ name,
      ((scope.node, name) ∉ places → later.valueOf? name = scope.valueOf? name) ∧
      ((scope.valueOf? name).isSome → (later.valueOf? name).isSome))
    (fun created => created.IsSample ∧ ∀ name, (created.node, name) ∈ places) after

variable {places more : Set (NodeId × String)} {before middle after : Scopes}

namespace Changes

theorem refl (scopes : Scopes) : scopes.Changes places scopes :=
  Grows.refl (fun _ => ⟨.refl _, fun _ => ⟨fun _ => rfl, id⟩⟩) scopes

theorem trans (one : before.Changes places middle) (other : middle.Changes places after) :
    before.Changes places after :=
  Grows.trans
    (fun {_ _ _} first second => ⟨first.1.trans second.1, fun name =>
      ⟨fun outside => ((second.2 name).1 (first.1.node.symm ▸ outside)).trans
          ((first.2 name).1 outside),
        fun valued => (second.2 name).2 ((first.2 name).2 valued)⟩⟩)
    (fun {_ _} created kept => ⟨created.1.of_sameFrame kept.1, kept.1.node.symm ▸ created.2⟩)
    one other

theorem mono (changes : before.Changes places after) (wider : places ⊆ more) :
    before.Changes more after where
  grown := changes.grown
  kept id present :=
    have kept := changes.kept id present
    ⟨kept.1, fun name => ⟨fun outside => (kept.2 name).1 fun inside => outside (wider inside),
      (kept.2 name).2⟩⟩
  fresh id old inside :=
    have created := changes.fresh id old inside
    ⟨created.1, fun name => wider (created.2 name)⟩

/-- No scope is created if no value changes. -/
theorem size_eq (changes : before.Changes ∅ after) : after.all.size = before.all.size :=
  Grows.size_eq changes fun _ created => created.2 ""

theorem frame (changes : before.Changes places after) {id : ScopeId}
    (present : id.index < before.all.size) :
    (before.scopeAt id).SameFrame (after.scopeAt id) :=
  (changes.kept id present).1

theorem valueOf? (changes : before.Changes places after) {id : ScopeId}
    (present : id.index < before.all.size) {name : String}
    (outside : ((before.scopeAt id).node, name) ∉ places) :
    (after.scopeAt id).valueOf? name = (before.scopeAt id).valueOf? name :=
  ((changes.kept id present).2 name).1 outside

/-- A look-up changes no values. -/
theorem lookup (scopes : Scopes) (name : String) (reach : Reach) :
    scopes.Changes places (scopes.lookup name reach).2 := by
  refine Grows.lookup (fun _ => ⟨.refl _, fun _ => ⟨fun _ => rfl, id⟩⟩) scopes name reach
    fun scope =>
    ⟨.markFree scope name, fun other => ?_⟩
  rw [Scope.valueOf?_markFree]
  exact ⟨fun _ => rfl, id⟩

/-- The scope of a comprehension is opened. -/
theorem push (scopes : Scopes) {node : NodeId} (own : ∀ name, (node, name) ∈ places) :
    scopes.Changes places (scopes.push node .comprehension none).2 :=
  Grows.push (fun _ => ⟨.refl _, fun _ => ⟨fun _ => rfl, id⟩⟩) scopes node .comprehension none
    ⟨⟨rfl, rfl, rfl⟩, own⟩

/-- A declaration changes a value at one place. -/
theorem insert (scopes : Scopes) {id : ScopeId} {declared : Variable}
    (own : ((scopes.scopeAt id).node, declared.name) ∈ places) :
    scopes.Changes places (scopes.modifyScope id (·.insert declared)) := by
  refine Grows.modifyScope (fun _ => ⟨.refl _, fun _ => ⟨fun _ => rfl, fun valued => valued⟩⟩)
    scopes id
    ⟨.insert _ declared, fun name => ?_⟩
  rw [Scope.valueOf?_insert]
  by_cases here : declared.name = name
  · exact ⟨fun outside => absurd (here ▸ own) outside, fun _ => by simp [here]⟩
  · rw [if_neg here]
    exact ⟨fun _ => rfl, fun valued => valued⟩

/-- Values that changed in no place of a scope are as they were there, so that nothing but what
changed in others is left. -/
theorem restrict (changes : before.Changes (places ∪ more) after) (wellFormed : after.WellFormed)
    {id : ScopeId} (present : id.index < before.all.size)
    (within : ∀ place ∈ more, place.1 = (before.scopeAt id).node)
    (same : ∀ name, ((before.scopeAt id).node, name) ∉ places →
      (after.scopeAt id).valueOf? name = (before.scopeAt id).valueOf? name) :
    before.Changes places after where
  grown := changes.grown
  kept other inside := by
    obtain ⟨frame, values⟩ := changes.kept other inside
    refine ⟨frame, fun name => ⟨fun outside => ?_, (values name).2⟩⟩
    by_cases here : (before.scopeAt other).node = (before.scopeAt id).node
    · have itself : other = id := wellFormed.distinct other id
        (Nat.lt_of_lt_of_le inside changes.grown) (Nat.lt_of_lt_of_le present changes.grown)
        (frame.node.trans (here.trans (changes.frame present).node.symm))
      subst itself
      exact same name outside
    · exact (values name).1 fun among => among.elim outside fun one => here (within _ one)
  fresh other old inside := by
    obtain ⟨sample, all⟩ := changes.fresh other old inside
    refine ⟨sample, fun name => (all name).resolve_right fun one => ?_⟩
    have itself : other = id := wellFormed.distinct other id inside
      (Nat.lt_of_lt_of_le present changes.grown)
      ((within _ one).trans (changes.frame present).node.symm)
    subst itself
    exact absurd present (Nat.not_lt.mpr old)

/-- The way outward from a scope that was there is the same. -/
theorem around (changes : before.Changes places after) (wellFormed : before.WellFormed)
    (wellFormedAfter : after.WellFormed) {id : ScopeId} (present : id.index < before.all.size) :
    after.around id = before.around id := by
  induction size : id.index using Nat.strongRecOn generalizing id with
  | _ size inductionHypothesis =>
    rw [wellFormed.around_eq, wellFormedAfter.around_eq, (changes.frame present).parent]
    cases parent : (before.scopeAt id).parent with
    | none => rfl
    | some outer =>
      have less := wellFormed.outward id outer parent
      exact congrArg (outer :: ·)
        (inductionHypothesis outer.index (size ▸ less) (Nat.lt_trans less present) rfl)

/-- The scope of the module is the same. -/
theorem moduleScope? (changes : before.Changes places after) :
    after.moduleScope? = before.moduleScope? := by
  have kinds {id : ScopeId} (inside : id.index < after.all.size)
      (isModule : (after.scopeAt id).kind = .module) :
      id.index < before.all.size ∧ (before.scopeAt id).kind = .module := by
    by_cases present : id.index < before.all.size
    · exact ⟨present, (changes.frame present).kind.symm.trans isModule⟩
    · cases (changes.fresh id (Nat.not_lt.mp present) inside).1.kind.symm.trans isModule
  refine Option.ext fun id => ?_
  rw [moduleScope?_eq_some, moduleScope?_eq_some]
  constructor
  · rintro ⟨⟨inside, isModule⟩, first⟩
    obtain ⟨present, wasModule⟩ := kinds inside isModule
    refine ⟨⟨present, wasModule⟩, fun earlier less other => first earlier less ?_⟩
    exact (changes.frame (Nat.lt_trans less present)).kind.trans other
  · rintro ⟨⟨present, wasModule⟩, first⟩
    refine ⟨⟨Nat.lt_of_lt_of_le present changes.grown,
      (changes.frame present).kind.trans wasModule⟩,
      fun earlier less other => first earlier less ?_⟩
    exact (changes.frame (Nat.lt_trans less present)).kind.symm.trans other

end Changes

/-- The scopes from one outward are there if it is. -/
theorem WellFormed.outward_lt (wellFormed : before.WellFormed) {id outer : ScopeId}
    (present : id.index < before.all.size) (listed : outer ∈ id :: before.around id) :
    outer.index < before.all.size := by
  rcases List.mem_cons.mp listed with rfl | beyond
  · exact present
  · exact Nat.lt_trans ((List.pairwise_cons.mp (wellFormed.descending id)).1 outer beyond) present

/-- The scopes of some nodes are those that a look-up from the current scope may see. -/
structure Sees (seen : Set NodeId) (home : ScopeId) (scopes : Scopes) : Prop where
  current : scopes.current? = some home
  outward : ∀ outer ∈ home :: scopes.around home, (scopes.scopeAt outer).node ∈ seen
  module : ∀ id, scopes.moduleScope? = some id → (scopes.scopeAt id).node ∈ seen

/-- What is seen is seen after changes. -/
theorem Sees.changes {seen : Set NodeId} {home : ScopeId} (sees : before.Sees seen home)
    (wellFormed : before.WellFormed) (changes : before.Changes places after)
    (wellFormedAfter : after.WellFormed) (stack : after.stack = before.stack) :
    after.Sees seen home := by
  have present := wellFormed.opened home (List.mem_of_mem_head? sees.current)
  refine ⟨?_, fun outer listed => ?_, fun id found => ?_⟩
  · rw [← sees.current, current?, current?, stack]
  · rw [changes.around wellFormed wellFormedAfter present] at listed
    rw [(changes.frame (wellFormed.outward_lt present listed)).node]
    exact sees.outward outer listed
  · rw [changes.moduleScope?] at found
    rw [(changes.frame (moduleScope?_eq_some.mp found).1.1).node]
    exact sees.module id found

/-- From the scope of a comprehension that is opened inside of the current one, that one is seen,
and whatever was seen from there. -/
theorem Sees.push {seen : Set NodeId} {home : ScopeId} (sees : before.Sees seen home)
    (wellFormed : before.WellFormed) {node : NodeId}
    (inside : ((before.push node .comprehension none).2.scopeAt
      (before.push node .comprehension none).1).parent = some home) :
    (before.push node .comprehension none).2.Sees (insert node seen)
      (before.push node .comprehension none).1 := by
  have changes : before.Changes {place | place.1 = node} (before.push node .comprehension none).2 :=
    .push before fun _ => rfl
  have wellFormedAfter : (before.push node .comprehension none).2.WellFormed :=
    wellFormed.push _ _ trivial
  have stack := before.stack_push node .comprehension none
  have present := wellFormed.opened home (List.mem_of_mem_head? sees.current)
  refine ⟨by rw [current?, stack]; rfl, fun outer listed => ?_, fun id found => ?_⟩
  · rw [wellFormedAfter.around_eq, inside] at listed
    dsimp only at listed
    rw [changes.around wellFormed wellFormedAfter present] at listed
    rcases List.mem_cons.mp listed with rfl | outward
    · exact .inl (before.node_opened node .comprehension none).2
    · rw [(changes.frame (wellFormed.outward_lt present outward)).node]
      exact .inr (sees.outward outer outward)
  · rw [changes.moduleScope?] at found
    rw [(changes.frame (moduleScope?_eq_some.mp found).1.1).node]
    exact .inr (sees.module id found)

/-- A look-up finds the value that it found, if nothing changed where it may see the name. -/
theorem Sees.lookup {seen : Set NodeId} {home : ScopeId} (sees : before.Sees seen home)
    (wellFormed : before.WellFormed) (changes : before.Changes places after)
    (wellFormedAfter : after.WellFormed) (stack : after.stack = before.stack) (name : String)
    (reach : Reach) (apart : ∀ node ∈ seen, (node, name) ∉ places) :
    (after.lookup name reach).1.map (·.2.value) = (before.lookup name reach).1.map (·.2.value) := by
  have present := wellFormed.opened home (List.mem_of_mem_head? sees.current)
  have still := sees.changes wellFormed changes wellFormedAfter stack
  have value {id : ScopeId} (old : id.index < before.all.size)
      (isSeen : (before.scopeAt id).node ∈ seen) :
      (after.variableIn? name id).map (·.2.value) =
        (before.variableIn? name id).map (·.2.value) := by
    unfold variableIn?
    rw [Option.map_map, Option.map_map]
    exact changes.valueOf? old (apart _ isSeen)
  have here : (after.findHere? home name reach).map (·.2.value) =
      (before.findHere? home name reach).map (·.2.value) := by
    have frame := changes.frame present
    unfold findHere?
    dsimp only
    rw [frame.globals, frame.nonlocals, frame.kind, changes.moduleScope?]
    split
    · split
      · cases found : before.moduleScope? with
        | none => rfl
        | some id => exact value (moduleScope?_eq_some.mp found).1.1 (sees.module id found)
      · rfl
    · split
      · exact value present (sees.outward home List.mem_cons_self)
      · rfl
  have around : (after.findAround? home name reach).map (·.2.value) =
      (before.findAround? home name reach).map (·.2.value) := by
    unfold findAround?
    rw [changes.around wellFormed wellFormedAfter present, List.map_findSome?, List.map_findSome?,
      ← List.head?_filterMap, ← List.head?_filterMap]
    refine congrArg List.head? (List.filterMap_congr fun outer listed => ?_)
    dsimp only [Function.comp]
    have old := wellFormed.outward_lt present (List.mem_cons_of_mem home listed)
    rw [(changes.frame old).kind]
    split
    · exact value old (sees.outward outer (List.mem_cons_of_mem _ listed))
    · rfl
  rw [lookup_of_current still.current, lookup_of_current sees.current, Option.map_or, Option.map_or,
    here, (changes.frame present).globals]
  split
  · rfl
  · rw [around]

end Scopes

end TypeInference
