import TypeInference.Proofs.Lexical
import TypeInference.Proofs.ScopeTables

/-!
# Redirected names

A statement redirects a name of a scope to the module or to a function around. Declarations and
look-ups each follow redirections in a way of their own. A declaration of a name that is redirected
to a function goes to the nearest function that has the name, or else to the nearest one, and where
there is none to the current scope; a look-up passes over the current scope and takes the first
variable that a scope around shows. And a look-up follows the redirections of the current scope
only, so that a comprehension inside of a function does not know what the function redirects.

So a variable that was just declared is found where it was declared unless its name is redirected
to a function that does not exist or that another variable is in front of, and a comprehension
means by a name what the function around it does unless that redirects it and the way outward leads
elsewhere.
-/

namespace TypeInference

namespace Scope

/-- A declaration with a known value is what the name is found with. -/
theorem find?_insert_known (scope : Scope) {declared : Variable}
    (known : declared.value.isUnknown = false) :
    ∃ found, (scope.insert declared).find? declared.name = some found ∧
      found.value = declared.value := by
  have inVariables (entries : List Variable) : ∃ found,
      ((declareIn declared entries).find? fun other => other.name = declared.name) = some found ∧
        found.value = declared.value := by
    induction entries with
    | nil => exact ⟨declared, List.find?_cons_of_pos (decide_eq_true rfl), rfl⟩
    | cons first rest inductionHypothesis =>
      rw [declareIn]
      split
      · next same =>
        refine ⟨first.refine declared, List.find?_cons_of_pos (decide_eq_true same), ?_⟩
        simp [Variable.refine, known]
      · next other =>
        rw [List.find?_cons_of_neg (by simpa using other)]
        exact inductionHypothesis
  exact inVariables scope.entries

end Scope

namespace Scopes

variable {scopes after : Scopes}

/-- No scope is there at the start. -/
theorem wellFormed_empty : Scopes.empty.WellFormed where
  opened _ listed := nomatch listed
  distinct _ _ present := nomatch present
  outward _ _ impossible := nomatch impossible
  contents _ := ⟨List.nodup_nil, List.nodup_nil⟩

/-- Whatever is done with well-formed scopes, one thing after the other, they stay so. -/
theorem WellFormed.performAll (operations : List ScopeOperation) :
    ∀ {scopes : Scopes}, scopes.WellFormed → scopes.AdmitsAll operations →
      (scopes.performAll operations).2.WellFormed := by
  induction operations with
  | nil => exact fun wellFormed _ => wellFormed
  | cons operation rest inductionHypothesis =>
    rintro scopes wellFormed ⟨admitted, restAdmitted⟩
    exact inductionHypothesis (wellFormed.perform admitted) restAdmitted

/-- Scopes that something was done to reach. -/
def reached (operations : List ScopeOperation) : Scopes :=
  (Scopes.empty.performAll operations).2

theorem wellFormed_reached {operations : List ScopeOperation}
    (admitted : Scopes.empty.AdmitsAll operations) : (reached operations).WellFormed :=
  wellFormed_empty.performAll operations admitted

/-- From a scope outward, every scope was created before those inside of it. -/
theorem WellFormed.descending (wellFormed : scopes.WellFormed) (id : ScopeId) :
    (id :: scopes.around id).Pairwise fun inner outer => outer.index < inner.index := by
  induction size : id.index using Nat.strongRecOn generalizing id with
  | _ size inductionHypothesis =>
    rw [wellFormed.around_eq]
    cases parent : (scopes.scopeAt id).parent with
    | none => exact List.pairwise_singleton ..
    | some outer =>
      have before := wellFormed.outward id outer parent
      have further := inductionHypothesis outer.index (size ▸ before) outer rfl
      refine List.pairwise_cons.mpr ⟨fun beyond listed => ?_, further⟩
      rcases List.mem_cons.mp listed with rfl | listed
      · exact before
      · exact Nat.lt_trans ((List.pairwise_cons.mp further).1 beyond listed) before

/-- A scope is not around itself. -/
theorem WellFormed.not_mem_around (wellFormed : scopes.WellFormed) (id : ScopeId) :
    id ∉ scopes.around id :=
  fun listed => Nat.lt_irrefl _ ((List.pairwise_cons.mp (wellFormed.descending id)).1 id listed)

/-- The ways outward are the same in scopes of one shape. -/
theorem SameShape.around (same : scopes.SameShape after) (id : ScopeId) :
    after.around id = scopes.around id :=
  around_congr same.size same.parent id

/-- Scopes of one shape have one scope of the module. -/
theorem SameShape.moduleScope? (same : scopes.SameShape after) :
    after.moduleScope? = scopes.moduleScope? := by
  refine Option.ext fun id => ?_
  rw [moduleScope?_eq_some, moduleScope?_eq_some]
  simp only [same.size, same.kind]

variable (scopes) in
/-- The variable of a name that a scope shows to the scopes inside of it. -/
def shown? (name : String) (id : ScopeId) : Option (ScopeId × Variable) :=
  if visibleInside .everything name (scopes.scopeAt id).kind then scopes.variableIn? name id
  else none

/-- What a scope shows is a variable of its own. -/
theorem shown?_eq_some {name : String} {id : ScopeId} {found : ScopeId × Variable}
    (given : scopes.shown? name id = some found) : scopes.variableIn? name id = some found := by
  unfold shown? at given
  split at given
  · exact given
  · cases given

/-- A function shows all that it has. -/
theorem shown?_of_function {id : ScopeId} (function : (scopes.scopeAt id).kind = .functionBody)
    (name : String) : scopes.shown? name id = scopes.variableIn? name id := by
  unfold shown?
  rw [function]
  rfl

/-- A variable of a scope is found with the scope. -/
theorem variableIn?_eq_some {name : String} {id : ScopeId} {found : ScopeId × Variable} :
    scopes.variableIn? name id = some found ↔
      found.1 = id ∧ (scopes.scopeAt id).find? name = some found.2 := by
  unfold variableIn?
  rw [Option.map_eq_some_iff]
  constructor
  · rintro ⟨declared, there, rfl⟩
    exact ⟨rfl, there⟩
  · rintro ⟨rfl, there⟩
    exact ⟨found.2, there, rfl⟩

variable (scopes) in
/-- What a name means in a scope that does not redirect it to the module. -/
def unredirected? (id : ScopeId) (name : String) : Option (ScopeId × Variable) :=
  (if name ∈ (scopes.scopeAt id).nonlocals then none else scopes.variableIn? name id).or
    ((scopes.around id).findSome? (scopes.shown? name))

variable (scopes) in
/-- What a name means in the scope of the module. -/
def inModule? (name : String) : Option (ScopeId × Variable) :=
  scopes.moduleScope?.bind (scopes.variableIn? name)

/-- What is found is found in the current scope or around it. -/
theorem lookup_of_current {id : ScopeId} (current : scopes.current? = some id) (name : String)
    (reach : Reach) : (scopes.lookup name reach).1 =
      (scopes.findHere? id name reach).or
        (if (scopes.scopeAt id).globals.contains name then none
          else scopes.findAround? id name reach) := by
  unfold lookup
  rw [current]
  dsimp only
  cases scopes.findHere? id name reach with
  | some found => rfl
  | none =>
    dsimp only
    split
    · rfl
    · cases scopes.findAround? id name reach <;> rfl

/-- What a name means in the current scope, if everything is looked at. -/
theorem lookup_everything {id : ScopeId} (current : scopes.current? = some id) (name : String) :
    (scopes.lookup name .everything).1 =
      if name ∈ (scopes.scopeAt id).globals then scopes.inModule? name
      else scopes.unredirected? id name := by
  have around : scopes.findAround? id name .everything =
    (scopes.around id).findSome? (scopes.shown? name) := rfl
  rw [lookup_of_current current, around]
  unfold findHere? unredirected? inModule?
  by_cases redirected : name ∈ (scopes.scopeAt id).globals
  · simp [redirected, Reach.everything]
  · by_cases passed : name ∈ (scopes.scopeAt id).nonlocals <;>
      simp [redirected, passed, Reach.everything]

/-- A declaration goes to the scope that the name is redirected to. -/
theorem declare_of_current {id : ScopeId} (current : scopes.current? = some id) (name : String)
    (value : Value) (kind : VariableKind) (node : Option NodeId) (span : Span) :
    scopes.declare name value kind node span =
      .ok (scopes.modifyScope (scopes.redirect id name kind).1 fun scope =>
        scope.insert { name, value, kind := (scopes.redirect id name kind).2, node, span }) := by
  unfold declare Scopes.current
  rw [current]
  rfl

/-- A change of one scope leaves what the others show. -/
theorem shown?_modifyScope {changed other : ScopeId} (apart : other ≠ changed)
    (change : Scope → Scope) (name : String) :
    (scopes.modifyScope changed change).shown? name other = scopes.shown? name other := by
  have same : (scopes.modifyScope changed change).scopeAt other = scopes.scopeAt other := by
    rw [scopeAt_modifyScope, if_neg fun both => apart both.1]
  unfold shown? variableIn?
  rw [same]

section Declared

variable {target id : ScopeId} {declared : Variable}

/-- A declaration of a known value is found in the scope that it goes to. -/
theorem variableIn?_declared (present : target.index < scopes.all.size)
    (known : declared.value.isUnknown = false) :
    ∃ found, (scopes.modifyScope target (·.insert declared)).variableIn? declared.name target =
      some (target, found) ∧ found.value = declared.value := by
  obtain ⟨found, there, same⟩ := (scopes.scopeAt target).find?_insert_known known
  refine ⟨found, variableIn?_eq_some.mpr ⟨rfl, ?_⟩, same⟩
  rw [scopeAt_modifyScope, if_pos ⟨rfl, present⟩]
  exact there

/-- A declaration edits what one scope contains. -/
theorem sameShape_declared (scopes : Scopes) (target : ScopeId) (declared : Variable) :
    scopes.SameShape (scopes.modifyScope target (·.insert declared)) :=
  .modifyScope scopes target fun _ => ⟨rfl, rfl, rfl⟩

/-- A declaration redirects nothing. -/
theorem redirections_declared (scopes : Scopes) (target id : ScopeId) (declared : Variable) :
    ((scopes.modifyScope target (·.insert declared)).scopeAt id).globals =
        (scopes.scopeAt id).globals ∧
      ((scopes.modifyScope target (·.insert declared)).scopeAt id).nonlocals =
        (scopes.scopeAt id).nonlocals := by
  rw [scopeAt_modifyScope]
  split <;> exact ⟨rfl, rfl⟩

/-- A look-up from outside of a function finds what was declared there unless a scope in front of
the function shows a variable of the name. -/
theorem findSome?_declared_iff (wellFormed : scopes.WellFormed)
    (present : target.index < scopes.all.size)
    (function : (scopes.scopeAt target).kind = .functionBody)
    (known : declared.value.isUnknown = false) :
    (∃ found, (scopes.around id).findSome?
        ((scopes.modifyScope target (·.insert declared)).shown? declared.name) =
          some (target, found) ∧ found.value = declared.value) ↔
      ∃ nearer beyond, scopes.around id = nearer ++ target :: beyond ∧
        ∀ other ∈ nearer, scopes.shown? declared.name other = none := by
  have shape := sameShape_declared scopes target declared
  have inFront {nearer beyond : List ScopeId} (path : scopes.around id = nearer ++ target :: beyond)
      {other : ScopeId} (listed : other ∈ nearer) :
      (scopes.modifyScope target (·.insert declared)).shown? declared.name other =
        scopes.shown? declared.name other := by
    refine shown?_modifyScope (fun same => ?_) _ _
    have ordered := (List.pairwise_cons.mp (wellFormed.descending id)).2
    rw [path] at ordered
    have later := (List.pairwise_append.mp ordered).2.2 other listed target List.mem_cons_self
    exact Nat.lt_irrefl _ (same ▸ later)
  constructor
  · rintro ⟨found, first, -⟩
    obtain ⟨nearer, place, beyond, path, there, before⟩ := List.findSome?_eq_some_iff.mp first
    have same : target = place := (variableIn?_eq_some.mp (shown?_eq_some there)).1
    subst same
    exact ⟨nearer, beyond, path, fun other listed => inFront path listed ▸ before other listed⟩
  · rintro ⟨nearer, beyond, path, before⟩
    obtain ⟨found, there, same⟩ := variableIn?_declared present known
    refine ⟨found, List.findSome?_eq_some_iff.mpr ⟨nearer, target, beyond, path, ?_, ?_⟩, same⟩
    · rw [shown?_of_function ((shape.kind target).trans function)]
      exact there
    · exact fun other listed => (inFront path listed).trans (before other listed)

end Declared

/-- The function that a name is redirected to is one around. -/
theorem of_enclosingFunction? {id function : ScopeId} {name : String}
    (enclosing : scopes.enclosingFunction? id name = some function) :
    function ∈ scopes.around id ∧ (scopes.scopeAt function).kind = .functionBody := by
  have listed : function ∈ (scopes.around id).filter fun outer =>
      (scopes.scopeAt outer).kind = .functionBody := by
    unfold enclosingFunction? at enclosing
    rcases Option.or_eq_some_iff.mp enclosing with having | ⟨-, nearest⟩
    · exact List.mem_of_find?_eq_some having
    · exact List.mem_of_mem_head? nearest
  obtain ⟨around, isFunction⟩ := List.mem_filter.mp listed
  exact ⟨around, of_decide_eq_true isFunction⟩

variable (scopes) in
/-- A name that is redirected to a function has one around, and no scope in front of it shows a
variable of the name. -/
def ReachesFunction (id : ScopeId) (name : String) : Prop :=
  ∃ nearer function beyond, scopes.around id = nearer ++ function :: beyond ∧
    scopes.enclosingFunction? id name = some function ∧
    ∀ other ∈ nearer, scopes.shown? name other = none

/-- A look-up around a scope finds what was declared where a name is redirected to from there, if
and only if the name reaches a function. Where there is none around, it was declared in the scope,
which is not around itself. -/
theorem findSome?_redirected_iff (wellFormed : scopes.WellFormed) {id : ScopeId}
    (present : id.index < scopes.all.size) {declared : Variable}
    (known : declared.value.isUnknown = false) :
    let target := (scopes.enclosingFunction? id declared.name).getD id
    (∃ found, (scopes.around id).findSome?
        ((scopes.modifyScope target (·.insert declared)).shown? declared.name) =
          some (target, found) ∧ found.value = declared.value) ↔
      scopes.ReachesFunction id declared.name := by
  intro target
  cases enclosing : scopes.enclosingFunction? id declared.name with
  | none =>
    have itself : target = id := congrArg (·.getD id) enclosing
    refine iff_of_false ?_ fun ⟨_, _, _, _, impossible, _⟩ => ?_
    · rintro ⟨found, first, -⟩
      obtain ⟨outer, around, shown⟩ := List.exists_of_findSome?_eq_some first
      have same : target = outer := (variableIn?_eq_some.mp (shown?_eq_some shown)).1
      have isOuter : outer = id := same.symm.trans itself
      exact wellFormed.not_mem_around id (isOuter ▸ around)
    · cases enclosing.symm.trans impossible
  | some function =>
    have isTarget : target = function := congrArg (·.getD id) enclosing
    obtain ⟨around, isFunction⟩ := of_enclosingFunction? enclosing
    have functionPresent : function.index < scopes.all.size :=
      Nat.lt_trans ((List.pairwise_cons.mp (wellFormed.descending id)).1 function around) present
    rw [isTarget, findSome?_declared_iff wellFormed functionPresent isFunction known]
    constructor
    · rintro ⟨nearer, beyond, path, before⟩
      exact ⟨nearer, function, beyond, path, enclosing, before⟩
    · rintro ⟨nearer, other, beyond, path, same, before⟩
      cases enclosing.symm.trans same
      exact ⟨nearer, beyond, path, before⟩

/-- From an existing scope outward there are existing scopes only. -/
theorem WellFormed.outermost_lt (wellFormed : scopes.WellFormed) {id : ScopeId}
    (present : id.index < scopes.all.size) :
    ((scopes.around id).getLastD id).index < scopes.all.size := by
  have listed : (scopes.around id).getLastD id ∈ id :: scopes.around id := List.getLastD_mem_cons
  rcases List.mem_cons.mp listed with same | around
  · rw [same]
    exact present
  · exact Nat.lt_trans ((List.pairwise_cons.mp (wellFormed.descending id)).1 _ around) present

/-- Where one exists, one of the scopes is that of the module. -/
theorem moduleScope?_of_kind {id : ScopeId} (present : id.index < scopes.all.size)
    (kind : (scopes.scopeAt id).kind = .module) : ∃ module, scopes.moduleScope? = some module := by
  cases found : scopes.moduleScope? with
  | some module => exact ⟨module, rfl⟩
  | none =>
    have none := Array.findIdx?_eq_none_iff.mp (Option.map_eq_none_iff.mp found)
    have other := none _ (Array.getElem_mem present)
    rw [scopeAt, Array.getElem?_eq_getElem present] at kind
    exact absurd kind (of_decide_eq_false other)

/-- Where a declaration goes. -/
theorem redirect_fst (scopes : Scopes) (id : ScopeId) (name : String) (kind : VariableKind) :
    (scopes.redirect id name kind).1 =
      if name ∈ (scopes.scopeAt id).globals then scopes.moduleScope?.getD id
      else if name ∈ (scopes.scopeAt id).nonlocals then
        (scopes.enclosingFunction? id name).getD id
      else id := by
  unfold redirect
  by_cases redirected : name ∈ (scopes.scopeAt id).globals
  · simp [redirected]
  · by_cases passed : name ∈ (scopes.scopeAt id).nonlocals <;> simp [redirected, passed]

/-- A declaration from an existing scope goes to one. -/
theorem WellFormed.redirect_lt (wellFormed : scopes.WellFormed) {id : ScopeId}
    (present : id.index < scopes.all.size) (name : String) (kind : VariableKind) :
    (scopes.redirect id name kind).1.index < scopes.all.size := by
  rw [redirect_fst]
  split
  · cases found : scopes.moduleScope? with
    | none => exact present
    | some module => exact (moduleScope?_eq_some.mp found).1.1
  · split
    · cases found : scopes.enclosingFunction? id name with
      | none => exact present
      | some function =>
        have outward := (List.pairwise_cons.mp (wellFormed.descending id)).1 function
          (of_enclosingFunction? found).1
        exact Nat.lt_trans outward present
    · exact present

/-- After a declaration with a known value, a look-up from the same scope finds what was declared
where it was declared, if and only if no redirection to a function leads astray: the name is not
redirected to a function, or it is redirected to the module too, or it reaches the function that it
is redirected to.

Proof: a name that is redirected to the module is declared and looked up in the scope of the
module, and one that is not redirected in the current scope, before any other. A name that is
redirected to a function is looked up around the current scope. Where there is no function around,
it was declared in the current scope, which is not around itself; otherwise the first scope around
that shows the name is the function, or one in front of it. -/
theorem lookup_declared_iff {operations : List ScopeOperation}
    (admitted : Scopes.empty.AdmitsAll operations) {id : ScopeId}
    (current : (reached operations).current? = some id)
    (ends : ((reached operations).scopeAt
      (((reached operations).around id).getLastD id)).kind = .module)
    (name : String) {value : Value} (known : value.isUnknown = false) (kind : VariableKind)
    (node : Option NodeId) (span : Span) :
    let scopes := reached operations
    let target := (scopes.redirect id name kind).1
    ∃ after, scopes.declare name value kind node span = .ok after ∧
      (∀ other, other ≠ target → after.scopeAt other = scopes.scopeAt other) ∧
      (∃ found, (after.scopeAt target).find? name = some found ∧ found.value = value) ∧
      ((∃ found, (after.lookup name .everything).1 = some (target, found) ∧ found.value = value) ↔
        (name ∈ (scopes.scopeAt id).nonlocals → name ∉ (scopes.scopeAt id).globals →
          scopes.ReachesFunction id name)) := by
  intro scopes target
  have wellFormed : scopes.WellFormed := wellFormed_reached admitted
  have present : id.index < scopes.all.size :=
    wellFormed.opened id (List.mem_of_mem_head? current)
  obtain ⟨module, isModule⟩ := moduleScope?_of_kind (wellFormed.outermost_lt present) ends
  let declared : Variable := { name, value, kind := (scopes.redirect id name kind).2, node, span }
  have declaredKnown : declared.value.isUnknown = false := known
  let after := scopes.modifyScope target (·.insert declared)
  have shape : scopes.SameShape after := sameShape_declared scopes target declared
  obtain ⟨globals, nonlocals⟩ := redirections_declared scopes target id declared
  have written : ∃ found, after.variableIn? name target = some (target, found) ∧
      found.value = value :=
    variableIn?_declared (wellFormed.redirect_lt present name kind) known
  obtain ⟨found, there, same⟩ := written
  have meaning := lookup_everything (show after.current? = some id from current) name
  unfold unredirected? at meaning
  rw [globals, nonlocals, shape.around] at meaning
  have goes : target = _ := redirect_fst scopes id name kind
  refine ⟨after, declare_of_current current name value kind node span, ?_, ?_, ?_⟩
  · intro other apart
    exact (scopeAt_modifyScope ..).trans (if_neg fun both => apart both.1)
  · exact ⟨found, (variableIn?_eq_some.mp there).2, same⟩
  rw [meaning]
  by_cases toModule : name ∈ (scopes.scopeAt id).globals
  · refine iff_of_true ⟨found, ?_, same⟩ fun _ other => absurd toModule other
    rw [if_pos toModule, isModule, Option.getD_some] at goes
    rw [if_pos toModule, inModule?, shape.moduleScope?, isModule, ← goes]
    exact there
  rw [if_neg toModule] at goes ⊢
  by_cases toFunction : name ∈ (scopes.scopeAt id).nonlocals
  · rw [if_pos toFunction] at goes ⊢
    rw [Option.none_or]
    have reaches := findSome?_redirected_iff wellFormed present declaredKnown
    rw [← goes] at reaches
    exact reaches.trans ⟨fun path _ _ => path, fun path => path toFunction toModule⟩
  · refine iff_of_true ⟨found, ?_, same⟩ fun other => absurd other toFunction
    rw [if_neg toFunction] at goes ⊢
    rw [← goes, there]
    rfl

/-- A name of a function inside of a class inside of another function, which is redirected to the
outer one. -/
theorem lookup_declared_outer_function :
    let operations : List ScopeOperation := [.push ⟨0⟩ .module none, .push ⟨1⟩ .functionBody none,
      .declare "total" .unknown .parameter none default, .push ⟨2⟩ .classBody none,
      .push ⟨3⟩ .functionBody none, .declareNonlocal "total"]
    let value := Store.constantObject (.int 1)
    ∃ after, (reached operations).declare "total" value .local none default = .ok after ∧
      ∃ found, (after.lookup "total" .everything).1 = some (⟨1⟩, found) ∧ found.value = value := by
  intro operations value
  have admitted : Scopes.empty.AdmitsAll operations := by decide +kernel
  have current : (reached operations).current? = some ⟨3⟩ := by decide +kernel
  have target : ((reached operations).redirect ⟨3⟩ "total" .local).1 = ⟨1⟩ := by decide +kernel
  have reaches : (reached operations).ReachesFunction ⟨3⟩ "total" := by
    refine ⟨[⟨2⟩], ⟨1⟩, [⟨0⟩], by decide +kernel, by decide +kernel, fun other listed => ?_⟩
    cases List.mem_singleton.mp listed
    exact Option.isNone_iff_eq_none.mp (by decide +kernel)
  obtain ⟨after, declared, -, -, finds⟩ := lookup_declared_iff admitted current
    (by decide +kernel) "total" (show value.isUnknown = false from rfl) .local none default
  exact ⟨after, declared, target ▸ finds.mpr fun _ _ => reaches⟩

/-- A name that is redirected to a function although there is none around is declared in the
current scope, and not found there. -/
theorem lookup_declared_no_function :
    let operations : List ScopeOperation := [.push ⟨0⟩ .module none, .push ⟨1⟩ .functionBody none,
      .declareNonlocal "total"]
    let scopes := reached operations
    let value := Store.constantObject (.int 1)
    Scopes.empty.AdmitsAll operations ∧ scopes.current? = some ⟨1⟩ ∧
      (scopes.scopeAt ((scopes.around ⟨1⟩).getLastD ⟨1⟩)).kind = .module ∧
      value.isUnknown = false ∧
      ∃ after, scopes.declare "total" value .local none default = .ok after ∧
        (scopes.redirect ⟨1⟩ "total" .local).1 = ⟨1⟩ ∧
        ((after.scopeAt ⟨1⟩).find? "total").isSome = true ∧
        (after.lookup "total" .everything).1.isNone = true := by
  intro operations scopes value
  have current : scopes.current? = some ⟨1⟩ := by decide +kernel
  have declared := declare_of_current current "total" value .local none default
  refine ⟨by decide +kernel, current, by decide +kernel, rfl, _, declared, ?_⟩
  decide +kernel

variable (scopes) in
/-- A comprehension inside of a function, directly or inside of others, none of which has a variable
of a name. -/
inductive Transparent (name : String) (function : ScopeId) : ScopeId → Prop where
  | direct {id : ScopeId} (comprehension : (scopes.scopeAt id).kind = .comprehension)
      (unbound : (scopes.scopeAt id).find? name = none)
      (parent : (scopes.scopeAt id).parent = some function) : Transparent name function id
  | further {id outer : ScopeId} (comprehension : (scopes.scopeAt id).kind = .comprehension)
      (unbound : (scopes.scopeAt id).find? name = none)
      (parent : (scopes.scopeAt id).parent = some outer)
      (around : Transparent name function outer) : Transparent name function id

variable (scopes) in
/-- The first variable of a name that a scope or one around it shows. -/
def outward? (id : ScopeId) (name : String) : Option (ScopeId × Variable) :=
  (id :: scopes.around id).findSome? (scopes.shown? name)

/-- Without a variable of a name there is none to be found or shown. -/
theorem variableIn?_of_unbound {name : String} {id : ScopeId}
    (unbound : (scopes.scopeAt id).find? name = none) :
    scopes.variableIn? name id = none ∧ scopes.shown? name id = none := by
  have none : scopes.variableIn? name id = none := Option.map_eq_none_iff.mpr unbound
  refine ⟨none, ?_⟩
  unfold shown?
  rw [none, ite_self]

/-- A comprehension that does not redirect a name to the module looks past itself. -/
theorem Transparent.unredirected?_eq (wellFormed : scopes.WellFormed) {name : String}
    {function inner : ScopeId} (inside : scopes.Transparent name function inner) :
    scopes.unredirected? inner name = scopes.outward? function name := by
  have around : (scopes.around inner).findSome? (scopes.shown? name) =
      scopes.outward? function name := by
    induction inside with
    | direct _ _ parent => rw [wellFormed.around_eq, parent, outward?]
    | further _ _ parent around inductionHypothesis =>
      rw [wellFormed.around_eq, parent, List.findSome?_cons]
      have unbound := match around with
        | .direct _ unbound _ | .further _ unbound _ _ => unbound
      rw [(variableIn?_of_unbound unbound).2]
      exact inductionHypothesis
  have unbound := match inside with
    | .direct _ unbound _ | .further _ unbound _ _ => unbound
  unfold unredirected?
  rw [(variableIn?_of_unbound unbound).1, ite_self, Option.none_or]
  exact around

variable (scopes) in
/-- What a comprehension inside of a function, and the function, redirect makes no difference to
what a name means: where one of the two redirects it to the module, what is found outward is what
is found in the module; otherwise a name that the function redirects to one around is no variable
of its own. -/
def RedirectAlike (inner function : ScopeId) (name : String) : Prop :=
  if name ∈ (scopes.scopeAt inner).globals then
    name ∉ (scopes.scopeAt function).globals →
      scopes.inModule? name = scopes.unredirected? function name
  else if name ∈ (scopes.scopeAt function).globals then
    scopes.outward? function name = scopes.inModule? name
  else
    name ∈ (scopes.scopeAt function).nonlocals →
      (scopes.scopeAt function).find? name = none

/-- A function that redirects a name to one around looks past its own variable, which it is not to
have if it is to mean what is found outward. -/
theorem outward?_eq_unredirected?_iff (wellFormed : scopes.WellFormed) {function : ScopeId}
    (isFunction : (scopes.scopeAt function).kind = .functionBody) (name : String) :
    scopes.outward? function name = scopes.unredirected? function name ↔
      (name ∈ (scopes.scopeAt function).nonlocals →
        (scopes.scopeAt function).find? name = none) := by
  have split : scopes.outward? function name = (scopes.variableIn? name function).or
      ((scopes.around function).findSome? (scopes.shown? name)) := by
    unfold outward?
    rw [List.findSome?_cons, shown?_of_function isFunction]
    cases scopes.variableIn? name function <;> rfl
  rw [split, unredirected?]
  split
  · next redirected =>
    rw [Option.none_or]
    cases bound : (scopes.scopeAt function).find? name with
    | none =>
      rw [(variableIn?_of_unbound bound).1, Option.none_or]
      exact iff_of_true rfl fun _ => rfl
    | some found =>
      have here : scopes.variableIn? name function = some (function, found) :=
        variableIn?_eq_some.mpr ⟨rfl, bound⟩
      rw [here]
      refine iff_of_false (fun same => ?_) fun impossible => nomatch impossible redirected
      obtain ⟨outer, around, shown⟩ := List.exists_of_findSome?_eq_some same.symm
      have itself : function = outer := (variableIn?_eq_some.mp (shown?_eq_some shown)).1
      exact wellFormed.not_mem_around function (itself ▸ around)
  · next other => exact iff_of_true rfl fun redirected => absurd redirected other

/-- From a comprehension inside of a function a name that no comprehension there has a variable of
means what it means in the function, if and only if what the two redirect makes no difference.

Proof: from the comprehension, the way outward leads past comprehensions that show nothing to the
function, whatever the function redirects. From the function it begins behind the function if that
redirects the name to a function around, and it is not taken if it redirects it to the module. -/
theorem lookup_in_comprehension_iff {operations : List ScopeOperation}
    (admitted : Scopes.empty.AdmitsAll operations) {inner function : ScopeId}
    (current : (reached operations).current? = some inner) {name : String}
    (isFunction : ((reached operations).scopeAt function).kind = .functionBody)
    (inside : (reached operations).Transparent name function inner) :
    let scopes := reached operations
    (scopes.lookup name .everything).1 =
        ((scopes.withStack (function :: scopes.stack)).lookup name .everything).1 ↔
      scopes.RedirectAlike inner function name := by
  intro scopes
  have wellFormed : scopes.WellFormed := wellFormed_reached admitted
  let opened := scopes.withStack (function :: scopes.stack)
  have fromFunction : (opened.lookup name .everything).1 =
      if name ∈ (scopes.scopeAt function).globals then scopes.inModule? name
      else scopes.unredirected? function name := by
    have same : opened.unredirected? function name = scopes.unredirected? function name := by
      unfold unredirected?
      rw [around_withStack]
      rfl
    exact (lookup_everything rfl name).trans (congrArg (ite _ _) same)
  have fromInner : (scopes.lookup name .everything).1 =
      if name ∈ (scopes.scopeAt inner).globals then scopes.inModule? name
      else scopes.outward? function name :=
    inside.unredirected?_eq wellFormed ▸ lookup_everything current name
  rw [fromInner, fromFunction, RedirectAlike]
  by_cases inComprehension : name ∈ (scopes.scopeAt inner).globals
  · by_cases inFunction : name ∈ (scopes.scopeAt function).globals <;>
      simp [inComprehension, inFunction]
  · rw [if_neg inComprehension, if_neg inComprehension]
    by_cases inFunction : name ∈ (scopes.scopeAt function).globals
    · rw [if_pos inFunction, if_pos inFunction]
    · rw [if_neg inFunction, if_neg inFunction]
      exact outward?_eq_unredirected?_iff wellFormed isFunction name

/-- A name that a function redirects to the one around it, in a comprehension inside of a
comprehension. -/
theorem lookup_in_comprehension_nested :
    let operations : List ScopeOperation := [.push ⟨0⟩ .module none, .push ⟨1⟩ .functionBody none,
      .declare "total" (Store.constantObject (.int 1)) .local none default,
      .push ⟨2⟩ .functionBody none, .declareNonlocal "total", .push ⟨3⟩ .comprehension none,
      .push ⟨4⟩ .comprehension none]
    let scopes := reached operations
    (scopes.lookup "total" .everything).1 =
        ((scopes.withStack (⟨2⟩ :: scopes.stack)).lookup "total" .everything).1 ∧
      ((scopes.lookup "total" .everything).1.map (·.1)) = some ⟨1⟩ := by
  intro operations scopes
  have unbound (id : ScopeId) (none : ((scopes.scopeAt id).find? "total").isNone = true) :
      (scopes.scopeAt id).find? "total" = .none := Option.isNone_iff_eq_none.mp none
  have inside : scopes.Transparent "total" ⟨2⟩ ⟨4⟩ :=
    .further (by decide +kernel) (unbound ⟨4⟩ (by decide +kernel)) (by decide +kernel)
      (.direct (by decide +kernel) (unbound ⟨3⟩ (by decide +kernel)) (by decide +kernel))
  have alike : scopes.RedirectAlike ⟨4⟩ ⟨2⟩ "total" := by
    unfold RedirectAlike
    rw [if_neg (by decide +kernel), if_neg (by decide +kernel)]
    exact fun _ => unbound ⟨2⟩ (by decide +kernel)
  refine ⟨(lookup_in_comprehension_iff (by decide +kernel) (by decide +kernel)
    (by decide +kernel) inside).mpr alike, by decide +kernel⟩

/-- A function redirects a name to the module that the function around it has a variable of: in a
comprehension, it means that variable. -/
theorem lookup_in_comprehension_global :
    let operations : List ScopeOperation := [.push ⟨0⟩ .module none,
      .declare "total" (Store.constantObject (.int 1)) .local none default,
      .push ⟨1⟩ .functionBody none,
      .declare "total" (Store.constantObject (.str "s")) .local none default,
      .push ⟨2⟩ .functionBody none, .declareGlobal "total", .push ⟨3⟩ .comprehension none]
    let scopes := reached operations
    Scopes.empty.AdmitsAll operations ∧ scopes.current? = some ⟨3⟩ ∧
      (scopes.scopeAt ⟨2⟩).kind = .functionBody ∧ scopes.Transparent "total" ⟨2⟩ ⟨3⟩ ∧
      scopes.moduleScope?.isSome = true ∧
      ((scopes.lookup "total" .everything).1.map (·.1)) = some ⟨1⟩ ∧
      ((scopes.withStack (⟨2⟩ :: scopes.stack)).lookup "total" .everything).1.map (·.1) =
        some ⟨0⟩ := by
  intro operations scopes
  have unbound : (scopes.scopeAt ⟨3⟩).find? "total" = none :=
    Option.isNone_iff_eq_none.mp (by decide +kernel)
  exact ⟨by decide +kernel, by decide +kernel, by decide +kernel,
    .direct (by decide +kernel) unbound (by decide +kernel), by decide +kernel,
    by decide +kernel, by decide +kernel⟩

end Scopes

end TypeInference
