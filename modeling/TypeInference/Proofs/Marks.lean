import TypeInference.Proofs.Evaluations
import TypeInference.Proofs.Operations
import TypeInference.Proofs.Phrases
import TypeInference.Proofs.Settling

/-!
# What a failure leaves marked

An overload is marked as being evaluated before its parameters and body are evaluated, and a class
is remembered for its node before its bases and its body are. A failure takes no mark back. From
then on the overload is taken for one that is being evaluated further out, and the class for one
that was declared: whatever is asked later goes past them, and nothing completes them.
-/

namespace TypeInference

open Analysis

namespace Symbols

/-- A function stays declared when another one is. -/
theorem isSome_function?_insert (symbols : Symbols) (entry : FunctionEntry) {node : NodeId}
    (declared : (symbols.function? node).isSome) :
    ((symbols.insert entry).function? node).isSome := by
  unfold function? insert at *
  rw [Array.toList_push, List.reverse_append, List.reverse_singleton, List.singleton_append,
    List.find?_cons]
  split
  · rfl
  · exact declared

/-- A class stays declared when another one is. -/
theorem isSome_class?_insertClass (symbols : Symbols) (inserted : NodeId) (id : ClassId)
    {node : NodeId} (declared : (symbols.class? node).isSome) :
    ((symbols.insertClass inserted id).class? node).isSome := by
  unfold class? insertClass at *
  rw [OrderedTable.find?_put]
  split
  · rfl
  · exact declared

end Symbols

/-- What is being evaluated or declared before an analysis still is so after it. -/
structure Progress.Marks (before after : Progress) : Prop where
  evaluating : ∀ id, (before.store.overloadAt id).state = .evaluating →
    (after.store.overloadAt id).state = .evaluating
  functions : ∀ node, (before.symbols.function? node).isSome →
    (after.symbols.function? node).isSome
  classes : ∀ node, (before.symbols.class? node).isSome → (after.symbols.class? node).isSome

namespace Progress.Marks

variable {before middle after : Progress}

theorem refl (progress : Progress) : progress.Marks progress :=
  ⟨fun _ => id, fun _ => id, fun _ => id⟩

theorem trans (earlier : before.Marks middle) (later : middle.Marks after) :
    before.Marks after where
  evaluating id state := later.evaluating id (earlier.evaluating id state)
  functions node declared := later.functions node (earlier.functions node declared)
  classes node declared := later.classes node (earlier.classes node declared)

/-- What changes neither an overload nor a declaration. -/
theorem of_same (functions : after.store.functions = before.store.functions)
    (symbols : after.symbols = before.symbols) : before.Marks after := by
  have overloadAt (id : OverloadId) : after.store.overloadAt id = before.store.overloadAt id := by
    unfold Store.overloadAt Store.functionAt
    rw [functions]
  exact ⟨fun id state => by rwa [overloadAt], fun _ => by rw [symbols]; exact id,
    fun _ => by rw [symbols]; exact id⟩

/-- A store whose overloads are as far evaluated as they were, or evaluated from being pending. -/
theorem of_states {store : Store}
    (states : ∀ id, (before.store.overloadAt id).state = .evaluating →
      (store.overloadAt id).state = .evaluating) : before.Marks { before with store } :=
  ⟨states, fun _ => id, fun _ => id⟩

end Progress.Marks

namespace Analysis

variable {α β : Type}

/-- An analysis that takes no mark back, also when it fails. -/
def KeepsMarks (analysis : Analysis α) : Prop :=
  ∀ (environment : Environment) (before : Progress),
    before.Marks (analysis.after environment before)

namespace KeepsMarks

/-- What a failure leaves is marked as it was before. -/
theorem of_error {analysis : Analysis α} (keeps : analysis.KeepsMarks)
    {environment : Environment} {before left : Progress} {failure : Failure}
    (failed : analysis environment before = .error failure left) : before.Marks left := by
  have marks := keeps environment before
  rwa [after, failed] at marks

theorem of_ok {analysis : Analysis α} (keeps : analysis.KeepsMarks)
    {environment : Environment} {before after : Progress} {result : α}
    (returned : analysis environment before = .ok result after) : before.Marks after := by
  have marks := keeps environment before
  rwa [after_of_ok returned] at marks

/-- What changes neither an overload nor a declaration. -/
theorem of_same {analysis : Analysis α}
    (functions : ∀ environment before,
      (analysis.after environment before).store.functions = before.store.functions)
    (symbols : ∀ environment before,
      (analysis.after environment before).symbols = before.symbols) : analysis.KeepsMarks :=
  fun environment before => .of_same (functions environment before) (symbols environment before)

theorem pure (result : α) : (Pure.pure result : Analysis α).KeepsMarks :=
  fun _ => .refl

theorem throw (failure : Failure) : (throw failure : Analysis α).KeepsMarks :=
  fun _ => .refl

theorem bind {first : Analysis α} {next : α → Analysis β} (keeps : first.KeepsMarks)
    (onwards : ∀ result, (next result).KeepsMarks) : (first >>= next).KeepsMarks := by
  intro environment before
  have earlier := keeps environment before
  rcases after_bind_cases first next environment before with ⟨_, stops⟩ | ⟨result, _, goesOn⟩
  · exact stops ▸ earlier
  · rw [goesOn]
    exact earlier.trans (onwards result environment _)

theorem store : Analysis.store.KeepsMarks :=
  fun _ => .refl

/-- A change of the store that leaves the functions alone. -/
theorem modifyStore {change : Store → Store}
    (functions : ∀ store, (change store).functions = store.functions) :
    (Analysis.modifyStore change).KeepsMarks :=
  .of_same (fun _ before => functions before.store) fun _ _ => rfl

theorem onStore {change : Store → α × Store}
    (functions : ∀ store, (change store).2.functions = store.functions) :
    (Analysis.onStore change).KeepsMarks :=
  .of_same (fun _ before => functions before.store) fun _ _ => rfl

/-- A change of functions that leaves all overloads as far evaluated as they are. -/
theorem modifyStates {change : Store → Store} (settles : ∀ store, ∀ id,
    (store.overloadAt id).state = .evaluating →
      ((change store).overloadAt id).state = .evaluating) :
    (Analysis.modifyStore change).KeepsMarks :=
  fun _ before => .of_states (settles before.store)

theorem changeScopes (change : Scopes → Except Fault Scopes) :
    (Analysis.changeScopes change).KeepsMarks := by
  intro environment before
  obtain ⟨scopes, left⟩ := after_changeScopes change environment before
  rw [left]
  exact .of_same rfl rfl

theorem lookupName? (name : String) (reach : Reach) :
    (Analysis.lookupName? name reach).KeepsMarks := by
  intro environment before
  obtain ⟨scopes, left⟩ := after_lookupName? name reach environment before
  rw [left]
  exact .of_same rfl rfl

theorem currentScope {next : ScopeId → Analysis α} (keeps : ∀ id, (next id).KeepsMarks) :
    (do next (← orFault (← scopes).current)).KeepsMarks := by
  refine .bind (fun _ => .refl) fun scopes => .bind ?_ keeps
  cases scopes.current with
  | ok id => exact .pure id
  | error fault => exact .throw _

/-- A change that is made in any case, and that takes no mark back. -/
theorem withCleanup {body : Analysis α} (keeps : body.KeepsMarks)
    {change : Progress → Progress} (cleans : ∀ progress : Progress, progress.Marks (change progress)) :
    (Analysis.withCleanup body change).KeepsMarks := by
  intro environment before
  rw [after_withCleanup]
  exact (keeps environment before).trans (cleans _)

theorem inScope {node : NodeId} {kind : ScopeKind} {parent : Option ScopeId}
    {body : ScopeId → Analysis α} (keeps : ∀ id, (body id).KeepsMarks) :
    (Analysis.inScope node kind parent body).KeepsMarks := by
  intro environment before
  have opened : before.Marks
      { before with scopes := (before.scopes.push node kind parent).2 } := .of_same rfl rfl
  have closed : (Analysis.withCleanup (body (before.scopes.push node kind parent).1) fun after =>
      { after with scopes := after.scopes.truncate before.scopes.depth }).KeepsMarks :=
    withCleanup (keeps _) fun _ => .of_same rfl rfl
  exact opened.trans (closed environment _)

variable {id : OverloadId} {entry : FunctionEntry} {body : ScopeId → Analysis Unit}

/-- An overload is marked, and the mark is replaced if nothing fails. -/
theorem evaluation_cases (id : OverloadId) (entry : FunctionEntry) (keeps : ∀ scope, (body scope).KeepsMarks) (environment : Environment)
    (before : Progress) :
    let begun : Progress := { before with
      store := before.store.modifyOverload id fun overload => { overload with state := .evaluating } }
    let outcome := (do
      Engine.changeOverload id fun overload => { overload with state := .evaluating }
      Analysis.inScope entry.definition.id .functionBody (some entry.scope) fun scope => do
        body scope
        Engine.changeOverload id fun overload => { overload with state := .evaluated } :
          Analysis Unit) environment before
    (∃ made scopes, begun.Marks made ∧ outcome = .ok () { made with
      store := made.store.modifyOverload id fun overload => { overload with state := .evaluated }
      scopes }) ∨
    ∃ failure left, begun.Marks left ∧ outcome = .error failure left := by
  intro begun outcome
  let scope := (before.scopes.push entry.definition.id .functionBody (some entry.scope)).1
  let opened : Progress := { begun with
    scopes := (before.scopes.push entry.definition.id .functionBody (some entry.scope)).2 }
  let close (after : Progress) : Progress :=
    { after with scopes := after.scopes.truncate before.scopes.depth }
  have opens : begun.Marks opened := .of_same rfl rfl
  have inside : outcome = Analysis.withCleanup (do
      body scope
      Engine.changeOverload id fun overload => { overload with state := .evaluated }) close
        environment opened := by
    simp only [outcome, bind_apply, Engine.changeOverload, modifyStore_apply, inScope_apply]
    rfl
  cases found : body scope environment opened with
  | ok result made =>
    refine .inl ⟨made, (close made).scopes, opens.trans ((keeps scope).of_ok found), ?_⟩
    rw [inside, withCleanup_of_ok (by rw [bind_of_ok found]; rfl)]
  | error failure left =>
    refine .inr ⟨failure, close left, ?_, ?_⟩
    · exact (opens.trans ((keeps scope).of_error found)).trans (.of_same rfl rfl)
    · rw [inside, withCleanup_of_error (bind_of_error found _)]

/-- An overload that waits is evaluated. Meanwhile it is marked, but it was not before. -/
theorem evaluation (id : OverloadId) (entry : FunctionEntry)
    (keeps : ∀ scope, (body scope).KeepsMarks) :
    (Engine.whenPending id do
      Engine.changeOverload id fun overload => { overload with state := .evaluating }
      Analysis.inScope entry.definition.id .functionBody (some entry.scope) fun scope => do
        body scope
        Engine.changeOverload id fun overload =>
          { overload with state := .evaluated }).KeepsMarks := by
  intro environment before
  by_cases pending : (before.store.overloadAt id).state = .pending
  · have begins : before.Marks { before with
        store := before.store.modifyOverload id fun overload =>
          { overload with state := .evaluating } } := by
      refine .of_states fun other state => ?_
      rw [Store.overloadAt_modifyOverload]
      split
      · rfl
      · exact state
    unfold after
    rw [Engine.whenPending_of_pending pending]
    rcases evaluation_cases id entry keeps environment before with
      ⟨made, scopes, marks, ended⟩ | ⟨failure, left, marks, ended⟩
    · have kept := begins.trans marks
      rw [ended]
      refine ⟨fun other state => ?_, kept.functions, kept.classes⟩
      have apart : other ≠ id := by
        rintro rfl
        rw [pending] at state
        cases state
      dsimp only
      rw [Store.overloadAt_modifyOverload, if_neg fun reached => apart reached.1]
      exact kept.evaluating other state
    · rw [ended]
      exact begins.trans marks
  · unfold after
    rw [Engine.whenPending_of_not_pending pending]
    exact .refl before

theorem setAttribute (owner : ClassId) (name : String) (value : Value) :
    (Analysis.setAttribute owner name value).KeepsMarks := by
  refine .modifyStore fun store => ?_
  change (store.withAttribute owner name value).functions = store.functions
  rcases store.withAttribute_cases owner name value with same | added
  · rw [same]
  · rw [added, Store.addMember_eq]
    rfl

/-- A class is created, and declared. -/
theorem createClass (definition : ClassDefinition) :
    (Engine.createClass definition).KeepsMarks := by
  intro environment before
  obtain ⟨qualifiedName, created⟩ := Engine.createClass_apply definition environment before
  rw [after_of_ok created]
  exact ⟨fun _ => id, fun _ => id, fun _ => Symbols.isSome_class?_insertClass _ _ _⟩

theorem giveBases {engine : Engine} (id : ClassId) {bases : List Expression}
    (keeps : (engine.evaluateBases bases).KeepsMarks) : (engine.giveBases id bases).KeepsMarks :=
  .bind keeps fun _ => .modifyStore fun _ => rfl

end KeepsMarks

end Analysis

/-- To take no mark back. -/
def Discipline.marking : Discipline where
  World := Unit
  Holds _ _ analysis := analysis.KeepsMarks
  MayOwn _ _ := True
  IsDefined _ _ := True
  MayChange _ := True
  MayRecord _ := True
  pure _ _ := .pure
  throw _ _ := .throw
  bind := .bind
  store _ := .store
  options _ _ := .refl
  lookupName? _ := .lookupName?
  declare _ _ _ _ _ _ := .changeScopes _
  redirectGlobal _ _ := .changeScopes _
  redirectNonlocal _ _ := .changeScopes _
  qualifiedName _ _ := .of_same (fun _ _ => rfl) fun _ _ => rfl
  report _ _ _ := .of_same (fun _ _ => rfl) fun _ _ => rfl
  read _ keeps := .bind (fun _ => .refl) keeps
  currentScope := .currentScope
  globals _ _ := .of_same (fun _ _ => rfl) fun _ _ => rfl
  inScope := .inScope
  clearVariables _ _ := .of_same (fun _ _ => rfl) fun _ _ => rfl
  insertEntry _ entry _ _ :=
    ⟨fun _ => id, fun _ => Symbols.isSome_function?_insert _ entry, fun _ => id⟩
  createFunction {_ _} definition {owner} qualifiedName {_} _ onwards := .bind
    (fun _ before => .of_states fun id state => by
      have old : id.function ≠ before.store.nextFunction := fun new => by
        have missing := Store.functionAt_of_not_hasFunction before.store
          before.store.nextFunction (Nat.lt_irrefl _)
        rw [Store.overloadAt, new, missing] at state
        cases state
      change (Store.overloadAt (before.store.addFunction _).2 id).state = .evaluating
      rwa [Store.overloadAt, Store.functionAt_addFunction_eq, if_neg old])
    fun id => onwards id trivial
  changeFunction {_ function _} _ same := .modifyStates fun store id state => by
    rw [Store.overloadAt, Store.functionAt_modifyFunction_eq]
    split
    · rwa [(same store _).2]
    · exact state
  changeOverload {_ id _} _ same := .modifyStates fun store other state => by
    rw [Store.overloadAt_modifyOverload]
    split
    · exact (same _).trans state
    · exact state
  evaluation {_ id} entry {_} _ keeps := .evaluation id entry (keeps trivial)
  setMember _ _ _ _ := .modifyStore fun store => by rw [Store.addMember_eq]; rfl
  setAttribute {_ owner} name value _ := .setAttribute owner name value
  createClass {_ _ _} definition {_ _} based onwards :=
    .bind (.createClass definition) fun id => .bind (.giveBases id (based ())) fun _ =>
      onwards () id trivial
  readDefinition {_ _} _ {_} onwards := .bind .store fun store =>
    onwards () store fun _ => ⟨trivial, trivial⟩
  readOwner {_ _ _ _} _ onwards := .bind .store fun store =>
    onwards () store fun _ _ => trivial

/-- What keeps the discipline of marks takes none back. -/
theorem Analysis.Keeps.keepsMarks {α : Type} {analysis : Analysis α}
    (keeps : analysis.Keeps .marking ()) : analysis.KeepsMarks :=
  keeps

namespace Engine

variable {engine : Engine}

theorem copyMembers_marking (follows : engine.Follows .marking) (bindings : Bindings)
    (target : ClassId) (members : List (String × Value)) :
    (engine.copyMembers bindings target members).KeepsMarks := by
  induction members with
  | nil => exact .pure ()
  | cons member rest inductionHypothesis =>
    exact .bind (substitute_keeps follows bindings member.2).keepsMarks fun _ =>
      .bind (.modifyStore fun store => by rw [Store.addMember_eq]; rfl) fun _ =>
        inductionHypothesis

theorem makeSpecialization_marking (follows : engine.Follows .marking) (template : ClassId)
    (evidence : Evidence) : (engine.makeSpecialization template evidence).KeepsMarks := by
  have materialized (placeholder : ClassId) :
      (engine.materialize template placeholder evidence).KeepsMarks :=
    .bind .store fun _ =>
      .bind (substituteBases_keeps follows evidence.bindings _).keepsMarks fun _ =>
        .bind (.modifyStore fun _ => rfl) fun _ => .bind .store fun _ =>
          copyMembers_marking follows _ _ _
  exact .bind .store fun _ => .bind (.onStore fun _ => rfl) fun _ =>
    .bind (.modifyStore fun _ => rfl) fun _ =>
      .bind (.withCleanup (materialized _) fun _ => .of_same rfl rfl) fun _ =>
        .onStore fun _ => rfl

theorem specializeClass_marking (follows : engine.Follows .marking) (id : ClassId)
    (arguments : Arguments) : (engine.specializeClass id arguments).KeepsMarks := by
  refine .bind .store fun store => ?_
  split
  · exact (follows.specialize _ _).keepsMarks
  · refine .bind (ensureConstructed_keeps follows id).keepsMarks fun _ =>
      .bind .store fun store => ?_
    dsimp only
    split
    · exact .pure _
    · split
      · exact .pure _
      · split
        · exact .pure _
        · exact makeSpecialization_marking follows id _

/-- The engine of every depth takes no mark back. -/
theorem atDepth_marking (depth : Nat) : (Engine.atDepth depth).Follows .marking :=
  atDepth_follows (fun _ follows _ id arguments => specializeClass_marking follows id arguments)
    depth

end Engine

namespace Operation

/-- No operation takes a mark back. -/
theorem perform_marking (depth : Nat) (operation : Operation) :
    (operation.perform depth).KeepsMarks := by
  cases scoping : operation.movesScopes with
  | false =>
    have keeps : (operation.perform depth).Keeps .marking () :=
      perform_keeps (Engine.atDepth_marking depth) (fun _ => trivial) (fun _ => trivial) scoping
    exact keeps.keepsMarks
  | true =>
    cases operation with
    | openScope | closeScopes => exact .of_same (fun _ _ => rfl) fun _ _ => rfl
    | _ => cases scoping

/-- So no run of operations does. -/
theorem performAll_marking (depth : Nat) (environment : Environment) (before : Progress)
    (operations : List Operation) :
    before.Marks (performAll depth environment before operations) := by
  unfold performAll
  induction operations generalizing before with
  | nil => exact .refl before
  | cons operation rest inductionHypothesis =>
    exact (perform_marking depth operation environment before).trans (inductionHypothesis _)

end Operation

namespace Engine

variable {engine : Engine} {environment : Environment} {before left : Progress}
  {failure : Failure}

/-- An overload whose evaluation fails stays marked. -/
theorem evaluating_of_failed (follows : engine.Follows .marking) {id : OverloadId}
    {entry : FunctionEntry} (there : before.store.HasOverload id)
    (failed : engine.evaluateOverload id entry environment before = .error failure left) :
    (left.store.overloadAt id).state = .evaluating := by
  unfold evaluateOverload at failed
  simp only [evaluateInside_eq] at failed
  have parts (scope : ScopeId) : (engine.evaluateParts id entry.definition scope).KeepsMarks :=
    (evaluateParts_keeps follows id entry.definition scope trivial trivial trivial).keepsMarks
  rcases KeepsMarks.evaluation_cases id entry parts environment before with
    ⟨_, _, _, ended⟩ | ⟨_, _, marks, ended⟩
  · cases failed.symm.trans ended
  · cases failed.symm.trans ended
    refine marks.evaluating id ?_
    dsimp only
    rw [Store.overloadAt_modifyOverload, if_pos ⟨rfl, there⟩]

/-- Where the evaluation of pending overloads fails, one of them stays marked, or nothing has
been done because their definition is not declared. -/
theorem evaluatePending_failed (follows : engine.Follows .marking)
    (settles : engine.Follows StoreRelation.settling.discipline) {function : FunctionId}
    {node : NodeId} (places : List Nat) : ∀ {before : Progress},
    (∀ place ∈ places, before.store.HasOverload ⟨function, place⟩) →
    engine.evaluatePending function node places environment before = .error failure left →
      (∃ place ∈ places, (before.store.overloadAt ⟨function, place⟩).state = .pending ∧
        (left.store.overloadAt ⟨function, place⟩).state = .evaluating) ∨
        before.symbols.function? node = none ∧ left = before ∧
          failure = .fault (.unknownDefinition node) := by
  induction places with
  | nil =>
    intro before _ failed
    cases failed
  | cons place rest inductionHypothesis =>
    intro before there failed
    rw [evaluatePending, bind_apply, get_apply] at failed
    dsimp only at failed
    have others : ∀ {later : Progress}, before.store.Settles later.store → ∀ place ∈ rest,
        later.store.HasOverload ⟨function, place⟩ := fun settles place listed =>
      settles.hasOverload (there place (List.mem_cons_of_mem _ listed))
    split at failed
    · next pending =>
      cases declared : before.symbols.function? node with
      | none =>
        rw [declared] at failed
        cases failed
        exact .inr ⟨rfl, rfl, rfl⟩
      | some entry =>
        rw [declared] at failed
        dsimp only at failed
        rw [bind_apply] at failed
        cases evaluated : engine.evaluateOverload ⟨function, place⟩ entry environment before with
        | error cause stopped =>
          rw [evaluated] at failed
          cases failed
          exact .inl ⟨place, List.mem_cons_self, pending,
            evaluating_of_failed follows (there place List.mem_cons_self) evaluated⟩
        | ok result middle =>
          rw [evaluated] at failed
          have returned := (whenPending_of_pending pending _ environment).trans evaluated
          have settled := (evaluateOverload_keeps settles _ entry trivial
            trivial).respects.of_ok returned
          have marks := (evaluateOverload_keeps follows _ entry trivial
            trivial).keepsMarks.of_ok returned
          rcases inductionHypothesis (others settled) failed with
            ⟨place, listed, waited, marked⟩ | ⟨missing, -, -⟩
          · have same := (settled.states ⟨function, place⟩).resolve_right fun evaluated =>
              absurd (waited.symm.trans evaluated) (by decide)
            exact .inl ⟨place, List.mem_cons_of_mem _ listed, same.symm.trans waited, marked⟩
          · -- The definition was declared for the first of them, and is so still.
            have still := marks.functions node (by rw [declared]; rfl)
            rw [missing] at still
            cases still
    · rcases inductionHypothesis (others (.of_same rfl)) failed with
        ⟨place, listed, marked⟩ | nothing
      · exact .inl ⟨place, List.mem_cons_of_mem _ listed, marked⟩
      · exact .inr nothing

/-- Where the evaluation of a function fails, nothing has been done because its definition is not
declared, or one of its overloads stays marked. -/
theorem evaluateFunction_failed {depth : Nat} {function : FunctionId} {fault : Fault}
    (failed : (atDepth depth).evaluateFunction function environment before =
      .error (.fault fault) left) :
    (∃ node, (before.store.functionAt function).node = some node ∧
      before.symbols.function? node = none ∧ left = before ∧ fault = .unknownDefinition node) ∨
      ∃ place, (before.store.overloadAt ⟨function, place⟩).state = .pending ∧
        (left.store.overloadAt ⟨function, place⟩).state = .evaluating := by
  cases depth with
  | zero => cases failed
  | succ depth =>
    change evaluateDefinition (atDepth depth) function environment before = _ at failed
    rw [evaluateDefinition, bind_apply, store_apply] at failed
    dsimp only at failed
    cases known : (before.store.functionAt function).node with
    | none =>
      rw [known] at failed
      cases failed
    | some node =>
      rw [known] at failed
      rcases evaluatePending_failed (atDepth_marking depth) (atDepth_respects .settling depth) _
        (fun place listed => List.mem_range.mp listed) failed with
        ⟨place, -, marked⟩ | ⟨missing, same, cause⟩
      · exact .inr ⟨place, marked⟩
      · exact .inl ⟨node, rfl, missing, same, Failure.fault.inj cause⟩

/-- A class that is declared for its node is what its declaration gives, and nothing is done. -/
theorem declareClass_of_declared (engine : Engine) {definition : ClassDefinition}
    {declared : ClassId} (known : before.symbols.class? definition.id = some declared) :
    engine.declareClass definition environment before = .ok declared before := by
  obtain ⟨node, name, bases, body, decorators, span⟩ := definition
  rw [declareClass, bind_apply, get_apply]
  dsimp only
  rw [known]
  rfl

/-- Where the declaration of a class fails, the class is declared for its node. -/
theorem declareClass_failed (follows : engine.Follows .marking) {definition : ClassDefinition}
    (failed : engine.declareClass definition environment before = .error failure left) :
    (left.symbols.class? definition.id).isSome := by
  cases known : before.symbols.class? definition.id with
  | some declared => cases (declareClass_of_declared engine known).symm.trans failed
  | none =>
    obtain ⟨qualifiedName, -, begun⟩ := declareClass_of_new engine known environment
    rw [begun] at failed
    obtain ⟨node, name, bases, body, decorators, span⟩ := definition
    -- What is done with the class once it is declared takes the mark not back.
    have based (id : ClassId) : (engine.giveBases id bases).KeepsMarks :=
      .giveBases id (evaluateBases_keeps follows bases).keepsMarks
    have named (name : String) (value : Value) (span : Span) :
        (Analysis.declare name value .local (some node) span).KeepsMarks := .changeScopes _
    have collected (id : ClassId) : (engine.collectMembers id body).KeepsMarks :=
      (collectMembers_keeps follows trivial body).keepsMarks
    have marks := KeepsMarks.of_error (.bind (based _) fun _ => .bind (named _ _ _) fun _ =>
      .bind (.inScope fun _ => .bind (named _ _ _) fun _ => collected _) fun _ => .pure _) failed
    refine marks.classes node ?_
    change ((before.symbols.insertClass node before.store.nextClass).class? node).isSome
    rw [Symbols.class?, Symbols.insertClass, OrderedTable.find?_put, if_pos rfl]
    rfl

/-- A failure is final. Where a function cannot be evaluated because its definition is not declared,
nothing has changed. Any other failure of its evaluation leaves an overload that waited to be
evaluated and that counts as being evaluated for ever, whatever is asked afterwards. A class whose
declaration fails counts as declared from then on: whatever is asked afterwards, declaring it
succeeds at once and does nothing. -/
theorem failures_are_final (depth : Nat) (environment : Environment) (before left : Progress) :
    (∀ function fault, (atDepth depth).evaluateFunction function environment before =
        .error (.fault fault) left →
      (∃ node, (before.store.functionAt function).node = some node ∧
        before.symbols.function? node = none ∧ left = before ∧ fault = .unknownDefinition node) ∨
      ∃ place, (before.store.overloadAt ⟨function, place⟩).state = .pending ∧
        ∀ (nesting : Nat) (later : Environment) (operations : List Operation),
          ((Operation.performAll nesting later left operations).store.overloadAt
            ⟨function, place⟩).state = .evaluating) ∧
    ∀ definition failure, (atDepth depth).declareClass definition environment before =
        .error failure left →
      ∀ (nesting : Nat) (later : Environment) (operations : List Operation),
        let reached := Operation.performAll nesting later left operations
        ∃ declared, ∀ nesting later,
          (atDepth nesting).declareClass definition later reached = .ok declared reached := by
  constructor
  · intro function fault failed
    refine (evaluateFunction_failed failed).imp_right fun ⟨place, waited, marked⟩ =>
      ⟨place, waited, ?_⟩
    intro nesting later operations
    exact (Operation.performAll_marking nesting later left operations).evaluating _ marked
  · intro definition failure failed nesting later operations
    have marked := declareClass_failed (atDepth_marking depth) failed
    obtain ⟨declared, known⟩ := Option.isSome_iff_exists.mp
      ((Operation.performAll_marking nesting later left operations).classes _ marked)
    exact ⟨declared, fun nesting later => declareClass_of_declared _ known⟩

/-- A module with a name for a function whose definition is in another module, and with a function
that calls it. -/
def withForeign : Progress :=
  let foreign : FunctionRecord := { FunctionRecord.named "f" "other.f" with
    node := some ⟨99⟩, overloads := [{ name := "f", node := some ⟨99⟩ }] }
  Operation.performAll 3 Registry.environment
    { store := (Registry.standard.store.addFunction foreign).2 }
    [.openScope .module .module none,
      .declare "f" (.type (.function Registry.standard.store.nextFunction)) .local none .unknown,
      .walkStatement .module (.defineFunction 1 "g" [] [.ret (some callForeign) .unknown])]
where
  callForeign : Expression := .call (.ofName "f") [] .unknown

/-- The function of that module. -/
def caller : FunctionId := ⟨Registry.standard.store.functions.size + 1⟩

/-- A class whose body calls the function of the other module. -/
def classCalling : ClassDefinition :=
  ⟨⟨2⟩, .ofName "A", [], [.define "x" withForeign.callForeign], [], .unknown⟩

/-- What the failures of that function and of that class leave behind. -/
theorem failures_are_final_calling :
    let environment := Registry.environment
    let left := ((atDepth 3).evaluateFunction caller).after environment withForeign
    let declared := ((atDepth 3).declareClass classCalling).after environment withForeign
    (∃ place, (withForeign.store.overloadAt ⟨caller, place⟩).state = .pending ∧
      ∀ (nesting : Nat) (later : Environment) (operations : List Operation),
        ((Operation.performAll nesting later left operations).store.overloadAt
          ⟨caller, place⟩).state = .evaluating) ∧
    ∀ (nesting : Nat) (later : Environment) (operations : List Operation),
      let reached := Operation.performAll nesting later declared operations
      ∃ known, ∀ nesting later,
        (atDepth nesting).declareClass classCalling later reached = .ok known reached := by
  have evaluated := (failures_are_final 3 Registry.environment withForeign _).1 caller _
    (error_of_fault? (by decide +kernel :
      ((atDepth 3).evaluateFunction caller).fault? Registry.environment withForeign =
        some (.unknownDefinition ⟨99⟩)))
  have declared := (failures_are_final 3 Registry.environment withForeign _).2 classCalling _
    (error_of_fault? (by decide +kernel :
      ((atDepth 3).declareClass classCalling).fault? Registry.environment withForeign =
        some (.unknownDefinition ⟨99⟩)))
  refine ⟨evaluated.resolve_left ?_, declared⟩
  rintro ⟨node, definedBy, missing, -⟩
  have own : (withForeign.store.functionAt caller).node = some ⟨1⟩ := by decide +kernel
  cases own.symm.trans definedBy
  have known : (withForeign.symbols.function? ⟨1⟩).isSome = true := by decide +kernel
  rw [missing] at known
  cases known

/-- A function and a class that call a function whose definition is not known. Either fails, and
then succeeds at once without being completed. -/
theorem failed_definitions_repeated :
    let environment := Registry.environment
    let evaluation := (atDepth 3).evaluateFunction caller
    let left := evaluation.after environment withForeign
    let declaration := (atDepth 3).declareClass classCalling
    let declared := declaration.after environment withForeign
    withForeign.store.NoOverloadIs .evaluating ∧
      evaluation.fault? environment withForeign = some (.unknownDefinition ⟨99⟩) ∧
      ¬left.store.NoOverloadIs .evaluating ∧ evaluation.yields environment left () = true ∧
      ¬(evaluation.after environment left).store.IsEvaluated caller ∧
      declaration.fault? environment withForeign = some (.unknownDefinition ⟨99⟩) ∧
      declaration.yields environment declared Registry.standard.store.nextClass = true ∧
      ((declaration.after environment declared).store.ownMember?
        Registry.standard.store.nextClass "x").isNone := by
  decide +kernel

end Engine

end TypeInference
