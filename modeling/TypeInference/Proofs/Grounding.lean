import TypeInference.Proofs.Convergence
import TypeInference.Proofs.Knowledge
import TypeInference.Proofs.Unions

/-!
# Whatever is referred to is in the store

Signatures list the identities of types, and a type that is not in the store has none. So
specializations keep their signatures because analyses never come across such a type: the
registry, the records of the store, the scopes and the declared symbols refer to what the store
has. Every analysis keeps this with every single change that it makes, whether it gives a result or
fails. That is a logic, obeyed by all analyses because specializations and evaluations obey it.

A specialization gets its members from whoever makes it. All other analyses leave the members of
the specializations alone that are there when they begin.
-/

namespace TypeInference

open Analysis

namespace Store

variable {store next : Store}

/-- What a store has stays there. -/
theorem LeadsTo.has (leads : store.LeadsTo next) :
    ∀ reference, store.Has reference → next.Has reference
  | .cls _, present => leads.hasClass present
  | .function _, present => leads.hasFunction present
  | .owner _, ⟨present, original⟩ =>
    ⟨leads.hasClass present, (leads.template present).trans original⟩
  | .union _, ⟨separate, present⟩ => leads.separate separate present

/-- What was there is there later. -/
theorem LeadsTo.still {known : References} (leads : store.LeadsTo next)
    (has : ∀ reference, known reference → store.Has reference) :
    ∀ reference, known reference → next.Has reference :=
  fun reference isKnown => leads.has reference (has reference isKnown)

end Store

/-- Progress that refers to what its store has, and whose store is tidy. -/
structure Progress.Grounded (environment : Environment) (progress : Progress) : Prop where
  builtin : ∀ builtin, progress.store.HasClass (Store.builtinClass builtin)
  tidy : progress.store.Tidy
  distinct : progress.store.DistinctMembers
  registered : Within (progress.store.references builtin) environment.registry
  stored : Within (progress.store.references builtin) progress.store
  visible : Within (progress.store.references builtin) progress.scopes
  classes : Within (progress.store.references builtin) progress.symbols.classes.values
  functions : ∀ entry ∈ progress.symbols.functions.toList,
    progress.store.HasFunction entry.function

namespace Progress.Grounded

variable {environment : Environment} {progress : Progress} {store : Store}

/-- What grounded progress may refer to. -/
def references (grounded : progress.Grounded environment) : References :=
  progress.store.references grounded.builtin

/-- Moves keep progress grounded, if what they put in the store is there. -/
theorem reach (grounded : progress.Grounded environment)
    (leads : progress.store.LeadsTo store)
    (stored : Within (store.references fun builtin =>
      leads.hasClass (grounded.builtin builtin)) store) :
    Progress.Grounded environment { progress with store } where
  builtin builtin := leads.hasClass (grounded.builtin builtin)
  tidy := leads.tidy grounded.tidy
  distinct := leads.distinctMembers grounded.distinct
  registered := Refers.widen leads.has _ grounded.registered
  stored := stored
  visible := Refers.widen leads.has _ grounded.visible
  classes := Refers.widen leads.has _ grounded.classes
  functions entry declared := leads.hasFunction (grounded.functions entry declared)

/-- So they do if they refer to nothing new. -/
theorem move (grounded : progress.Grounded environment) (leads : progress.store.LeadsTo store)
    (stored : Within grounded.references store) :
    Progress.Grounded environment { progress with store } :=
  grounded.reach leads (Refers.widen leads.has store stored)

theorem changeScopes (grounded : progress.Grounded environment) {scopes : Scopes}
    (visible : Within grounded.references scopes) :
    Progress.Grounded environment { progress with scopes } :=
  { grounded with visible }

theorem changeLog (grounded : progress.Grounded environment) (log : DiagnosticLog) :
    Progress.Grounded environment { progress with log } :=
  { grounded with }

theorem insertClass (grounded : progress.Grounded environment) (node : NodeId) {id : ClassId}
    (present : progress.store.HasClass id) : Progress.Grounded environment
      { progress with symbols := progress.symbols.insertClass node id } :=
  { grounded with
    classes := OrderedTable.within_put grounded.classes node present }

theorem insert (grounded : progress.Grounded environment) {entry : FunctionEntry}
    (present : progress.store.HasFunction entry.function) : Progress.Grounded environment
      { progress with symbols := progress.symbols.insert entry } :=
  { grounded with
    functions := fun declared listed => by
      rw [show (progress.symbols.insert entry).functions.toList =
        progress.symbols.functions.toList ++ [entry] from Array.toList_push] at listed
      rcases List.mem_append.mp listed with before | last
      · exact grounded.functions declared before
      · exact List.mem_singleton.mp last ▸ present }

end Progress.Grounded

/-- Progress that an analysis reaches by changes that keep progress grounded. It leaves the members
of the specializations alone that were there, but for one that it may be making. -/
structure Progress.Reaches (environment : Environment) (making : Option ClassId)
    (before after : Progress) : Prop where
  leads : before.LeadsBy environment (Grounded environment) after
  spared : ∀ id, making ≠ some id → before.store.HasClass id →
    (before.store.classAt id).template ≠ none →
      (after.store.classAt id).members = (before.store.classAt id).members

namespace Progress.Reaches

variable {environment : Environment} {making : Option ClassId} {before after middle : Progress}

theorem refl (progress : Progress) : progress.Reaches environment making progress :=
  ⟨.refl progress, fun _ _ _ _ => rfl⟩

/-- The store changes by moves. -/
theorem store (reaches : before.Reaches environment making after) :
    before.store.LeadsTo after.store :=
  reaches.leads.store

theorem trans (one : before.Reaches environment making middle)
    (other : middle.Reaches environment making after) :
    before.Reaches environment making after where
  leads := one.leads.trans other.leads
  spared id apart present made := by
    have still : (middle.store.classAt id).template ≠ none :=
      one.store.template present ▸ made
    exact (other.spared id apart (one.store.hasClass present) still).trans
      (one.spared id apart present made)

/-- What is reached by making a specialization that was not there before leaves all those alone
that were. -/
theorem made {placeholder : ClassId} (one : before.Reaches environment none middle)
    (absent : ¬before.store.HasClass placeholder)
    (other : middle.Reaches environment (some placeholder) after) :
    before.Reaches environment none after where
  leads := one.leads.trans other.leads
  spared id _ present made := by
    have apart : some placeholder ≠ some id := by
      rintro ⟨⟩
      exact absent present
    have still : (middle.store.classAt id).template ≠ none := one.store.template present ▸ made
    exact (other.spared id apart (one.store.hasClass present) still).trans
      (one.spared id nofun present made)

/-- What makes no specialization may be part of making one. -/
theorem within (reaches : before.Reaches environment none after) :
    before.Reaches environment making after :=
  ⟨reaches.leads, fun id _ => reaches.spared id nofun⟩

/-- A change that sets no member. -/
theorem of_change (change : before.Change environment after) (grounded : after.Grounded environment)
    (same : before.store.SameMembers after.store) : before.Reaches environment making after :=
  ⟨.single change grounded, fun id _ present _ => same id present⟩

/-- Something is done with the scopes. -/
theorem perform (operation : ScopeOperation)
    (grounded : Progress.Grounded environment
      { before with scopes := (before.scopes.perform operation).2 })
    (permitted : ∀ id, operation = .clearVariables id →
      environment.options.discardsLocals = true) :
    before.Reaches environment making
      { before with scopes := (before.scopes.perform operation).2 } :=
  .of_change (.perform operation permitted) grounded fun _ _ => rfl

end Progress.Reaches

namespace Progress.Grounded

variable {environment : Environment} {before : Progress}

/-- Grounded progress is reached by a move that sets no member, if what it puts in the store is
there. -/
theorem moves (grounded : before.Grounded environment) (making : Option ClassId) {store : Store}
    (move : before.store.Move store) (same : before.store.SameMembers store)
    (stored : Within (store.references fun builtin =>
      move.hasClass (grounded.builtin builtin)) store) :
    before.Reaches environment making { before with store } ∧
      Progress.Grounded environment { before with store } := by
  have after : Progress.Grounded environment { before with store } :=
    grounded.reach (.single move) stored
  exact ⟨.of_change (.move move same) after same, after⟩

/-- So it is if the move puts nothing new there. -/
theorem movesWithin (grounded : before.Grounded environment) (making : Option ClassId)
    {store : Store}
    (move : before.store.Move store) (same : before.store.SameMembers store)
    (stored : Within grounded.references store) :
    before.Reaches environment making { before with store } ∧
      Progress.Grounded environment { before with store } :=
  grounded.moves making move same
    (Refers.widen ((Store.LeadsTo.refl _).move move).has store stored)

/-- So it is if a member is set that may be set, on a class that is no specialization or is being
made. -/
theorem setsMember (grounded : before.Grounded environment) (making : Option ClassId)
    {id : ClassId} {name : String}
    {value : Value} {overwrite : Bool}
    (proper : (before.store.classAt id).template ≠ none → name ∉ Engine.structuralMembers)
    (permitted : before.store.MayReplace id name value overwrite)
    (spared : (before.store.classAt id).template ≠ none → making = some id)
    (given : Within grounded.references value) :
    before.Reaches environment making
        { before with store := (before.store.addMember id name value overwrite).2 } ∧
      Progress.Grounded environment
        { before with store := (before.store.addMember id name value overwrite).2 } := by
  have after : Progress.Grounded environment
      { before with store := (before.store.addMember id name value overwrite).2 } :=
    grounded.move (.single (.setMember before.store value overwrite proper))
      (within_addMember grounded.stored id name given overwrite)
  refine ⟨⟨.single (.setMember proper permitted) after, fun other apart _ made => ?_⟩, after⟩
  rw [Store.classAt_addMember, if_neg]
  rintro ⟨rfl, -⟩
  exact apart (spared made)

end Progress.Grounded

/-- Analyses that are looked at together go alike from some progress to grounded progress, by
changes that keep it grounded, and their result refers to what is there. They may be part of
making a specialization. -/
inductive Grounds (environment : Environment) (making : Option ClassId) (before : Progress)
    {Index α : Type} [Refers α] (analyses : Index → Analysis α) : Prop
  | returned {result : α} {after : Progress}
      (returned : ∀ index, analyses index environment before = .ok result after)
      (leads : before.Reaches environment making after) (grounded : after.Grounded environment)
      (within : Within grounded.references result)
  | failed {failure : Failure} {left : Progress}
      (failed : ∀ index, analyses index environment before = .error failure left)
      (leads : before.Reaches environment making left) (grounded : left.Grounded environment)

namespace Grounds

variable {Index α β : Type} [Refers α] [Refers β] {environment : Environment}
  {making : Option ClassId} {before middle : Progress}

theorem pure (grounded : before.Grounded environment) {result : α}
    (within : Within grounded.references result) :
    Grounds environment making before fun _ : Index => (Pure.pure result : Analysis α) :=
  .returned (fun _ => rfl) (.refl _) grounded within

theorem bind {first : Index → Analysis α} {next : Index → α → Analysis β}
    (begins : Grounds environment making before first)
    (continues : ∀ result after (grounded : after.Grounded environment),
      before.Reaches environment making after → Within grounded.references result →
        Grounds environment making after fun index => next index result) :
    Grounds environment making before fun index => first index >>= next index := by
  cases begins with
  | failed failed leads grounded =>
    exact .failed (fun index => bind_of_error (failed index) _) leads grounded
  | @returned result after returned leads grounded within =>
    have step (index : Index) := bind_of_ok (returned index) (next index)
    cases continues result after grounded leads within with
    | failed failed further grounded =>
      exact .failed (fun index => (step index).trans (failed index)) (leads.trans further)
        grounded
    | returned ending further grounded within =>
      exact .returned (fun index => (step index).trans (ending index)) (leads.trans further)
        grounded within

/-- After a first step that is made by changes. -/
theorem of_step {analyses rest : Index → Analysis α}
    (grounds : Grounds environment making middle rest)
    (step : ∀ index, analyses index environment before = rest index environment middle)
    (leads : before.Reaches environment making middle) :
    Grounds environment making before analyses := by
  cases grounds with
  | returned returned further grounded within =>
    exact .returned (fun index => (step index).trans (returned index)) (leads.trans further)
      grounded within
  | failed failed further grounded =>
    exact .failed (fun index => (step index).trans (failed index)) (leads.trans further)
      grounded

/-- Analyses that make no specialization may be the first part of making one. -/
theorem bind_making {first : Index → Analysis α} {next : Index → α → Analysis β}
    (begins : Grounds environment none before first)
    (continues : ∀ result after (grounded : after.Grounded environment),
      before.Reaches environment none after → Within grounded.references result →
        Grounds environment making after fun index => next index result) :
    Grounds environment making before fun index => first index >>= next index := by
  cases begins with
  | failed failed leads grounded =>
    exact .failed (fun index => bind_of_error (failed index) _) leads.within grounded
  | returned returned leads grounded within =>
    exact (continues _ _ grounded leads within).of_step
      (fun index => bind_of_ok (returned index) (next index)) leads.within

/-- Analyses that make a specialization which was not there before make it as a whole. -/
theorem made {analyses rest : Index → Analysis α} {placeholder : ClassId}
    (grounds : Grounds environment (some placeholder) middle rest)
    (step : ∀ index, analyses index environment before = rest index environment middle)
    (leads : before.Reaches environment none middle)
    (absent : ¬before.store.HasClass placeholder) : Grounds environment none before analyses := by
  cases grounds with
  | returned returned further grounded within =>
    exact .returned (fun index => (step index).trans (returned index)) (leads.made absent further)
      grounded within
  | failed failed further grounded =>
    exact .failed (fun index => (step index).trans (failed index)) (leads.made absent further)
      grounded

/-- They go alike. -/
theorem same {analyses : Index → Analysis α}
    (grounds : Grounds environment making before analyses) (one other : Index) :
    analyses one environment before = analyses other environment before := by
  cases grounds with
  | returned returned => exact (returned one).trans (returned other).symm
  | failed failed => exact (failed one).trans (failed other).symm

/-- What they leave, whatever comes of them. -/
theorem after {analyses : Index → Analysis α}
    (grounds : Grounds environment making before analyses) (index : Index) :
    before.Reaches environment making ((analyses index).after environment before) ∧
      ((analyses index).after environment before).Grounded environment := by
  unfold Analysis.after
  cases grounds with
  | returned returned leads grounded =>
    rw [returned index]
    exact ⟨leads, grounded⟩
  | failed failed leads grounded =>
    rw [failed index]
    exact ⟨leads, grounded⟩

/-- A change that is made in any case. -/
theorem withCleanup {body : Index → Analysis α} {change : Progress → Progress}
    (grounds : Grounds environment making before body)
    (changes : ∀ after : Progress, after.Grounded environment →
      after.Reaches environment making (change after) ∧ (change after).Grounded environment) :
    Grounds environment making before fun index => Analysis.withCleanup (body index) change := by
  cases grounds with
  | @returned result after returned further grounded within =>
    obtain ⟨leads, changed⟩ := changes after grounded
    exact .returned (fun index => withCleanup_of_ok (returned index) change)
      (further.trans leads) changed (Refers.widen leads.store.has result within)
  | @failed failure left failed further grounded =>
    obtain ⟨leads, changed⟩ := changes left grounded
    exact .failed (fun index => withCleanup_of_error (failed index) change)
      (further.trans leads) changed

/-- A change of the store. -/
theorem modifyStore {change : Store → Store}
    (changes : before.Reaches environment making
        { before with store := change before.store } ∧
      Progress.Grounded environment { before with store := change before.store }) :
    Grounds environment making before fun _ : Index => Analysis.modifyStore change :=
  .returned (fun _ => rfl) changes.1 changes.2 trivial

/-- Something is done with the scopes that may fail. -/
theorem changeScopes (grounded : before.Grounded environment)
    {change : Scopes → Except Fault Scopes} (operation : ScopeOperation)
    (attempts : before.scopes.perform operation = before.scopes.attempt (change before.scopes))
    (keeps : ∀ id, operation ≠ .clearVariables id)
    (visible : ∀ scopes, change before.scopes = .ok scopes → Within grounded.references scopes) :
    Grounds environment making before fun _ : Index => Analysis.changeScopes change := by
  cases changed : change before.scopes with
  | error fault =>
    exact .failed (fun _ => changeScopes_of_error environment changed) (.refl _) grounded
  | ok scopes =>
    have performed : (before.scopes.perform operation).2 = scopes := by
      rw [attempts, changed]
      rfl
    have after : Progress.Grounded environment { before with scopes } :=
      grounded.changeScopes (visible scopes changed)
    have leads : before.Reaches environment making { before with scopes } := by
      subst performed
      exact .perform operation after fun id clears => absurd clears (keeps id)
    exact .returned (fun _ => changeScopes_of_ok environment changed) leads after trivial

/-- A scope is open while an analysis runs in it. -/
theorem inScope (grounded : before.Grounded environment) (node : NodeId) (kind : ScopeKind)
    (parent : Option ScopeId) {body : Index → ScopeId → Analysis α}
    (inside : ∀ id middle, middle.Grounded environment → middle.store = before.store →
      Grounds environment making middle fun index => body index id) :
    Grounds environment making before fun index =>
      Analysis.inScope node kind parent (body index) := by
  have opened := grounded.changeScopes (within_push grounded.visible node kind parent)
  let close (after : Progress) : Progress :=
    { after with scopes := after.scopes.truncate before.scopes.depth }
  have closed := (inside (before.scopes.push node kind parent).1 _ opened rfl).withCleanup
    fun after grounded => by
      have closed : (close after).Grounded environment :=
        grounded.changeScopes (within_truncate grounded.visible _)
      exact ⟨.perform (.truncate before.scopes.depth) closed nofun, closed⟩
  exact closed.of_step
    (fun index => inScope_apply node kind parent (body index) environment before)
    (.perform (.push node kind parent) opened nofun)

/-- A class that is no specialization may get any member, unless it becomes unknown. -/
theorem setMember (grounded : before.Grounded environment) {owner : ClassId} (name : String)
    {value : Value} {overwrite : Bool} (permitted : overwrite = true → value.isUnknown = false)
    (owned : before.store.Has (.owner owner)) (given : Within grounded.references value) :
    Grounds environment making before fun _ : Index => Analysis.modifyStore fun store =>
      (store.addMember owner name value overwrite).2 := by
  refine modifyStore (grounded.setsMember making (fun made => absurd owned.2 made) ?_
    (fun made => absurd owned.2 made) given)
  intro overwrites unknown
  rw [permitted overwrites] at unknown
  cases unknown

theorem setAttribute (grounded : before.Grounded environment) {owner : ClassId} (name : String)
    {value : Value} (owned : before.store.Has (.owner owner))
    (given : Within grounded.references value) :
    Grounds environment making before fun _ : Index => Analysis.setAttribute owner name value := by
  refine modifyStore ?_
  change before.Reaches environment making
      { before with store := before.store.withAttribute owner name value } ∧
    Progress.Grounded environment
      { before with store := before.store.withAttribute owner name value }
  have set (permitted : before.store.MayReplace owner name value true) :=
    grounded.setsMember making (fun made => absurd owned.2 made) permitted
      (fun made => absurd owned.2 made) given
  unfold Store.withAttribute
  split
  · next existing found =>
    split
    · next unknown =>
      refine set fun _ _ other same => ?_
      cases found.symm.trans same
      exact unknown
    · exact ⟨.refl before, grounded⟩
  · next absent =>
    refine set fun _ _ other same => ?_
    cases absent.symm.trans same

section Declarations

variable {engines : Index → Engine}

/-- A class that is no specialization is given its bases, after they were evaluated. -/
theorem giveBases {bases : List Expression} {id : ClassId}
    (owned : before.store.Has (.owner id))
    (based : Grounds environment making before fun index => (engines index).evaluateBases bases) :
    Grounds environment making before fun index => (engines index).giveBases id bases := by
  refine based.bind fun types middle grounded leads within => ?_
  obtain ⟨present, original⟩ := leads.store.has (.owner id) owned
  let ordered := middle.store.setBases id (Engine.withObject types)
  have derived : Store.Move middle.store ordered := .setBases middle.store fun made =>
    absurd original made
  obtain ⟨first, groundedOrdered⟩ := grounded.movesWithin making derived
    (middle.store.sameMembers_modifyClass id fun _ => rfl)
    (within_setBases grounded.stored id (within_withObject within))
  have parametrized := Store.Move.parametrize ordered (.identity (ordered.typeParameters id))
    ((derived.sameNature present).template.trans original)
  obtain ⟨second, groundedLast⟩ := groundedOrdered.movesWithin making parametrized
    (ordered.sameMembers_modifyClass id fun _ => rfl)
    (within_modifyClass groundedOrdered.stored id fun _ recorded =>
      ⟨recorded.1, recorded.2.1, within_identity _, recorded.2.2.2⟩)
  exact modifyStore ⟨first.trans second, groundedLast⟩

/-- A class is created and given its bases, and may own members from then on. -/
theorem createClass (grounded : before.Grounded environment) (definition : ClassDefinition)
    {bases : List Expression} {next : Index → ClassId → Analysis α}
    (based : ∀ middle : Progress, middle.Grounded environment →
      before.Reaches environment making middle →
        Grounds environment making middle fun index => (engines index).evaluateBases bases)
    (continues : ∀ id (middle : Progress), middle.Grounded environment →
      before.Reaches environment making middle → middle.store.Has (.owner id) →
        Grounds environment making middle fun index => next index id) :
    Grounds environment making before (fun index => do
      let id ← Engine.createClass definition
      (engines index).giveBases id bases
      next index id) := by
  obtain ⟨qualifiedName, returned⟩ := Engine.createClass_apply definition environment before
  let record := Engine.declaredClass definition qualifiedName
  let id := before.store.nextClass
  have within : Within grounded.references record :=
    ⟨within_nil, within_nil, within_noBindings, within_none, within_nil, within_nil⟩
  obtain ⟨created, stored⟩ := grounded.movesWithin making
    (.createClass before.store ⟨rfl, rfl, rfl, rfl, rfl⟩ rfl)
    (before.store.sameMembers_addClass record) (within_addClass grounded.stored within)
  have owned : (before.store.addClass record).2.Has (.owner id) := by
    refine ⟨(Store.hasClass_addClass ..).mpr (.inr rfl), ?_⟩
    rw [Store.classAt_addClass_eq, if_pos rfl]
    rfl
  have declared := stored.insertClass definition.id owned.1
  have leads : before.Reaches environment making
      { before with
        store := (before.store.addClass record).2
        symbols := before.symbols.insertClass definition.id id } :=
    created.trans (.of_change (.declareClass definition.id id) declared fun _ _ => rfl)
  have continued := (giveBases owned (based _ declared leads)).bind
    fun _ middle grounded further _ =>
      continues id middle grounded (leads.trans further) (further.store.has _ owned)
  exact continued.of_step (fun _ => bind_of_ok returned _) leads

/-- A function is declared, if its decorators can be evaluated. -/
theorem declareFunction (grounded : before.Grounded environment)
    {definition : FunctionDefinition} {owner : Option ClassId}
    (owned : ∀ id, owner = some id → before.store.Has (.owner id))
    (decorated : ∀ function (middle : Progress), middle.Grounded environment →
      before.Reaches environment making middle → Grounds environment making middle fun index =>
        (engines index).applyDecorators function definition.decorators) :
    Grounds environment making before fun index =>
      (engines index).declareFunction definition owner := by
  cases declared : before.symbols.function? definition.id with
  | some entry =>
    exact .returned
      (fun index => Engine.declareFunction_of_known (engines index) owner environment declared)
      (.refl _) grounded (grounded.functions entry (Symbols.mem_of_function? declared).1)
  | none =>
    obtain ⟨qualifiedName, named⟩ : ∃ qualifiedName,
        Analysis.qualifiedName definition.name.name environment before =
          .ok qualifiedName before := ⟨_, rfl⟩
    let record := Engine.declaredRecord definition owner qualifiedName
    have within : Within grounded.references record :=
      within_declaredRecord definition owned qualifiedName
    obtain ⟨created, stored⟩ := grounded.movesWithin making
      (.createFunction before.store record) (fun _ _ => rfl)
      (within_addFunction grounded.stored within)
    have there : (before.store.addFunction record).2.HasFunction before.store.nextFunction :=
      (Store.hasFunction_addFunction _ _ _).mpr (.inr rfl)
    have finishes : Grounds environment making
        { before with store := (before.store.addFunction record).2 } fun index =>
          (engines index).applyDecorators before.store.nextFunction definition.decorators >>=
            fun _ => Engine.finishDeclaration definition before.store.nextFunction := by
      refine (decorated _ _ stored created).bind fun _ after grounded leads _ => ?_
      have still := leads.store.hasFunction there
      cases current : after.scopes.current with
      | error cause =>
        have failed : Engine.finishDeclaration definition before.store.nextFunction environment
            after = .error (.fault cause) after := by
          simp only [Engine.finishDeclaration, bind_apply, scopes_apply, current]
          rfl
        exact .failed (fun _ => failed) (.refl _) grounded
      | ok scope =>
        have inserted : Progress.Grounded environment
            { after with symbols := after.symbols.insert ⟨definition, scope, _⟩ } :=
          grounded.insert still
        exact .returned
          (fun _ => Engine.finishDeclaration_apply definition _ environment current)
          (.of_change (.declareFunction _) inserted fun _ _ => rfl) inserted still
    exact finishes.of_step
      (fun index => (engines index).declareFunction_of_new owner named declared) created

end Declarations

end Grounds

/-- To keep progress grounded where something known is there, for analyses that are looked at
together. -/
def Judgement.grounding (Index : Type) : Judgement where
  Index := Index
  World := References
  Later known later := ∀ reference, known reference → later reference
  later_refl _ _ := id
  later_trans one other reference isKnown := other reference (one reference isKnown)
  Near known near := ∀ reference, known reference → near reference
  near_of_later := id
  near_trans one other reference isKnown := other reference (one reference isKnown)
  Known := id
  known_later := id
  Holds known _ _ analyses := ∀ (environment : Environment) (before : Progress),
    before.Grounded environment → (∀ reference, known reference → before.store.Has reference) →
      Grounds environment none before analyses
  pure within _ _ grounded has := .pure grounded (Refers.widen has _ within)
  bind begins continues environment before grounded has :=
    (begins environment before grounded has).bind fun result after grounded leads within =>
      @continues grounded.references (leads.store.still has) result within environment after
        grounded fun _ => id
  reads continues environment before grounded has :=
    (@continues grounded.references has before.store grounded.stored
      (before.store.closedIn_references grounded.builtin) environment before grounded
        fun _ => id).of_step (fun _ => rfl) (.refl _)

/-- The logic of what refers to what is there. -/
def Logic.grounding (Index : Type) : Logic where
  toJudgement := .grounding Index
  MayOpen _ _ := True
  mayOpen_later _ _ := id
  MayDefine _ _ := True
  mayDefine_later _ _ := id
  options _ holds environment before grounded has :=
    (holds environment.options environment before grounded has).of_step (fun _ => rfl) (.refl _)
  lookupName? name reach environment before grounded _ := by
    have looked := within_lookup grounded.visible name reach
    have after := grounded.changeScopes looked.2
    refine .returned (fun _ => lookupName?_apply name reach environment before)
      (.perform (.lookup name reach) after nofun) after ?_
    split
    · next found given => exact (within_some _).mpr (looked.1 _ given)
    · exact within_ite (OrderedTable.within_find? grounded.registered name) within_none
  declare name _ kind node span given _ _ grounded has :=
    .changeScopes grounded (.declare name _ kind node span) rfl nofun
      fun _ => within_declare grounded.visible (Refers.widen has _ given)
  redirectGlobal name _ _ grounded _ :=
    .changeScopes grounded (.declareGlobal name) rfl nofun
      fun _ => within_declareGlobal grounded.visible
  redirectNonlocal name _ _ grounded _ :=
    .changeScopes grounded (.declareNonlocal name) rfl nofun
      fun _ => within_declareNonlocal grounded.visible
  report _ _ _ _ grounded _ :=
    .returned (fun _ => rfl) (.of_change (.report _) (grounded.changeLog _) fun _ _ => rfl)
      (grounded.changeLog _) trivial
  changeFunction function _ same within _ _ grounded has :=
    .modifyStore (grounded.movesWithin none
      (.changeFunction _ function fun record => (same _ record).1) (fun _ _ => rfl)
      (within_modifyFunction grounded.stored function (@within grounded.references has _)))
  setMember name _ _ permitted owned given _ _ grounded has :=
    .setMember grounded name permitted (has _ owned) (Refers.widen has _ given)
  setAttribute name _ owned given _ _ grounded has :=
    .setAttribute grounded name (has _ owned) (Refers.widen has _ given)
  declaredClass node _ before grounded _ :=
    .returned (fun _ => rfl) (.refl _) grounded (OrderedTable.within_find? grounded.classes node)
  createClass definition _ _ based continues environment _ grounded has :=
    .createClass grounded definition
      (fun middle grounded leads => @based grounded.references (leads.store.still has) environment
        middle grounded fun _ => id)
      fun id middle grounded leads owned => @continues grounded.references
        (leads.store.still has) id owned environment middle grounded fun _ isKnown => isKnown
  inScope _ _ body environment before grounded has :=
    .inScope grounded _ _ _ fun id middle grounded same =>
      body id environment middle grounded fun reference isKnown => same ▸ has reference isKnown
  declareFunction owner _ owned decorated environment before grounded has :=
    .declareFunction grounded (fun id same => has _ (owned id same))
      fun function middle grounded leads =>
        decorated (fun _ => id) (fun _ _ => trivial) function environment middle grounded
          (leads.store.still has)

end TypeInference
