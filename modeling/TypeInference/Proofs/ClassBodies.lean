import TypeInference.Proofs.Copies
import TypeInference.Proofs.StoreRelation

/-!
# What the body of a class makes of the names it binds

Definitions and assignments that stand directly in the body of a class make members, and so do
annotations, with the names in displays on their left. No class ever loses a member. So a class has
all of these names when its definition has been declared, whatever else was evaluated meanwhile.

Other statements of the body are walked as in any block. What they bind inside of branches and
loops are variables of the scope of the class, but no members.
-/

namespace TypeInference

open Analysis

namespace Expression

mutual

/-- The names that are bound when something is assigned to a target. -/
def targetNames : Expression → List String
  | .name identifier => [identifier.name]
  | .display .list items _ => namesOfTargets items
  | .display .tuple items _ => namesOfTargets items
  | _ => []

/-- The names that are bound when something is assigned to some targets. -/
def namesOfTargets : List Expression → List String
  | [] => []
  | target :: rest => targetNames target ++ namesOfTargets rest

end

end Expression

/-- The names that a statement binds itself: not those bound in the blocks that it has. -/
def Statement.ownNames : Statement → List String
  | .function definition => [definition.name.name]
  | .classDefinition definition => [definition.name.name]
  | .assign targets _ _ => Expression.namesOfTargets targets
  | .annotated target _ _ _ => target.targetNames
  | _ => []

/-- Whether a statement has blocks, in which other statements stand. -/
def Statement.hasBlocks : Statement → Bool
  | .branch .. | .iteration .. | .loop .. => true
  | _ => false

namespace Store

/-- A store that has the classes of another one, with the names of their members. -/
structure KeepsMembers (before after : Store) : Prop where
  grown : before.classes.size ≤ after.classes.size
  names : ∀ id, before.HasClass id →
    ∀ name ∈ before.memberNames id, name ∈ after.memberNames id

namespace KeepsMembers

variable {before middle after : Store}

theorem refl (store : Store) : store.KeepsMembers store :=
  ⟨Nat.le_refl _, fun _ _ _ => id⟩

theorem hasClass (keeps : before.KeepsMembers after) {id : ClassId}
    (present : before.HasClass id) : after.HasClass id :=
  Nat.lt_of_lt_of_le present keeps.grown

theorem trans (earlier : before.KeepsMembers middle) (later : middle.KeepsMembers after) :
    before.KeepsMembers after where
  grown := Nat.le_trans earlier.grown later.grown
  names id present name listed :=
    later.names id (earlier.hasClass present) name (earlier.names id present name listed)

theorem addClass (store : Store) (record : ClassRecord) :
    store.KeepsMembers (store.addClass record).2 where
  grown := by simp [Store.addClass]
  names id present name listed := by
    rwa [memberNames, classAt_addClass_of_hasClass store record id present]

/-- A class is changed, and keeps its members. -/
theorem modifyClass (store : Store) (changed : ClassId) {change : ClassRecord → ClassRecord}
    (kept : ∀ name ∈ store.memberNames changed,
      name ∈ (change (store.classAt changed)).members.keys) :
    store.KeepsMembers (store.modifyClass changed change) where
  grown := by simp
  names id _ name listed := by
    rw [memberNames, classAt_modifyClass_eq]
    split
    · next reached =>
      obtain ⟨rfl, -⟩ := reached
      exact kept name listed
    · exact listed

theorem addMember (store : Store) (id : ClassId) (name : String) (value : Value)
    (overwrite : Bool) : store.KeepsMembers (store.addMember id name value overwrite).2 := by
  rw [addMember_eq]
  refine .modifyClass store id fun other listed => ?_
  rw [MemberTable.keys_insert]
  split
  · exact listed
  · exact List.mem_append_left _ listed

/-- Whatever is done between the beginning and the end of a specialization. -/
theorem specialization {store made : Store} (template : ClassId) {bindings : Bindings}
    (inside : (store.begin template bindings).KeepsMembers made) :
    store.KeepsMembers (Engine.endSpecialization made template) := by
  have begun : store.KeepsMembers (store.begin template bindings) :=
    (KeepsMembers.addClass store _).trans (.modifyClass _ template fun _ => id)
  exact begun.trans (inside.trans (.modifyClass made template fun _ => id))

end KeepsMembers

/-- A member that is set is there. -/
theorem mem_memberNames_addMember {store : Store} {owner : ClassId} (present : store.HasClass owner)
    (name : String) (value : Value) (overwrite : Bool) :
    name ∈ (store.addMember owner name value overwrite).2.memberNames owner := by
  rw [memberNames, classAt_addMember, if_pos ⟨rfl, present⟩, MemberTable.keys_insert]
  split
  · next listed => exact listed
  · exact List.mem_append_right _ (List.mem_singleton_self name)

end Store

/-- To take no member from any class, also where something fails. -/
def StoreRelation.membersKept : StoreRelation where
  Relates := Store.KeepsMembers
  Failing := True
  MayRecord _ := True
  waiting other _ := (other trivial).elim
  refl := .refl
  trans := .trans
  createFunction _ _ _ _ := ⟨Nat.le_refl _, fun _ _ _ => id⟩
  changeFunction _ _ _ _ := ⟨Nat.le_refl _, fun _ _ _ => id⟩
  changeOverload _ _ _ _ _ := ⟨Nat.le_refl _, fun _ _ _ => id⟩
  evaluation _ keeps := ⟨keeps.grown, keeps.names⟩
  interruption _ _ keeps := ⟨keeps.grown, keeps.names⟩
  addMember := .addMember
  createClass store record _ _ := .addClass store record
  setBases store changed _ := .modifyClass store changed fun _ => id
  parametrize store changed _ := .modifyClass store changed fun _ => id
  specialization {_ _ template _} _ _ inside :=
    (Store.KeepsMembers.specialization template inside).trans (.modifyClass _ template fun _ => id)
  abandonment {_ _ template _} _ _ _ inside := .specialization template inside

/-- An analysis of which a class has got members of some names wherever it gives a result, and that
takes no member from any class. -/
structure Analysis.Makes {α : Type} (owner : ClassId) (names : List String)
    (analysis : Analysis α) : Prop where
  keeps : analysis.Respects StoreRelation.membersKept.toStorePreorder
  made : ∀ {environment before after result}, analysis environment before = .ok result after →
    before.store.HasClass owner → ∀ name ∈ names, name ∈ after.store.memberNames owner

namespace Analysis.Makes

variable {α β : Type} {owner : ClassId} {names more : List String}

/-- Where nothing is asked for it is enough to take nothing. -/
theorem nothing {analysis : Analysis α}
    (keeps : analysis.Respects StoreRelation.membersKept.toStorePreorder) :
    analysis.Makes owner [] :=
  ⟨keeps, fun _ _ _ impossible => nomatch impossible⟩

/-- What is made first is kept, and more is made then. -/
theorem bind {first : Analysis α} {next : α → Analysis β} (begins : first.Makes owner names)
    (continues : ∀ result, (next result).Makes owner more) :
    (first >>= next).Makes owner (names ++ more) where
  keeps := .bind begins.keeps fun result => (continues result).keeps
  made returned present name listed := by
    obtain ⟨result, middle, before, after⟩ := bind_eq_ok.mp returned
    have there := (begins.keeps.of_ok before).hasClass present
    rcases List.mem_append.mp listed with earlier | later
    · exact ((continues result).keeps.of_ok after).names owner there name
        (begins.made before present name earlier)
    · exact (continues result).made after there name later

/-- After something that takes nothing. -/
theorem after {first : Analysis α} {next : α → Analysis β}
    (keeps : first.Respects StoreRelation.membersKept.toStorePreorder)
    (continues : ∀ result, (next result).Makes owner more) :
    (first >>= next).Makes owner more :=
  (nothing keeps).bind continues

/-- Before something that takes nothing. -/
theorem before {first : Analysis α} {next : α → Analysis β} (makes : first.Makes owner names)
    (keeps : ∀ result, (next result).Respects StoreRelation.membersKept.toStorePreorder) :
    (first >>= next).Makes owner names := by
  have both := makes.bind fun result => nothing (keeps result)
  rwa [List.append_nil] at both

/-- A member is set. -/
theorem setMember (name : String) (value : Value) (overwrite : Bool) :
    (modifyStore fun store => (store.addMember owner name value overwrite).2).Makes owner
      [name] where
  keeps := .modifyStore fun store => .addMember store owner name value overwrite
  made returned present other listed := by
    cases returned
    rw [List.mem_singleton.mp listed]
    exact Store.mem_memberNames_addMember present name value overwrite

/-- A scope is opened before and closed after what is done in it. -/
theorem inScope {node : NodeId} {kind : ScopeKind} {parent : Option ScopeId}
    {body : ScopeId → Analysis α} (makes : ∀ id, (body id).Makes owner names) :
    (Analysis.inScope node kind parent body).Makes owner names where
  keeps := .inScope fun id => (makes id).keeps
  made {_ before _ _} returned present name listed := by
    rw [inScope_apply, withCleanup] at returned
    split at returned
    · next found =>
      cases returned
      have made := (makes (before.scopes.push node kind parent).1).made found
      exact made present name listed
    · cases returned

end Analysis.Makes

namespace Engine

variable {engine : Engine} {owner : ClassId}

mutual

/-- What is assigned in the body of a class becomes a member by each name that it is assigned to. -/
theorem collectAttribute_makes (value : Value) : ∀ target,
    (collectAttribute owner value target).Makes owner target.targetNames
  | .name identifier => by
    rw [collectAttribute]
    exact (Makes.setMember _ _ _).before fun _ => .changeScopes _
  | .display .list items _ => by
    rw [collectAttribute]
    exact collectAttributes_makes _ items
  | .display .tuple items _ => by
    rw [collectAttribute]
    exact collectAttributes_makes _ items
  | .display .set _ _ | .constant _ _ | .attribute _ _ _ | .index _ _ _ | .slice _ _ _ _
  | .call _ _ _ | .dict _ _ | .comprehension _ | .yield _ _ | .unary _ _ _ | .binary _ _ _ _ => by
    simp only [collectAttribute]
    exact .nothing (.pure _)

theorem collectAttributes_makes (elements : Option Elements) : ∀ targets,
    (collectAttributes owner elements targets).Makes owner (Expression.namesOfTargets targets)
  | [] => by
    rw [collectAttributes]
    exact .nothing (.pure _)
  | target :: rest => by
    rw [collectAttributes]
    exact (collectAttribute_makes _ target).bind fun _ => collectAttributes_makes _ rest

end

theorem collectTargets_makes (value : Value) (targets : List Expression) :
    (collectTargets owner value targets).Makes owner (Expression.namesOfTargets targets) := by
  induction targets with
  | nil => exact .nothing (.pure _)
  | cons target rest inductionHypothesis =>
    exact (collectAttribute_makes value target).bind fun _ => inductionHypothesis

section Bodies

variable (follows : engine.Follows StoreRelation.membersKept.discipline)

include follows

/-- A method becomes a member by its name. -/
theorem collectMethod_makes (definition : FunctionDefinition) :
    (engine.collectMethod owner definition).Makes owner [definition.name.name] :=
  .after (declareFunction_keeps follows definition (some owner) fun _ _ => trivial).respects
    fun _ => (Makes.setMember _ _ _).before fun _ => .changeScopes _

/-- The body of a class makes members of the names that its statements bind themselves. -/
theorem collectMembers_makes (body : List Statement) :
    (engine.collectMembers owner body).Makes owner (body.flatMap Statement.ownNames) := by
  induction body with
  | nil =>
    rw [collectMembers]
    exact .nothing (.pure _)
  | cons statement rest inductionHypothesis =>
    have owns : (Frame.ofClass owner).Owns StoreRelation.membersKept.discipline () :=
      Frame.ofClass_owns trivial
    have walked := (walkStatement_keeps follows owns statement).respects
    rw [List.flatMap_cons]
    cases statement with
    | function definition =>
      rw [collectMembers]
      exact (collectMethod_makes follows definition).bind fun _ => inductionHypothesis
    | classDefinition definition =>
      rw [collectMembers]
      exact .after (declareClass_keeps follows definition).respects fun _ =>
        (Makes.setMember _ _ _).bind fun _ => inductionHypothesis
    | assign targets value _ =>
      rw [collectMembers]
      exact .after (checkedValue_keeps follows value).respects fun _ =>
        (collectTargets_makes _ targets).bind fun _ => inductionHypothesis
    | annotated target hint value _ =>
      rw [collectMembers]
      exact .after (annotatedValue_keeps follows hint value).respects fun _ =>
        (collectAttribute_makes _ target).bind fun _ => inductionHypothesis
    -- Every other statement is walked as in any block.
    | expression | ret | global | «nonlocal» | branch | iteration | loop | pass =>
      simp only [collectMembers]
      exact .after walked fun _ => inductionHypothesis

/-- So it does in the scope of the class. -/
theorem classBody_makes (node : NodeId) (value : Value) (span : Span) (body : List Statement) :
    (Analysis.inScope node .classBody none fun _ => do
      Analysis.declare classCell value .local (some node) span
      engine.collectMembers owner body).Makes owner (body.flatMap Statement.ownNames) :=
  .inScope fun _ => .after (.changeScopes _) fun _ => collectMembers_makes follows body

end Bodies

/-- When the definition of a class has been declared for the first time, the class has a member for
every name that a statement standing in its body binds itself, by a definition, an assignment or an
annotation: at any depth of engines, wherever the class is declared and whatever is evaluated
meanwhile.

Proof: each of these statements makes members of its names (`Engine.collectMembers_makes`, by
induction on the body and on the targets), and everything else takes no member from any class
(`StoreRelation.membersKept`). -/
theorem own_names_are_members (depth : Nat) {definition : ClassDefinition}
    {environment : Environment} {before after : Progress} {declared : ClassId}
    (new : before.symbols.class? definition.id = none)
    (returned : (Engine.atDepth depth).declareClass definition environment before =
      .ok declared after) :
    ∀ statement ∈ definition.body, ∀ name ∈ statement.ownNames,
      name ∈ after.store.memberNames declared := by
  have follows := atDepth_respects .membersKept depth
  obtain ⟨qualifiedName, -, begun⟩ := declareClass_of_new (Engine.atDepth depth) new environment
  rw [begun] at returned
  obtain ⟨node, identifier, bases, body, decorators, span⟩ := definition
  obtain ⟨_, derived, gives, returned⟩ := bind_eq_ok.mp returned
  obtain ⟨_, named, names, returned⟩ := bind_eq_ok.mp returned
  obtain ⟨_, walked, walks, returned⟩ := bind_eq_ok.mp returned
  cases returned
  have there : named.store.HasClass before.store.nextClass := by
    have based := (Respects.giveBases before.store.nextClass
      (evaluateBases_keeps follows bases).respects).of_ok gives
    have declares : (Analysis.declare identifier.name (.type (.cls before.store.nextClass)) .local
        (some node) identifier.span).Respects StoreRelation.membersKept.toStorePreorder :=
      .changeScopes _
    exact (declares.of_ok names).hasClass
      (based.hasClass ((Store.hasClass_addClass _ _ _).mpr (.inr rfl)))
  have makes := @classBody_makes _ before.store.nextClass follows node
    (.type (.cls before.store.nextClass)) span body
  intro statement among name listed
  exact makes.made walks there name (List.mem_flatMap.mpr ⟨statement, among, listed⟩)

section Blocks

variable (owner : ClassId)

/-- Where there is no receiver, it makes no difference to which class a body belongs. -/
theorem assignTargets_ofClass (span : Span) (value : Value) (targets : List Expression) :
    assignTargets (.ofClass owner) span value targets =
      assignTargets .module span value targets := by
  induction targets with
  | nil => rfl
  | cons target rest inductionHypothesis =>
    rw [assignTargets, assignTargets, inductionHypothesis]
    cases target <;> rfl

mutual

/-- A statement is walked in the body of a class as in a module. -/
theorem walkStatement_ofClass : ∀ statement,
    engine.walkStatement (.ofClass owner) statement = engine.walkStatement .module statement
  | .assign targets _ span => by
    simp only [walkStatement, assignTargets_ofClass owner span _ targets]
  | .annotated target _ _ span => by
    simp only [walkStatement]
    cases target <;> rfl
  | .branch _ body otherwise _ => by
    simp only [walkStatement, walkBlock_ofClass body, walkBlock_ofClass otherwise]
  | .iteration _ _ body otherwise _ => by
    simp only [walkStatement, walkBlock_ofClass body, walkBlock_ofClass otherwise]
  | .loop _ body otherwise _ => by
    simp only [walkStatement, walkBlock_ofClass body, walkBlock_ofClass otherwise]
  | .ret _ _ => by
    simp only [walkStatement]
    rfl
  | .expression _ _ | .function _ | .classDefinition _ | .global _ _ | .nonlocal _ _ | .pass _ => by
    simp only [walkStatement]

theorem walkBlock_ofClass : ∀ block,
    engine.walkBlock (.ofClass owner) block = engine.walkBlock .module block
  | [] => by rw [walkBlock, walkBlock]
  | statement :: rest => by
    rw [walkBlock, walkBlock, walkStatement_ofClass statement, walkBlock_ofClass rest]

end

/-- A branch or loop in the body of a class is walked as in a module: what is bound in its blocks,
and what a loop runs over, is no business of the class. -/
theorem collectMembers_of_blocks {statement : Statement} (blocks : statement.hasBlocks = true)
    (rest : List Statement) :
    engine.collectMembers owner (statement :: rest) = (do
      engine.walkStatement .module statement
      engine.collectMembers owner rest) := by
  cases statement with
  | branch | iteration | loop =>
    simp only [collectMembers, walkStatement_ofClass owner]
  | expression | assign | annotated | ret | function | classDefinition | global | «nonlocal»
  | pass => cases blocks

end Blocks

end Engine

namespace Analyzer

/-- A class that binds names in all ways in which they become members. -/
def point : ClassDefinition :=
  ⟨⟨1⟩, .ofName "Point", [],
    [.assign [.ofName "x", .display .tuple [.ofName "y", .display .list [.ofName "z"] .unknown]
        .unknown] (.constant (.int 1) .unknown) .unknown,
      .annotated (.ofName "size") (.ofName "int") none .unknown,
      .defineFunction 2 "norm" ["self"] [.pass .unknown],
      .defineClass 3 "Inner" [] [.define "inside" (.constant (.int 2) .unknown)]], [], .unknown⟩

/-- A class that binds a name in a branch. -/
def branching : ClassDefinition :=
  ⟨⟨1⟩, .ofName "C", [],
    [.branch (.constant (.int 1) .unknown) [.define "x" (.constant (.int 1) .unknown)] [] .unknown],
    [], .unknown⟩

/-- A fresh analyzer in the scope of a module. -/
def moduleOpened : Progress :=
  { Registry.start with scopes := (Registry.start.scopes.push .module .module none).2 }

/-- The declaration of a class. -/
def declaring (definition : ClassDefinition) : Analysis ClassId :=
  Engine.standard.declareClass definition

/-- A class has members for what is assigned to one name or to several, for what is annotated, and
for what is defined. -/
theorem own_names_are_members_point :
    (declaring point).yields Registry.environment moduleOpened Registry.standard.store.nextClass =
        true ∧
      point.body.flatMap Statement.ownNames = ["x", "y", "z", "size", "norm", "Inner"] ∧
      ∀ name ∈ ["x", "y", "z", "size", "norm", "Inner"],
        name ∈ ((declaring point).after Registry.environment moduleOpened).store.memberNames
          Registry.standard.store.nextClass := by
  have declared : (declaring point).yields Registry.environment moduleOpened
      Registry.standard.store.nextClass = true := by
    decide +kernel
  have names : point.body.flatMap Statement.ownNames = ["x", "y", "z", "size", "norm", "Inner"] :=
    rfl
  refine ⟨declared, names, fun name listed => ?_⟩
  obtain ⟨statement, among, own⟩ := List.mem_flatMap.mp (names ▸ listed)
  have new : moduleOpened.symbols.class? point.id = none := rfl
  exact Engine.own_names_are_members Engine.depthLimit new (ok_of_yields declared) statement among
    name own

/-- Not every name that the body of a class binds is a member: one that is bound in a branch is a
variable of the scope of the class, and the class has no member at all. -/
theorem branch_name_is_no_member :
    let after := (declaring branching).after Registry.environment moduleOpened
    (declaring branching).yields Registry.environment moduleOpened
        Registry.standard.store.nextClass = true ∧
      ((after.scopes.scopeAt ⟨1⟩).kind = .classBody ∧
        (after.scopes.scopeAt ⟨1⟩).names = [classCell, "x"]) ∧
      "x" ∉ after.store.memberNames Registry.standard.store.nextClass := by
  decide +kernel

end Analyzer

end TypeInference
