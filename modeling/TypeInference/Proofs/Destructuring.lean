import TypeInference.Definitions.Walk
import TypeInference.Proofs.Declarations
import TypeInference.Proofs.Operations
import TypeInference.Proofs.Phrases

/-!
# Targets that are taken apart

A target that is a tuple or a list is taken apart together with its value, and so are the tuples and
lists inside of it, until there are only leaves, each with an element of its own.

An assignment does not treat the leaves like targets that stand alone: it declares the names among
them, wherever they stand, and nothing else. An iteration over a mapping declares the items of its
target only, and not what is inside of them. For both it is said exactly when that makes no
difference.
-/

namespace TypeInference

namespace Expression

mutual

/-- The leaves of a target, each with the value that it gets. A tuple or list gives its items the
successive elements of its value, and the unknown value when there are none left. -/
def leaves (value : Value) : Expression → List (Expression × Value)
  | .display .list items _ => leavesOf value.iterate items
  | .display .tuple items _ => leavesOf value.iterate items
  | leaf => [(leaf, value)]

/-- The leaves of several targets with the successive elements of an iteration. -/
def leavesOf (elements : Option Elements) : List Expression → List (Expression × Value)
  | [] => []
  | target :: rest =>
    leaves (Value.nextOf elements).1 target ++ leavesOf (Value.nextOf elements).2 rest

end

mutual

/-- No leaf is taken apart. -/
theorem whole_leaves (value : Value) : ∀ target : Expression,
    ∀ leaf ∈ target.leaves value, Analysis.targetsOf? leaf.1 = none
  | .display .list items _ | .display .tuple items _ => whole_leavesOf value.iterate items
  | .name _ | .display .set _ _ | .constant _ _ | .attribute .. | .index .. | .slice .. | .call ..
  | .dict .. | .comprehension _ | .yield .. | .unary .. | .binary .. => by
    simp [leaves, Analysis.targetsOf?]

theorem whole_leavesOf (elements : Option Elements) : ∀ targets : List Expression,
    ∀ leaf ∈ leavesOf elements targets, Analysis.targetsOf? leaf.1 = none
  | [] => List.forall_mem_nil _
  | target :: rest => List.forall_mem_append.mpr
    ⟨whole_leaves _ target, whole_leavesOf _ rest⟩

end

/-- The leaves of a target that is taken apart are those of its items. -/
theorem leaves_of_targetsOf? {target : Expression} {items : List Expression}
    (pattern : Analysis.targetsOf? target = some items) (value : Value) :
    target.leaves value = leavesOf value.iterate items := by
  obtain ⟨_, rfl | rfl⟩ := display_of_targetsOf? pattern
  · rfl
  · rfl

/-- The identifier, if the expression is a name. -/
def identifier? : Expression → Option Identifier
  | .name identifier => some identifier
  | _ => none

end Expression

/-- The names among leaves, each where it stands. -/
def namedLeaves (leaves : List (Expression × Value)) : List Named :=
  leaves.filterMap fun leaf => leaf.1.identifier?.map fun identifier => (identifier, leaf.2)


theorem namedLeaves_append (first second : List (Expression × Value)) :
    namedLeaves (first ++ second) = namedLeaves first ++ namedLeaves second :=
  List.filterMap_append

mutual

/-- The names among the leaves of a target are the names that it binds. -/
theorem names_leaves (value : Value) : ∀ target : Expression,
    (namedLeaves (target.leaves value)).map (·.1.name) = target.targetNames
  | .display .list items _ | .display .tuple items _ => names_leavesOf value.iterate items
  | .name _ | .display .set _ _ | .constant _ _ | .attribute .. | .index .. | .slice .. | .call ..
  | .dict .. | .comprehension _ | .yield .. | .unary .. | .binary .. => rfl

theorem names_leavesOf (elements : Option Elements) : ∀ targets : List Expression,
    (namedLeaves (Expression.leavesOf elements targets)).map (·.1.name) =
      Expression.namesOfTargets targets
  | [] => rfl
  | target :: rest => by
    rw [Expression.leavesOf, namedLeaves_append, List.map_append, names_leaves, names_leavesOf]
    rfl

end

namespace Analysis

variable {environment : Environment} {before : Progress} {id : ScopeId}

/-- A name that is a target is declared where the statement stands. -/
theorem bindName_apply (current : before.scopes.current? = some id) (target : Expression)
    (value : Value) (span : Span) : bindName target value span environment before =
      .ok () { before with
        scopes := before.scopes.declareNames id
          ((namedLeaves [(target, value)]).map (Named.placed span)) } := by
  cases target with
  | name identifier =>
    exact changeScopes_of_ok environment
      (Scopes.declare_eq_declareName current ({ identifier with span }, value))
  | _ => rfl

/-- Declarations one after the other are the declarations of all names. -/
theorem declared_bind {first second : Analysis Unit} {entries : List Named}
    (one : ∀ before : Progress, before.scopes.current? = some id → first environment before =
      .ok () { before with scopes := before.scopes.declareNames id entries })
    {others : List Named}
    (two : ∀ before : Progress, before.scopes.current? = some id → second environment before =
      .ok () { before with scopes := before.scopes.declareNames id others })
    (current : before.scopes.current? = some id) :
    (do
      first
      second : Analysis Unit) environment before =
        .ok () { before with scopes := before.scopes.declareNames id (entries ++ others) } := by
  rw [bind_of_ok (one before current), Scopes.declareNames_append]
  exact two _ (Scopes.current?_declareNames before.scopes entries ▸ current)

/-- Unpacking declares the names among the leaves, all where the statement stands. -/
theorem unpack_apply (span : Span) (targets : List Expression) (elements : Option Elements) :
    ∀ before : Progress, before.scopes.current? = some id →
      unpack span targets elements environment before =
        .ok () { before with
          scopes := before.scopes.declareNames id
            ((namedLeaves (Expression.leavesOf elements targets)).map (Named.placed span)) } := by
  induction targets, elements using unpack.induct with
  | case1 elements =>
    intro before _
    rw [unpack]
    rfl
  | case2 items _ rest elements element others found inner after =>
    intro before current
    simp only [unpack, found, Expression.leavesOf, Expression.leaves, namedLeaves_append,
      List.map_append]
    exact declared_bind inner after current
  | case3 items _ rest elements element others found inner after =>
    intro before current
    simp only [unpack, found, Expression.leavesOf, Expression.leaves, namedLeaves_append,
      List.map_append]
    exact declared_bind inner after current
  | case4 target rest elements notList notTuple element others found after =>
    intro before current
    rw [unpack]
    · simp only [found, Expression.leavesOf, namedLeaves_append, List.map_append]
      rw [Expression.leaves]
      · exact declared_bind (fun _ open_ => bindName_apply open_ target element span) after current
      · exact notList
      · exact notTuple
    · exact notList
    · exact notTuple

end Analysis

/-- An attribute of the receiver with a value that it gets. -/
abbrev Observed := (ClassId × String) × Value

/-- The member of which class an expression is as an attribute of the receiver. -/
def Frame.attribute? (frame : Frame) : Expression → Option (ClassId × String)
  | .attribute object name _ =>
    match frame.owner, frame.receiver with
    | some owner, some receiver =>
      if object.asName? = some receiver then some (owner, name.name) else none
    | _, _ => none
  | _ => none

/-- Attributes of the receiver are members of the class that the frame belongs to. -/
theorem Frame.owner_of_attribute? {frame : Frame} {target : Expression}
    {member : ClassId × String} (attributed : frame.attribute? target = some member) :
    frame.owner = some member.1 := by
  unfold attribute? at attributed
  split at attributed
  · split at attributed
    · next owner _ isOwner _ =>
      split at attributed
      · cases attributed
        exact isOwner
      · cases attributed
    · cases attributed
  · cases attributed

/-- The attributes of the receiver among leaves. -/
def Frame.attributes (frame : Frame) (leaves : List (Expression × Value)) : List Observed :=
  leaves.filterMap fun leaf => (frame.attribute? leaf.1).map fun member => (member, leaf.2)

theorem Frame.attributes_append (frame : Frame) (first second : List (Expression × Value)) :
    frame.attributes (first ++ second) = frame.attributes first ++ frame.attributes second :=
  List.filterMap_append

namespace Store

/-- The store after attributes of the receiver are set in order. -/
def setAttributes (store : Store) (attributes : List Observed) : Store :=
  attributes.foldl
    (fun store observed => store.withAttribute observed.1.1 observed.1.2 observed.2) store

theorem setAttributes_append (store : Store) (first second : List Observed) :
    store.setAttributes (first ++ second) = (store.setAttributes first).setAttributes second :=
  List.foldl_append

variable {store : Store}

/-- A member that takes the place of itself changes nothing. -/
theorem addMember_eq_self {id : ClassId} {name : String} {value : Value}
    (found : store.ownMember? id name = some value) :
    (store.addMember id name value true).2 = store := by
  have inEntries (entries : List (String × Value))
      (here : OrderedTable.findIn name entries = some value) :
      OrderedTable.putIn name value entries = entries := by
    induction entries with
    | nil => cases here
    | cons entry rest inductionHypothesis =>
      rw [OrderedTable.findIn] at here
      rw [OrderedTable.putIn]
      split at here
      · next same =>
        cases here
        rw [if_pos same]
      · next apart => rw [if_neg apart, inductionHypothesis here]
  rw [addMember_eq]
  refine store.modifyClass_of_same id _ ?_
  have members : ((store.classAt id).members.insert name value true).2 =
      (store.classAt id).members := by
    simp only [MemberTable.insert, Bool.not_true, Bool.and_false, Bool.false_eq_true, if_false,
      OrderedTable.put]
    rw [inEntries _ found]
  rw [members]

/-- An attribute that sets nothing new: the class has the member, and knows its value unless the one
that is assigned is unknown as well. -/
def Absorbs (store : Store) (observed : Observed) : Prop :=
  ∃ existing, store.ownMember? observed.1.1 observed.1.2 = some existing ∧
    (existing.isUnknown = true → observed.2.isUnknown = true)

theorem withAttribute_of_absorbs {observed : Observed} (absorbs : store.Absorbs observed) :
    store.withAttribute observed.1.1 observed.1.2 observed.2 = store := by
  obtain ⟨existing, found, unknown⟩ := absorbs
  unfold withAttribute
  rw [found]
  dsimp only
  split
  · next isUnknown =>
    have value (given : Value) (none : given.isUnknown = true) : given = .unknown := by
      cases given <;> first | rfl | cases none
    rw [value _ (unknown isUnknown), ← value _ isUnknown]
    exact addMember_eq_self found
  · rfl

theorem setAttributes_of_absorbs {attributes : List Observed}
    (absorbs : ∀ observed ∈ attributes, store.Absorbs observed) :
    store.setAttributes attributes = store := by
  induction attributes with
  | nil => rfl
  | cons observed rest inductionHypothesis =>
    obtain ⟨first, others⟩ := List.forall_mem_cons.mp absorbs
    rw [setAttributes, List.foldl_cons, withAttribute_of_absorbs first]
    exact inductionHypothesis others

/-- What is remembered is still absorbed. -/
theorem Absorbs.remember {next : Store} {observed : Observed} (absorbs : store.Absorbs observed)
    (remember : store.Remember next) : next.Absorbs observed := by
  obtain ⟨existing, found, unknown⟩ := absorbs
  obtain ⟨later, there, known⟩ := remember _ _ found
  refine ⟨later, there, fun laterUnknown => unknown ?_⟩
  cases isUnknown : existing.isUnknown with
  | true => rfl
  | false =>
    rw [known isUnknown] at laterUnknown
    cases laterUnknown

/-- After an attribute is set, the class has the member, and other members are still there. -/
theorem withAttribute_spec {observed : Observed} (present : store.HasClass observed.1.1) :
    let after := store.withAttribute observed.1.1 observed.1.2 observed.2
    after.Absorbs observed ∧ store.Remember after := by
  have added (permitted : store.MayReplace observed.1.1 observed.1.2 observed.2 true) :
      (store.addMember observed.1.1 observed.1.2 observed.2 true).2.Absorbs observed ∧
        store.Remember (store.addMember observed.1.1 observed.1.2 observed.2 true).2 := by
    refine ⟨⟨observed.2, ?_, id⟩, permitted.remember⟩
    rw [ownMember?_addMember, if_pos ⟨rfl, present, rfl, .inr rfl⟩]
  unfold withAttribute
  cases found : store.ownMember? observed.1.1 observed.1.2 with
  | none => exact added fun _ _ existing there => by cases found.symm.trans there
  | some existing =>
    dsimp only
    split
    · next unknown =>
      refine added fun _ _ other there => ?_
      cases found.symm.trans there
      exact unknown
    · next known =>
      exact ⟨⟨existing, found, fun unknown => absurd unknown known⟩,
        fun _ _ value there => ⟨value, there, fun isKnown => isKnown⟩⟩

/-- Attributes are set in order: every class has all of these members, and those it had. -/
theorem setAttributes_spec {attributes : List Observed}
    (present : ∀ observed ∈ attributes, store.HasClass observed.1.1) :
    (∀ observed ∈ attributes, (store.setAttributes attributes).Absorbs observed) ∧
      store.Remember (store.setAttributes attributes) := by
  induction attributes generalizing store with
  | nil => exact ⟨List.forall_mem_nil _, fun _ _ value there => ⟨value, there, id⟩⟩
  | cons observed rest inductionHypothesis =>
    obtain ⟨here, others⟩ := List.forall_mem_cons.mp present
    obtain ⟨absorbs, remember⟩ := withAttribute_spec here
    obtain ⟨later, still⟩ := inductionHypothesis fun other listed =>
      ((store.alike_withAttribute _ _ _).hasClass _).mpr (others other listed)
    refine ⟨List.forall_mem_cons.mpr ⟨absorbs.remember still, later⟩, fun id name value there => ?_⟩
    obtain ⟨middle, found, known⟩ := remember id name there
    obtain ⟨last, left, stillKnown⟩ := still id name found
    exact ⟨last, left, stillKnown ∘ known⟩

/-- Attributes that are set leave all members as they are exactly if they set nothing new. -/
theorem ownMember?_setAttributes_iff {attributes : List Observed}
    (present : ∀ observed ∈ attributes, store.HasClass observed.1.1) :
    (∀ id name, (store.setAttributes attributes).ownMember? id name = store.ownMember? id name) ↔
      ∀ observed ∈ attributes, store.Absorbs observed := by
  constructor
  · intro same observed listed
    have absorbs := (setAttributes_spec present).1 observed listed
    unfold Absorbs at absorbs ⊢
    rwa [same] at absorbs
  · intro absorbs id name
    rw [setAttributes_of_absorbs absorbs]

end Store

namespace Engine

/-- Assigns to targets one by one, each its own value. -/
def assignEach (frame : Frame) (span : Span) : List (Expression × Value) → Analysis Unit
  | [] => return
  | (target, value) :: rest => do
    assignTarget frame span value target
    assignEach frame span rest

/-- Assigns to the leaves of a target one by one. -/
def assignLeaves (frame : Frame) (span : Span) (value : Value) (target : Expression) :
    Analysis Unit :=
  assignEach frame span (target.leaves value)

variable {environment : Environment} {before : Progress} {id : ScopeId}

/-- Assigning to a target that is not taken apart sets an attribute of the receiver, or declares a
name other than the receiver's, or does nothing. -/
theorem assignTarget_leaf_apply (frame : Frame) (span : Span) (value : Value)
    (current : before.scopes.current? = some id) : ∀ {target : Expression},
    Analysis.targetsOf? target = none →
      assignTarget frame span value target environment before =
        .ok () { before with
          store := before.store.setAttributes (frame.attributes [(target, value)])
          scopes := before.scopes.declareNames id
            (Scopes.others frame.receiver (namedLeaves [(target, value)])) }
  | .name identifier, _ => by
    rw [assignTarget]
    by_cases isReceiver : frame.receiver = some identifier.name
    · have none : Scopes.others frame.receiver (namedLeaves [(.name identifier, value)]) = [] := by
        simp [Scopes.others, namedLeaves, Expression.identifier?, isReceiver]
      rw [if_pos isReceiver, none]
      rfl
    · have one : Scopes.others frame.receiver (namedLeaves [(.name identifier, value)]) =
          [(identifier, value)] := by
        simp [Scopes.others, namedLeaves, Expression.identifier?, isReceiver]
      rw [if_neg isReceiver, one]
      exact Analysis.changeScopes_of_ok environment
        (Scopes.declare_eq_declareName current (identifier, value))
  | .attribute object name _, _ => by
    obtain ⟨overload, owner, receiver, isConstructor⟩ := frame
    cases owner with
    | none => rfl
    | some owner =>
      cases receiver with
      | none => rfl
      | some receiver =>
        simp only [assignTarget, Frame.attributes, Frame.attribute?, List.filterMap_cons,
          List.filterMap_nil]
        split <;> rfl
  | .display .list _ _, whole | .display .tuple _ _, whole => nomatch whole
  | .display .set _ _, _ | .constant _ _, _ | .index .., _ | .slice .., _ | .call .., _
  | .dict .., _ | .comprehension _, _ | .yield .., _ | .unary .., _ | .binary .., _ => rfl

/-- Assigning to leaves one by one sets the attributes of the receiver among them and declares the
names other than the receiver's where they stand. -/
theorem assignEach_apply (frame : Frame) (span : Span) (leaves : List (Expression × Value))
    (whole : ∀ leaf ∈ leaves, Analysis.targetsOf? leaf.1 = none) :
    ∀ before : Progress, before.scopes.current? = some id →
      assignEach frame span leaves environment before =
        .ok () { before with
          store := before.store.setAttributes (frame.attributes leaves)
          scopes := before.scopes.declareNames id
            (Scopes.others frame.receiver (namedLeaves leaves)) } := by
  induction leaves with
  | nil => exact fun _ _ => rfl
  | cons leaf rest inductionHypothesis =>
    intro before current
    have both := List.forall_mem_cons.mp whole
    have first : assignTarget frame span leaf.2 leaf.1 environment before = _ :=
      assignTarget_leaf_apply frame span leaf.2 current both.1
    rw [assignEach, Analysis.bind_of_ok first,
      inductionHypothesis both.2 _ (by rw [Scopes.current?_declareNames, current])]
    have declared : before.scopes.declareNames id
        (Scopes.others frame.receiver (namedLeaves (leaf :: rest))) =
        (before.scopes.declareNames id
          (Scopes.others frame.receiver (namedLeaves [leaf]))).declareNames id
            (Scopes.others frame.receiver (namedLeaves rest)) := by
      rw [← Scopes.declareNames_append, ← Scopes.others_append, ← namedLeaves_append]
      rfl
    have observed : before.store.setAttributes (frame.attributes (leaf :: rest)) =
        (before.store.setAttributes (frame.attributes [leaf])).setAttributes
          (frame.attributes rest) := by
      rw [← Store.setAttributes_append, ← Frame.attributes_append]
      rfl
    rw [declared, observed]

/-- Assigning to a tuple or a list unpacks the value. -/
theorem assignTarget_of_targetsOf? {target : Expression} {items : List Expression}
    (pattern : Analysis.targetsOf? target = some items) (frame : Frame) (span : Span)
    (value : Value) :
    assignTarget frame span value target = Analysis.unpack span items value.iterate := by
  obtain ⟨_, rfl | rfl⟩ := Expression.display_of_targetsOf? pattern
  · rfl
  · rfl

/-- Assigning to a tuple or a list declares the names among its leaves where the statement stands.
-/
theorem assignTarget_pattern_apply {target : Expression} {items : List Expression}
    (pattern : Analysis.targetsOf? target = some items) (frame : Frame) (span : Span)
    (value : Value) (current : before.scopes.current? = some id) :
    assignTarget frame span value target environment before =
      .ok () { before with
        scopes := before.scopes.declareNames id
          ((namedLeaves (target.leaves value)).map (Named.placed span)) } := by
  rw [assignTarget_of_targetsOf? pattern, Expression.leaves_of_targetsOf? pattern]
  exact Analysis.unpack_apply span items value.iterate before current

/-- Whether taking apart a tuple or a list comes to the same as assigning to its leaves one by one,
each its own element, can be said exactly. The members of the classes are the same if and only if
every attribute of the receiver among the leaves sets nothing new: the class has the member, and
knows it unless the element is unknown as well. Then the stores are the same. The scopes are the
same if and only if the receiver's own name is not among the leaves, or has the value that the
elements would leave it with, and every other name among them is a variable already or stands where
the statement does.

Proof: taking the target apart declares all names among the leaves at the place of the statement and
does nothing else. One by one, the attributes of the receiver are set, and the names other than the
receiver's are declared where they stand. Members that were set stay known, so the classes end with
the members they had only if no attribute set a new one. Which variables declarations in order leave
is known for each name. -/
theorem assignTarget_eq_assignLeaves_iff (frame : Frame) (span : Span) (value : Value)
    {target : Expression} {items : List Expression}
    (pattern : Analysis.targetsOf? target = some items) (environment : Environment)
    {before : Progress} {id : ScopeId} (wellFormed : before.scopes.WellFormed)
    (current : before.scopes.current? = some id)
    (owned : ∀ owner, frame.owner = some owner → before.store.HasClass owner) :
    let leaves := target.leaves value
    ∃ whole single,
      assignTarget frame span value target environment before = .ok () whole ∧
        assignLeaves frame span value target environment before = .ok () single ∧
        whole.symbols = single.symbols ∧ whole.log = single.log ∧
        ((∀ owner name, whole.store.ownMember? owner name = single.store.ownMember? owner name) ↔
          ∀ observed ∈ frame.attributes leaves, before.store.Absorbs observed) ∧
        ((∀ observed ∈ frame.attributes leaves, before.store.Absorbs observed) →
          whole.store = single.store) ∧
        (whole.scopes = single.scopes ↔
          (∀ name, frame.receiver = some name →
            before.scopes.Unmoved id (namedLeaves leaves) name) ∧
          ∀ name, frame.receiver ≠ some name →
            before.scopes.StandsAt id (namedLeaves leaves) span name) := by
  intro leaves
  have present : id.index < before.scopes.all.size :=
    wellFormed.opened id (List.mem_of_mem_head? current)
  have apart : assignTarget frame span value target environment before = _ :=
    assignTarget_pattern_apply pattern frame span value current
  have single : assignEach frame span leaves environment before = _ :=
    assignEach_apply frame span leaves (Expression.whole_leaves value target) before current
  have members : ∀ observed ∈ frame.attributes leaves, before.store.HasClass observed.1.1 := by
    intro observed listed
    obtain ⟨leaf, -, made⟩ := List.mem_filterMap.mp listed
    obtain ⟨member, attributed, rfl⟩ := Option.map_eq_some_iff.mp made
    exact owned _ (Frame.owner_of_attribute? attributed)
  refine ⟨_, _, apart, single, rfl, rfl, ?_, fun absorbs => ?_, ?_⟩
  · simpa only [eq_comm] using Store.ownMember?_setAttributes_iff members
  · exact (Store.setAttributes_of_absorbs absorbs).symm
  · exact Scopes.declareNames_placed_iff wellFormed present (namedLeaves leaves) span frame.receiver

section Methods

/-- A class that is new after the registered ones. -/
def methodClass : ClassId :=
  Registry.standard.store.nextClass

/-- The frame of a method of that class. -/
def methodFrame : Frame :=
  { owner := some methodClass, receiver := some "self" }

/-- The body of the method is entered, and the class has some members. -/
def inMethod (members : MemberTable) : Progress where
  store := (Registry.standard.store.addClass { ClassRecord.named "C" "C" none with members }).2
  scopes := (Scopes.push {} ⟨1⟩ .functionBody none).2.modifyScope ⟨0⟩ fun scope =>
    scope.insert
      { name := "self", value := .object (.cls methodClass) .plain, kind := .parameter,
        node := none, span := .unknown }

/-- A pair of an integer and a text. -/
def numberAndText : Value :=
  .object (Store.builtinType .tuple)
    (.sequence ⟨[.object (Store.builtinType .int) .plain, .object (Store.builtinType .str) .plain],
      true⟩)

/-- A pair of targets, the first of which is an attribute of the receiver. -/
def attributeAnd (name : String) : Expression :=
  .display .tuple [.attributeOf "self" "x", .ofName name] .unknown

/-- An attribute of the receiver that the class knows, and a new name. -/
theorem assignTarget_eq_assignLeaves_known :
    let before := inMethod ⟨[("x", .object (Store.builtinType .int) .plain)]⟩
    ∃ whole single,
      assignTarget methodFrame .unknown numberAndText (attributeAnd "y") Registry.environment
          before = .ok () whole ∧
        assignLeaves methodFrame .unknown numberAndText (attributeAnd "y") Registry.environment
          before = .ok () single ∧
        whole.store = single.store ∧ whole.scopes = single.scopes := by
  intro before
  have current : before.scopes.current? = some ⟨0⟩ := by decide +kernel
  have pattern : Analysis.targetsOf? (attributeAnd "y") =
      some [.attributeOf "self" "x", .ofName "y"] := rfl
  have attributes : methodFrame.attributes ((attributeAnd "y").leaves numberAndText) =
      [((methodClass, "x"), .object (Store.builtinType .int) .plain)] := rfl
  have names : namedLeaves ((attributeAnd "y").leaves numberAndText) =
      [(.ofName "y", .object (Store.builtinType .str) .plain)] := rfl
  obtain ⟨whole, single, apart, each, -, -, -, stores, scopes⟩ :=
    assignTarget_eq_assignLeaves_iff methodFrame .unknown numberAndText pattern
      Registry.environment (by decide +kernel) current fun owner isOwner =>
        (Store.hasClass_addClass _ _ _).mpr (.inr (Option.some.inj isOwner).symm)
  refine ⟨whole, single, apart, each, stores ?_, scopes.mpr ⟨fun name isReceiver among => ?_,
    fun name _ _ first found => ?_⟩⟩
  · rw [attributes]
    refine List.forall_mem_singleton.mpr ⟨.object (Store.builtinType .int) .plain, ?_, nofun⟩
    unfold Store.ownMember?
    rw [show before.store.classAt methodClass = _ from Store.classAt_addClass _ _]
    rfl
  · cases Option.some.inj isReceiver
    rw [names] at among
    obtain ⟨entry, listed, same⟩ := among
    cases List.mem_singleton.mp listed
    exact absurd same (by decide)
  · rw [names] at found
    cases List.mem_singleton.mp (List.mem_of_find?_eq_some found)
    rfl

/-- An attribute of the receiver that the class does not have, and the receiver itself. Taken apart,
the pair gives the class no member and the receiver the text; one by one, its leaves give the class
the member and leave the receiver alone. -/
theorem assignTarget_pattern_differs :
    ∃ whole single,
      assignTarget methodFrame .unknown numberAndText (attributeAnd "self") Registry.environment
          (inMethod {}) = .ok () whole ∧
        assignLeaves methodFrame .unknown numberAndText (attributeAnd "self") Registry.environment
          (inMethod {}) = .ok () single ∧
        (whole.store.ownMember? methodClass "x").isSome = false ∧
        (single.store.ownMember? methodClass "x").isSome = true ∧
        ((whole.scopes.scopeAt ⟨0⟩).valueOf? "self").map (·.allTypes.map Ty.asClass?) =
          some [some (Store.builtinClass .str)] ∧
        ((single.scopes.scopeAt ⟨0⟩).valueOf? "self").map (·.allTypes.map Ty.asClass?) =
          some [some methodClass] := by
  have current : (inMethod {}).scopes.current? = some ⟨0⟩ := by decide +kernel
  exact ⟨_, _, assignTarget_pattern_apply rfl _ _ _ current,
    assignEach_apply _ _ _ (Expression.whole_leaves _ _) _ current, by decide +kernel,
    by decide +kernel, by decide +kernel, by decide +kernel⟩

end Methods

end Engine

namespace Analysis

variable {environment : Environment} {before : Progress} {id : ScopeId}

/-- Over the items of a target that are names, declarations with given values. -/
theorem bindNames_apply (span : Span) (targets : List Expression) : ∀ values : List Value,
    ∃ entries : List Named, entries.map (·.1.name) = targets.filterMap Expression.asName? ∧
      ∀ before : Progress, before.scopes.current? = some id →
        bindNames span targets values environment before =
          .ok () { before with scopes := before.scopes.declareNames id entries } := by
  induction targets with
  | nil => exact fun _ => ⟨[], rfl, fun _ _ => rfl⟩
  | cons target rest inductionHypothesis =>
    intro values
    obtain ⟨entries, names, declared⟩ := inductionHypothesis values.tail
    refine ⟨_ ++ entries, ?_, fun before current => declared_bind
      (fun _ current => bindName_apply current target (values.head?.getD .unknown) span) declared
      current⟩
    rw [List.map_append, names]
    cases target <;> rfl

/-- The names that a target of an iteration declares: all of its names, except over a mapping, where
a tuple or a list declares those that are its items. -/
def iterationNames (target : Expression) (iterable : Value) : List String :=
  match targetsOf? target, iterable.asMapping? with
  | some items, some _ => items.filterMap Expression.asName?
  | _, _ => target.targetNames

theorem bindIterationTarget_apply (span : Span) (target : Expression) (iterable : Value) :
    ∃ entries : List Named, entries.map (·.1.name) = iterationNames target iterable ∧
      ∀ before : Progress, before.scopes.current? = some id →
        bindIterationTarget target iterable span environment before =
          .ok () { before with scopes := before.scopes.declareNames id entries } := by
  cases listed : targetsOf? target with
  | none =>
    simp only [bindIterationTarget, iterationNames, listed]
    refine ⟨_, ?_, fun before current => bindName_apply current target _ span⟩
    rw [List.map_map]
    cases target with
    | display kind items _ => cases kind <;> first | rfl | cases listed
    | _ => rfl
  | some items =>
    cases found : iterable.asMapping? with
    | none =>
      simp only [bindIterationTarget, iterationNames, listed, found]
      refine ⟨_, ?_, unpack_apply span items _⟩
      rw [List.map_map, Expression.targetNames_of_targetsOf? listed]
      exact names_leavesOf _ items
    | some mapping =>
      simp only [bindIterationTarget, iterationNames, listed, found]
      exact bindNames_apply span items _

/-- Exactly which names of a target an iteration makes variables of the current scope. It never
fails. All of them are variables afterwards if and only if, where a mapping is taken apart by a
tuple or a list, each name is one of the items or a variable already; over anything else all of them
always are.

Proof: everything that is declared is declared from within a scope that redirects nothing, so it
becomes a variable of that scope, and no variable is lost. Unpacking declares the names at all
depths, and over a mapping those of the items are declared only. -/
theorem bindIterationTarget_binds_iff (target : Expression) (iterable : Value) (span : Span)
    (environment : Environment) {before : Progress} {id : ScopeId}
    (current : before.scopes.current? = some id) (present : id.index < before.scopes.all.size)
    (globals : (before.scopes.scopeAt id).globals = [])
    (nonlocals : (before.scopes.scopeAt id).nonlocals = []) :
    ∃ after, bindIterationTarget target iterable span environment before = .ok () after ∧
      after.scopes.current? = some id ∧
      ((∀ name ∈ target.targetNames, name ∈ (after.scopes.scopeAt id).names) ↔
        ∀ items, targetsOf? target = some items → iterable.asMapping?.isSome →
          ∀ name ∈ target.targetNames, name ∈ items.filterMap Expression.asName? ∨
            name ∈ (before.scopes.scopeAt id).names) := by
  obtain ⟨entries, names, declared⟩ :=
    @bindIterationTarget_apply environment id span target iterable
  have bound (name : String) :
      name ∈ ((before.scopes.declareNames id entries).scopeAt id).names ↔
        name ∈ (before.scopes.scopeAt id).names ∨ name ∈ entries.map (·.1.name) := by
    rw [Scopes.mem_names_declareNames present globals nonlocals, List.mem_map]
  refine ⟨_, declared before current, by rw [Scopes.current?_declareNames, current], ?_⟩
  simp only [bound, names, iterationNames]
  cases listed : targetsOf? target with
  | none => exact iff_of_true (fun _ => .inr) nofun
  | some items =>
    cases found : iterable.asMapping? with
    | none => exact iff_of_true (fun _ => .inr) fun _ _ => nofun
    | some mapping => simp [or_comm]

/-- A mapping with an integer as key of an unknown value. -/
def numbered : Value :=
  .object (Store.builtinType .dict)
    (.mapping ⟨[(.object (Store.builtinType .int) .plain, .unknown)], true⟩)

/-- A key and a pair. -/
def keyAnd (first second : String) : Expression :=
  .display .tuple
    [.ofName "key", .display .tuple [.ofName first, .ofName second] .unknown] .unknown

/-- A pair of a name that is an item as well and of one that is a variable already. -/
theorem bindIterationTarget_binds_known : ∃ after,
    bindIterationTarget (keyAnd "key" "self") numbered .unknown Registry.environment
        (Engine.inMethod {}) = .ok () after ∧
      ∀ name ∈ (keyAnd "key" "self").targetNames, name ∈ (after.scopes.scopeAt ⟨0⟩).names := by
  have current : (Engine.inMethod {}).scopes.current? = some ⟨0⟩ := by decide +kernel
  obtain ⟨after, returned, -, binds⟩ :=
    bindIterationTarget_binds_iff (keyAnd "key" "self") numbered .unknown Registry.environment
      current (by decide +kernel) (by decide +kernel) (by decide +kernel)
  refine ⟨after, returned, binds.mpr fun items listed _ => ?_⟩
  cases listed
  decide +kernel

/-- A pair of new names over a mapping: the iteration gives a result, and only the key is a variable
afterwards. -/
theorem bindIterationTarget_drops_pair : ∃ after,
    bindIterationTarget (keyAnd "first" "second") numbered .unknown Registry.environment
        (Engine.inMethod {}) = .ok () after ∧
      (after.scopes.scopeAt ⟨0⟩).names = ["self", "key"] ∧
      "first" ∈ (keyAnd "first" "second").targetNames ∧
      "second" ∈ (keyAnd "first" "second").targetNames :=
  have returned : (bindIterationTarget (keyAnd "first" "second") numbered .unknown).yields
      Registry.environment (Engine.inMethod {}) () = true := by decide +kernel
  ⟨_, ok_of_yields returned, by decide +kernel, by decide, by decide⟩

end Analysis

end TypeInference
