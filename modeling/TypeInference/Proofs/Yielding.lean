import TypeInference.Proofs.Reevaluating
import TypeInference.Proofs.Walking

/-!
# What a generator yields

A function without a type hint for its return is a generator if it yields something in a statement
of its body. What it returns is declared before the body is walked: an iterator over the value that
the first yielded expression has where the parameters are declared and nothing else. So an
expression that reads a name which an earlier statement binds is taken for what that name means
outside of the function, or for unknown.

The value is the one that the expression has at its place wherever the statements before it make no
difference to it. For expressions that show the values of names, in displays at most, this is so
exactly if these names mean the same. For any other expression it is enough that the statements
before are simple and bind no name that it reads, where no overload is pending.
-/

namespace TypeInference

open Analysis Store

namespace Expression

mutual

/-- An expression that shows constants and values of names, in displays at most. -/
def IsPlain : Expression → Prop
  | .constant _ _ | .name _ => True
  | .display _ items _ => ArePlain items
  | .attribute _ _ _ | .index _ _ _ | .slice _ _ _ _ | .call _ _ _ | .dict _ _ | .comprehension _
  | .yield _ _ | .unary _ _ _ | .binary _ _ _ _ => False

/-- Plain expressions. -/
def ArePlain : List Expression → Prop
  | [] => True
  | item :: rest => IsPlain item ∧ ArePlain rest

end

mutual

/-- The value of a plain expression, given what names mean and how many items of a display count. -/
def shownValue (limit : Nat) (means : String → Value) : Expression → Value
  | .constant value _ => Store.constantObject value
  | .name identifier => means identifier.name
  | .display kind items _ =>
    .object (Store.builtinType kind.builtin)
      (.sequence ⟨shownValues limit means limit items, decide (items.length ≤ limit)⟩)
  | .attribute _ _ _ | .index _ _ _ | .slice _ _ _ _ | .call _ _ _ | .dict _ _ | .comprehension _
  | .yield _ _ | .unary _ _ _ | .binary _ _ _ _ => .unknown

/-- The values of the first plain expressions. -/
def shownValues (limit : Nat) (means : String → Value) : Nat → List Expression → List Value
  | _, [] => []
  | 0, _ => []
  | count + 1, item :: rest => shownValue limit means item :: shownValues limit means count rest

end

mutual

/-- The names whose values a plain expression shows. -/
def shownNames (limit : Nat) : Expression → List String
  | .name identifier => [identifier.name]
  | .display _ items _ => namesShown limit limit items
  | .constant _ _ | .attribute _ _ _ | .index _ _ _ | .slice _ _ _ _ | .call _ _ _ | .dict _ _
  | .comprehension _ | .yield _ _ | .unary _ _ _ | .binary _ _ _ _ => []

/-- The names whose values the first plain expressions show. -/
def namesShown (limit : Nat) : Nat → List Expression → List String
  | _, [] => []
  | 0, _ => []
  | count + 1, item :: rest => shownNames limit item ++ namesShown limit count rest

end

mutual

/-- A plain expression has one value exactly if the names that it shows have. -/
theorem shownValue_eq_iff (limit : Nat) (first second : String → Value) :
    ∀ {expression : Expression}, expression.IsPlain →
      (expression.shownValue limit first = expression.shownValue limit second ↔
        ∀ name ∈ expression.shownNames limit, first name = second name)
  | .constant value _, _ => by simp [shownValue, shownNames]
  | .name identifier, _ => by simp [shownValue, shownNames]
  | .display kind items _, plain => by
    rw [IsPlain] at plain
    rw [shownValue, shownValue, shownNames, ← shownValues_eq_iff limit first second limit plain]
    simp

theorem shownValues_eq_iff (limit : Nat) (first second : String → Value) (count : Nat) :
    ∀ {items : List Expression}, ArePlain items →
      (shownValues limit first count items = shownValues limit second count items ↔
        ∀ name ∈ namesShown limit count items, first name = second name)
  | [], _ => by simp [shownValues, namesShown]
  | item :: rest, plain => by
    rw [ArePlain] at plain
    cases count with
    | zero => simp [shownValues, namesShown]
    | succ count =>
      rw [shownValues, shownValues, namesShown, List.cons.injEq, List.forall_mem_append,
        shownValue_eq_iff limit first second plain.1,
        shownValues_eq_iff limit first second count plain.2]

end

end Expression

namespace Scopes.Touches

variable {before after : Scopes} (touches : before.Touches (fun _ => False) after)

include touches

theorem size_eq : after.all.size = before.all.size :=
  Grows.size_eq touches fun _ created => created.2

/-- Scopes differ in free names only. -/
theorem same (id : ScopeId) : (before.scopeAt id).SameFrame (after.scopeAt id) ∧
    (after.scopeAt id).entries = (before.scopeAt id).entries := by
  by_cases present : id.index < before.all.size
  · exact ⟨(touches.kept id present).1, (touches.kept id present).2.1 not_false⟩
  · have outside := Nat.not_lt.mp present
    rw [scopeAt_of_size_le before id outside,
      scopeAt_of_size_le after id (touches.size_eq ▸ outside)]
    exact ⟨.refl _, rfl⟩

theorem variableIn?_eq (name : String) : after.variableIn? name = before.variableIn? name := by
  funext id
  rw [variableIn?, variableIn?, Scope.find?, Scope.find?, (touches.same id).2]

theorem around_eq (id : ScopeId) : after.around id = before.around id :=
  around_congr touches.size_eq (fun id => (touches.same id).1.parent) id

/-- So a look-up finds the same in both. -/
theorem lookup_eq (stack : after.stack = before.stack) (name : String) (reach : Reach) :
    (after.lookup name reach).1 = (before.lookup name reach).1 := by
  have here (id : ScopeId) : after.findHere? id name reach = before.findHere? id name reach := by
    unfold findHere?
    dsimp only
    rw [(touches.same id).1.globals, (touches.same id).1.nonlocals, (touches.same id).1.kind,
      touches.changes.moduleScope?, touches.variableIn?_eq]
  have beyond (id : ScopeId) :
      after.findAround? id name reach = before.findAround? id name reach := by
    unfold findAround?
    rw [touches.around_eq, touches.variableIn?_eq]
    simp only [fun id => (touches.same id).1.kind]
  have current : after.current? = before.current? := by
    rw [current?, current?, stack]
  cases found : before.current? with
  | none => rw [Scopes.lookup, Scopes.lookup, current, found]
  | some id =>
    rw [lookup_of_current found, lookup_of_current (current.trans found), here, beyond,
      (touches.same id).1.globals]

end Scopes.Touches

/-- What a name means: a variable that can be reached, or else a registered name, or nothing. -/
def Progress.meaning (environment : Environment) (progress : Progress) (name : String) : Value :=
  (((progress.scopes.lookup name .everything).1.map (·.2.value)).or
    (environment.registry.find? name)).getD .unknown

/-- Names mean the same in progress whose scopes differ in free names only. -/
theorem Progress.meaning_eq {before after : Progress} (environment : Environment)
    (touches : before.scopes.Touches (fun _ => False) after.scopes)
    (stack : after.scopes.stack = before.scopes.stack) :
    after.meaning environment = before.meaning environment := by
  funext name
  rw [meaning, meaning, touches.lookup_eq stack]

namespace Engine

variable {engine : Engine} {environment : Environment}

mutual

/-- The value of a plain expression is made of what names mean. Nothing is changed but what is known
of free names. -/
theorem evaluate_plain : ∀ {expression : Expression}, expression.IsPlain → ∀ before : Progress,
    ∃ scopes, engine.evaluate .everything expression environment before =
        .ok (expression.shownValue environment.options.maxCollectionSize
          (before.meaning environment))
          { before with scopes } ∧
      before.scopes.Touches (fun _ => False) scopes ∧ scopes.stack = before.scopes.stack
  | .constant value _, _, before => by
    rw [evaluate]
    exact ⟨before.scopes, rfl, .refl _, rfl⟩
  | .name identifier, _, before => by
    rw [evaluate, Expression.shownValue]
    refine ⟨_, ?_, .lookup _ identifier.name .everything, Scopes.stack_lookup ..⟩
    rw [bind_of_ok (lookupName?_apply identifier.name .everything environment before),
      Progress.meaning]
    cases (before.scopes.lookup identifier.name .everything).1 <;> rfl
  | .display kind items _, plain, before => by
    rw [Expression.IsPlain] at plain
    obtain ⟨scopes, evaluated, touches, stack⟩ :=
      evaluateItems_plain environment.options.maxCollectionSize plain before
    rw [evaluate, Expression.shownValue]
    exact ⟨scopes, bind_of_ok evaluated _, touches, stack⟩

theorem evaluateItems_plain (count : Nat) : ∀ {items : List Expression},
    Expression.ArePlain items → ∀ before : Progress,
      ∃ scopes, engine.evaluateItems .everything count items environment before =
          .ok (Expression.shownValues environment.options.maxCollectionSize
            (before.meaning environment) count items) { before with scopes } ∧
        before.scopes.Touches (fun _ => False) scopes ∧ scopes.stack = before.scopes.stack
  | [], _, before => by
    rw [evaluateItems, Expression.shownValues]
    exact ⟨before.scopes, rfl, .refl _, rfl⟩
  | item :: rest, plain, before => by
    rw [Expression.ArePlain] at plain
    cases count with
    | zero =>
      simp only [evaluateItems, Expression.shownValues]
      exact ⟨before.scopes, rfl, .refl _, rfl⟩
    | succ count =>
      obtain ⟨scopes, first, touches, stack⟩ := evaluate_plain plain.1 before
      obtain ⟨last, others, touched, still⟩ :=
        evaluateItems_plain count plain.2 { before with scopes }
      -- The names after the first item mean what they meant before it.
      rw [Progress.meaning_eq environment touches stack] at others
      rw [evaluateItems, Expression.shownValues]
      exact ⟨last, by rw [bind_of_ok first, bind_of_ok others]; rfl, touches.trans touched,
        still.trans stack⟩

end

/-- A plain expression has the same value again where scopes are as its evaluation left them. -/
theorem evaluate_plain_again {engine : Engine} {environment : Environment}
    {before middle later : Progress} {expression : Expression} {value : Value}
    (plain : expression.IsPlain)
    (once : engine.evaluate .everything expression environment before = .ok value middle)
    (scopes : later.scopes = middle.scopes) :
    ∃ last, engine.evaluate .everything expression environment later = .ok value last ∧
      last.store = later.store ∧ later.scopes.Changes ∅ last.scopes := by
  obtain ⟨left, shown, touches, stack⟩ := evaluate_plain plain before
  obtain ⟨_, again, touched, -⟩ := evaluate_plain plain later
  rw [shown] at once
  cases once
  have same : later.scopes = left := scopes
  have means : later.meaning environment = before.meaning environment :=
    Progress.meaning_eq environment (same ▸ touches) (same ▸ stack)
  rw [means] at again
  exact ⟨_, again, rfl, touched.changes.mono fun _ => False.elim⟩

end Engine

/-- Scopes that differ from one scope in their variables and free names only differ so from each
other. -/
theorem Scope.SameFrame.common {scope first second : Scope} (one : scope.SameFrame first)
    (other : scope.SameFrame second) : first.SameFrame second :=
  ⟨other.kind.trans one.kind.symm, other.node.trans one.node.symm,
    other.parent.trans one.parent.symm,
    other.globals.trans one.globals.symm, other.nonlocals.trans one.nonlocals.symm⟩

/-- Where no value changed, what changes from there changes from what came of it. -/
theorem Scopes.Changes.still {places : Set (NodeId × String)} {before middle after : Scopes}
    (unchanged : before.Changes ∅ middle) (changes : before.Changes places after) :
    middle.Changes places after := by
  have size := unchanged.size_eq
  refine ⟨size ▸ changes.grown, fun id present => ?_, fun id old => changes.fresh id (size ▸ old)⟩
  have present := size ▸ present
  have frame := unchanged.frame present
  have value (name : String) :
      (middle.scopeAt id).valueOf? name = (before.scopeAt id).valueOf? name :=
    unchanged.valueOf? present (Set.notMem_empty _)
  obtain ⟨other, values⟩ := changes.kept id present
  refine ⟨frame.common other, fun name => ?_⟩
  rw [frame.node, value name]
  exact values name

/-- So does what leads from there. -/
theorem Progress.Leads.still {environment : Environment} {places : Set (NodeId × String)}
    {before middle after : Progress} (leads : before.Leads environment places after)
    (rest : middle.AtRest environment) (store : middle.store = before.store)
    (unchanged : before.scopes.Changes ∅ middle.scopes)
    (stack : middle.scopes.stack = before.scopes.stack) :
    middle.Leads environment places after where
  rests :=
    { start := rest
      rest := leads.rests.rest
      lasts := store ▸ leads.rests.lasts
      spares := store ▸ leads.rests.spares
      course := store ▸ leads.rests.course }
  scopes := unchanged.still leads.scopes
  wellFormed := leads.wellFormed
  stack := leads.stack.trans stack.symm

namespace Engine

/-- Declares the parameters of an overload and describes them. -/
def declaresParameters (engine : Engine) (id : OverloadId) (definition : FunctionDefinition) :
    Analysis Unit := do
  let parameters ← engine.declareParameters id.function definition.id 0 definition.parameters
  changeOverload id fun overload => { overload with parameters }

/-- Progress in which the evaluation of an overload begins, in the scope of its function. -/
def entered (id : OverloadId) (entry : FunctionEntry) (progress : Progress) : Progress :=
  { progress with
    store := progress.store.modifyOverload id fun overload => { overload with state := .evaluating }
    scopes := (progress.scopes.push entry.definition.id .functionBody (some entry.scope)).2 }

/-- An iterator over elements of which one is known. -/
def iteratorOver (element : Value) : Value :=
  .object (Store.builtinType .iterator) (.iterator element)

/-- What makes the statements before a yield, which are walked in the scope of a node, leave the
value of the yielded expression as it is. Comprehensions in it are as they have to be for it to be
evaluated again, and its value is the same again where it has just been recorded. The statements are
simple, and bind no name that the expression reads. Comprehensions in them have not been evaluated.
-/
structure Undisturbed (engine : Engine) (environment : Environment) (seen : Set NodeId)
    (node : NodeId) (frame : Frame) (earlier : List Statement) (yielded : Expression)
    (element : Value) (recorded : Progress) : Prop where
  ready : recorded.Ready environment seen node (yielded.samples node)
  isAt : recorded.scopes.IsAt node
  simple : Statement.BlockIsSimple frame.receiver earlier
  unbound : ∀ name ∈ yielded.reads, name ∉ Statement.blockNames earlier
  fresh : ∀ opened ∈ Outline.nodes (Outline.ofStatements earlier),
    recorded.scopes.scopeOf? opened = none ∧ opened ∉ seen ∧
      ∀ sample ∈ yielded.samples node, sample.2.id ≠ opened
  again : ∃ last, engine.evaluate .everything yielded environment recorded = .ok element last ∧
    last.store = recorded.store ∧ recorded.scopes.Changes ∅ last.scopes

/-- Undisturbed, the value is the same after the statements. -/
theorem Undisturbed.evaluate {depth : Nat} {environment : Environment} {seen : Set NodeId}
    {node : NodeId} {frame : Frame} {earlier : List Statement} {yielded : Expression}
    {element : Value} {recorded walked : Progress}
    (undisturbed : Undisturbed (.atDepth depth) environment seen node frame earlier yielded element
      recorded)
    (framed : Within undisturbed.ready.rest.grounded.references frame)
    (returned : (Engine.atDepth depth).walkBlock frame earlier environment recorded =
      .ok () walked) :
    ∃ last, (Engine.atDepth depth).evaluate .everything yielded environment walked =
      .ok element last := by
  obtain ⟨ready, isAt, simple, unbound, fresh, middle, once, store, unchanged⟩ := undisturbed
  let mayOpen : NodeId → Prop := (· ∈ Outline.nodes (Outline.ofStatements earlier))
  have hosts : recorded.scopes.Hosts mayOpen := fun id present opened =>
    absurd ⟨id, present, rfl⟩ (Scopes.scopeOf?_eq_none.mp (fresh _ opened).1)
  have leads := walkBlock_leads depth ready.rest framed ready.wellFormed hosts isAt
    (Outline.opens_of_nodes fun _ listed => listed) simple returned
  have isSeen : node ∈ seen := by
    obtain ⟨home, sees, here⟩ := ready.sees
    exact here ▸ sees.outward home List.mem_cons_self
  -- What the statements change is not what the expression reads.
  have apart : Disjoint (binding mayOpen node (Statement.blockNames earlier))
      (reading seen yielded.reads (yielded.samples node)) := by
    rw [Set.disjoint_left]
    rintro place (opened | ⟨isNode, bound⟩) (⟨visible, read⟩ | ⟨sample, listed, same⟩)
    · exact (fresh _ opened).2.1 visible
    · exact (fresh _ opened).2.2 sample listed same
    · exact unbound _ read bound
    · exact ready.unseen sample listed (same.trans isNode ▸ isSeen)
  obtain ⟨⟨still, -⟩, again⟩ := evaluate_recurs .everything ready element middle once
  obtain ⟨last, repeated, -⟩ := again _ walked apart
    (leads.still still.rests.rest store unchanged still.stack)
  exact ⟨last, repeated⟩

/-- Statements are walked one part after the other. -/
theorem walkBlock_append (engine : Engine) (frame : Frame) (first second : List Statement) :
    engine.walkBlock frame (first ++ second) = (do
      engine.walkBlock frame first
      engine.walkBlock frame second) := by
  induction first with
  | nil =>
    rw [List.nil_append, walkBlock]
    rfl
  | cons statement rest inductionHypothesis =>
    rw [List.cons_append, walkBlock, inductionHypothesis, walkBlock, bind_assoc]

/-- The body of an overload that declares its return is walked in modules of the user and for
constructors, from the first statement on. -/
theorem walkBody_walks {engine : Engine} {id : OverloadId} {definition : FunctionDefinition}
    {environment : Environment} {before after : Progress} {earlier later : List Statement}
    (body : definition.body = earlier ++ later)
    (walks : environment.options.isUser = true ∨
      isConstructor (before.store.functionAt id.function) definition = true)
    (returned : engine.walkBody id definition environment before = .ok () after) :
    ∃ walked, engine.walkBlock (.ofOverload before.store id definition) earlier environment before =
      .ok () walked := by
  obtain ⟨_, _, read, returned⟩ := bind_eq_ok.mp returned
  cases read
  obtain ⟨_, _, chosen, returned⟩ := bind_eq_ok.mp returned
  cases chosen
  have every : (isConstructor (before.store.functionAt id.function) definition ||
      !(before.store.overloadAt id).declaredReturn.isSome ||
        environment.options.isUser) = true := by
    rcases walks with user | constructs
    · rw [user, Bool.or_true]
    · rw [constructs, Bool.true_or, Bool.true_or]
  dsimp only at returned
  rw [if_pos every] at returned
  obtain ⟨_, _, walked, -⟩ := bind_eq_ok.mp returned
  rw [body, walkBlock_append] at walked
  obtain ⟨_, middle, first, -⟩ := bind_eq_ok.mp walked
  exact ⟨middle, first⟩

/-- The receiver is checked without a change of the store. -/
theorem store_checkReceiver (function : FunctionId) (definition : FunctionDefinition)
    (environment : Environment) (before : Progress) :
    ((checkReceiver function definition).after environment before).store = before.store := by
  unfold after checkReceiver
  rw [bind_apply, store_apply]
  cases owned : (before.store.functionAt function).declaringClass with
  | none => simp only [owned, pure_apply]
  | some owner =>
    simp only [owned]
    cases receiverProblem? before.store owner (before.store.functionAt function) definition with
    | none => rfl
    | some problem => rfl

/-- What is evaluated of an overload, from its parameters to the end, where it counts as evaluated.
-/
theorem evaluateOverload_ends {engine : Engine} {environment : Environment}
    {before after : Progress} {id : OverloadId} {entry : FunctionEntry}
    (evaluated : engine.evaluateOverload id entry environment before = .ok () after) :
    ∃ declared recorded last,
      engine.declaresParameters id entry.definition environment (entered id entry before) =
        .ok () declared ∧
      engine.declareReturn id entry.definition environment declared = .ok () recorded ∧
      engine.walkBody id entry.definition environment recorded = .ok () last ∧
      after.store = last.store.modifyOverload id fun overload =>
        { overload with state := .evaluated } := by
  unfold evaluateOverload at evaluated
  obtain ⟨_, begun, begins, inside⟩ := bind_eq_ok.mp evaluated
  cases begins
  rw [inScope_apply] at inside
  obtain ⟨closed, within, rfl⟩ := withCleanup_eq_ok.mp inside
  unfold evaluateInside at within
  obtain ⟨parameters, first, described, within⟩ := bind_eq_ok.mp within
  obtain ⟨_, declared, changed, within⟩ := bind_eq_ok.mp within
  obtain ⟨_, recorded, returned, within⟩ := bind_eq_ok.mp within
  obtain ⟨_, last, walked, within⟩ := bind_eq_ok.mp within
  obtain ⟨_, checked, checks, within⟩ := bind_eq_ok.mp within
  have same : checked.store = last.store :=
    after_of_ok checks ▸ store_checkReceiver id.function entry.definition environment last
  refine ⟨declared, recorded, last, bind_eq_ok.mpr ⟨parameters, first, described, changed⟩, returned,
    walked, ?_⟩
  obtain ⟨_, _, chosen, within⟩ := bind_eq_ok.mp within
  cases chosen
  rw [← same]
  dsimp only at within
  split at within
  · cases within
    rfl
  · cases within
    rfl

/-- In particular, parameters and a return are declared before a body is walked. -/
theorem evaluateOverload_declares {engine : Engine} {environment : Environment}
    {before after : Progress} {id : OverloadId} {entry : FunctionEntry}
    (evaluated : engine.evaluateOverload id entry environment before = .ok () after) :
    ∃ declared recorded last,
      engine.declaresParameters id entry.definition environment (entered id entry before) =
        .ok () declared ∧
      engine.declareReturn id entry.definition environment declared = .ok () recorded ∧
      engine.walkBody id entry.definition environment recorded = .ok () last := by
  obtain ⟨declared, recorded, last, parameters, returned, walked, -⟩ :=
    evaluateOverload_ends evaluated
  exact ⟨declared, recorded, last, parameters, returned, walked⟩

/-- No overload is lost while the parameters of one are declared. -/
theorem declaresParameters_keeps {discipline : Discipline} {world : discipline.World}
    {engine : Engine} (follows : engine.Follows discipline) (id : OverloadId)
    (definition : FunctionDefinition) (mayRecord : discipline.MayRecord id) :
    (engine.declaresParameters id definition).Keeps discipline world :=
  .bind (declareParameters_keeps follows _ _ _ _) fun _ => .changeOverload mayRecord fun _ => rfl

/-- A generator without a type hint records what its first yielded expression gives at once. -/
theorem declareReturn_yields (depth : Nat) {environment : Environment}
    {declared recorded : Progress} {id : OverloadId} {definition : FunctionDefinition}
    {yielded : Expression} (unannotated : definition.returns = none)
    (first : topLevelYield? definition.body = some (some yielded))
    (there : declared.store.HasOverload id)
    (returned : (Engine.atDepth depth).declareReturn id definition environment declared =
      .ok () recorded) :
    ∃ marked element found,
      insertFunctionFlags id.function { generator := true } environment declared = .ok () marked ∧
      (Engine.atDepth depth).evaluate .everything yielded environment marked = .ok element found ∧
      recorded.scopes = found.scopes ∧
      (recorded.store.overloadAt id).declaredReturn = some (iteratorOver element) := by
  unfold declareReturn at returned
  rw [unannotated] at returned
  simp only [first] at returned
  obtain ⟨_, marked, flagged, returned⟩ := bind_eq_ok.mp returned
  obtain ⟨_, found, valued, returned⟩ := bind_eq_ok.mp returned
  obtain ⟨element, _, evaluates, given⟩ := bind_eq_ok.mp valued
  cases given
  cases returned
  have follows := atDepth_respects .settling depth
  have generates : (insertFunctionFlags id.function { generator := true }).Keeps
      StoreRelation.settling.discipline () := insertFunctionFlags_keeps trivial _
  have settles : marked.store.Settles found.store :=
    (evaluate_keeps follows .everything yielded).respects.of_ok evaluates
  have still : found.store.HasOverload id :=
    settles.hasOverload ((generates.respects.of_ok flagged).hasOverload there)
  refine ⟨marked, element, found, flagged, evaluates, rfl, ?_⟩
  simp [Store.overloadAt_modifyOverload, still, iteratorOver]

/-- So has a plain one that a generator yields first, where its return has been declared. -/
theorem declareReturn_again (depth : Nat) {environment : Environment}
    {declared marked found recorded : Progress} {id : OverloadId} {definition : FunctionDefinition}
    {yielded : Expression} {element : Value} (unannotated : definition.returns = none)
    (first : topLevelYield? definition.body = some (some yielded)) (plain : yielded.IsPlain)
    (there : declared.store.HasOverload id)
    (flagged : insertFunctionFlags id.function { generator := true } environment declared =
      .ok () marked)
    (evaluated : (Engine.atDepth depth).evaluate .everything yielded environment marked =
      .ok element found)
    (returned : (Engine.atDepth depth).declareReturn id definition environment declared =
      .ok () recorded) :
    ∃ last, (Engine.atDepth depth).evaluate .everything yielded environment recorded =
      .ok element last ∧ last.store = recorded.store ∧ recorded.scopes.Changes ∅ last.scopes := by
  obtain ⟨_, _, _, flags, valued, scopes, -⟩ :=
    declareReturn_yields depth unannotated first there returned
  rw [flagged] at flags
  cases flags
  rw [evaluated] at valued
  cases valued
  exact evaluate_plain_again plain evaluated scopes

/-- What progress refers to is there when the return of an overload has been declared. -/
theorem grounded_recorded (depth : Nat) {environment : Environment}
    {before declared recorded : Progress} {id : OverloadId} {entry : FunctionEntry}
    (grounded : before.Grounded environment)
    (parameters : (Engine.atDepth depth).declaresParameters id entry.definition environment
      (entered id entry before) = .ok () declared)
    (returned : (Engine.atDepth depth).declareReturn id entry.definition environment declared =
      .ok () recorded) :
    recorded.Grounded environment := by
  have follows := areGrounded_atDepth depth
  have permitted (known : References) :
      (Logic.grounding Unit).PermitsFunction known entry.definition :=
    Logic.permitsFunction_grounding known entry.definition
  have marked : Progress.Grounded environment { before with
      store := before.store.modifyOverload id fun overload =>
        { overload with state := .evaluating } } :=
    ((@Grounds.setState Unit _ _ grounded id .evaluating).of_ok rfl).2
  have inside : (entered id entry before).Grounded environment :=
    marked.changeScopes (within_push marked.visible _ _ _)
  have declares : (Logic.grounding Unit).Holds inside.references fun _ =>
      (Engine.atDepth depth).declaresParameters id entry.definition := by
    refine (Logic.grounding Unit).bind
      (declareParameters_holds _ _ _ (follows _) (permitted _).parameters) ?_
    intro second passed parameters given
    exact changeOverload_holds id (fun _ => rfl) fun passed _ within =>
      ⟨Judgement.within_later passed given, within.2⟩
  have described := ((declares environment _ inside fun _ has => has).of_ok parameters).2
  have records : (Logic.grounding Unit).Holds described.references fun _ =>
      (Engine.atDepth depth).declareReturn id entry.definition :=
    declareReturn_holds (follows _) id (permitted _)
  exact ((records environment _ described fun _ has => has).of_ok returned).2

/-- What a generator without a type hint declares to return: an iterator over the value that the
first yielded expression has where the parameters have been declared, and nothing of the body has
been walked. After the statements before the yield a plain expression has this value exactly if
every name whose value it shows means then what it meant before them, and any expression has it that
they leave undisturbed. These statements are walked in modules of the user and for constructors.

Proof: what a plain expression gives tells the values of the names that it shows apart
(`Expression.shownValue_eq_iff`). Statements that leave an expression undisturbed change no value
that its evaluation reads, so the evaluation runs again (`Engine.evaluate_recurs`). -/
theorem evaluateOverload_yields (depth : Nat) {environment : Environment} {before after : Progress}
    {id : OverloadId} {entry : FunctionEntry} {earlier later : List Statement}
    {statement : Statement} {yielded : Expression} (unannotated : entry.definition.returns = none)
    (body : entry.definition.body = earlier ++ statement :: later)
    (silent : topLevelYield? earlier = none) (yields : yielded? statement = some (some yielded))
    (there : before.store.HasOverload id)
    (evaluated : (Engine.atDepth depth).evaluateOverload id entry environment before =
      .ok () after) :
    ∃ declared marked element found recorded,
      (Engine.atDepth depth).declaresParameters id entry.definition environment
          (entered id entry before) = .ok () declared ∧
      insertFunctionFlags id.function { generator := true } environment declared = .ok () marked ∧
      (Engine.atDepth depth).evaluate .everything yielded environment marked = .ok element found ∧
      (Engine.atDepth depth).declareReturn id entry.definition environment declared =
        .ok () recorded ∧
      (recorded.store.overloadAt id).declaredReturn = some (iteratorOver element) ∧
      let frame := Frame.ofOverload recorded.store id entry.definition
      (environment.options.isUser = true ∨
        isConstructor (recorded.store.functionAt id.function) entry.definition = true →
          ∃ walked, (Engine.atDepth depth).walkBlock frame earlier environment recorded =
            .ok () walked) ∧
      ∀ walked, (Engine.atDepth depth).walkBlock frame earlier environment recorded =
        .ok () walked →
        (yielded.IsPlain →
          ((∃ last, (Engine.atDepth depth).evaluate .everything yielded environment walked =
              .ok element last) ↔
            ∀ name ∈ yielded.shownNames environment.options.maxCollectionSize,
              walked.meaning environment name = marked.meaning environment name)) ∧
        ∀ seen, Undisturbed (Engine.atDepth depth) environment seen entry.definition.id frame
            earlier yielded element recorded →
          ∃ last, (Engine.atDepth depth).evaluate .everything yielded environment walked =
            .ok element last := by
  obtain ⟨declared, recorded, last, parameters, returned, walked⟩ :=
    evaluateOverload_declares evaluated
  have first : topLevelYield? entry.definition.body = some (some yielded) := by
    rw [topLevelYield?] at silent
    rw [body, topLevelYield?, List.findSome?_append, silent, List.findSome?_cons, yields]
    rfl
  have described : (entered id entry before).store.Settles declared.store :=
    (declaresParameters_keeps (atDepth_respects .settling depth) id entry.definition
      trivial).respects.of_ok parameters
  have begun : (entered id entry before).store.HasOverload id := by
    simpa [entered] using there
  obtain ⟨marked, element, found, flagged, evaluates, -, records⟩ :=
    declareReturn_yields depth unannotated first (described.hasOverload begun) returned
  refine ⟨declared, marked, element, found, recorded, parameters, flagged, evaluates, returned,
    records,
    fun walks => walkBody_walks body walks walked, fun onward goesOn => ⟨fun plain => ?_, ?_⟩⟩
  · -- Each time the value is made of what names mean where the evaluation begins.
    obtain ⟨_, shown, -⟩ := evaluate_plain plain marked
    obtain ⟨last, again, -⟩ := evaluate_plain plain onward
    rw [shown] at evaluates
    cases evaluates
    rw [← Expression.shownValue_eq_iff _ _ _ plain, again]
    constructor
    · rintro ⟨_, same⟩
      injection same
    · intro same
      exact ⟨_, congrArg (EStateM.Result.ok · _) same⟩
  · intro seen undisturbed
    have framed := (undisturbed.ready.rest.grounded.stored.2 id.function).2
    exact undisturbed.evaluate framed goesOn

end Engine

namespace Analyzer

/-- A function with one parameter, which has a default, that yields something after statements. -/
def generator (earlier : List Statement) (yielded : Expression) : FunctionDefinition :=
  ⟨⟨1⟩, .ofName "gen",
    [{ name := .ofName "number", default := some (.constant (.int 1) .unknown) }], none,
    earlier ++ [.expression (.yield (some yielded) .unknown) .unknown], [], .unknown⟩

/-- The overload of the function that is declared next in the scope of a module. -/
def nextOverload : OverloadId :=
  ⟨inModule.store.nextFunction, 0⟩

/-- The function that is declared next in the scope of a module. -/
def nextEntry (definition : FunctionDefinition) : FunctionEntry :=
  ⟨definition, ⟨0⟩, inModule.store.nextFunction⟩

/-- The progress in which a function has been declared there. -/
def generating (definition : FunctionDefinition) : Progress :=
  ((Engine.atDepth 1).declareFunction definition none).after Registry.environment inModule

/-- The progress in which its parameters and its return have been declared as well. -/
def returnDeclared (definition : FunctionDefinition) : Progress :=
  ((Engine.atDepth 1).declaresParameters nextOverload definition >>= fun _ =>
    (Engine.atDepth 1).declareReturn nextOverload definition).after Registry.environment
      (Engine.entered nextOverload (nextEntry definition) (generating definition))

theorem grounded_generating {definition : FunctionDefinition} (plain : definition.decorators = []) :
    (generating definition).Grounded Registry.environment := by
  have declares : Grounds Registry.environment none inModule fun _ : Unit =>
      (Engine.atDepth 1).declareFunction definition none :=
    .declareFunction grounded_inModule nofun fun _ _ still _ => by
      rw [plain]
      exact .pure still trivial
  exact (declares.after ()).2

/-- A generator that yields its parameter, which the statement before leaves alone: it returns an
iterator over integers, and an integer is what it yields. -/
theorem evaluateOverload_yields_parameter :
    let earlier := [Statement.define "text" (.constant (.str "a") .unknown)]
    let yielded := Expression.ofName "number"
    let definition := generator earlier yielded
    let recorded := returnDeclared definition
    let frame := Frame.ofOverload recorded.store nextOverload definition
    definition.returns = none ∧ (generating definition).store.HasOverload nextOverload ∧
      ∃ after element walked last,
        (Engine.atDepth 1).evaluateOverload nextOverload (nextEntry definition) Registry.environment
          (generating definition) = .ok () after ∧
        (recorded.store.overloadAt nextOverload).declaredReturn =
          some (Engine.iteratorOver element) ∧
        (Engine.iteratorOver element).allTypes.map Ty.asClass? =
          [some (builtinClass .iterator), some (builtinClass .int)] ∧
        Engine.Undisturbed (Engine.atDepth 1) Registry.environment Set.univ definition.id frame
          earlier yielded element recorded ∧
        (Engine.atDepth 1).walkBlock frame earlier Registry.environment recorded = .ok () walked ∧
        (Engine.atDepth 1).evaluate .everything yielded Registry.environment walked =
          .ok element last := by
  intro earlier yielded definition recorded frame
  have evaluated : ((Engine.atDepth 1).evaluateOverload nextOverload (nextEntry definition)).yields
      Registry.environment (generating definition) () = true := by
    decide +kernel
  have there : (generating definition).store.HasOverload nextOverload := by decide +kernel
  obtain ⟨declared, marked, element, found, last, parameters, flagged, evaluates, returned, records,
      walks, values⟩ :=
    Engine.evaluateOverload_yields 1 rfl rfl rfl rfl there (ok_of_yields evaluated)
  have same : recorded = last := after_of_ok (bind_eq_ok.mpr ⟨_, _, parameters, returned⟩)
  subst same
  have grounded : recorded.Grounded Registry.environment :=
    Engine.grounded_recorded 1 (grounded_generating rfl) parameters returned
  have again : ∃ next, (Engine.atDepth 1).evaluate .everything yielded Registry.environment
      recorded = .ok element next ∧ next.store = recorded.store ∧
        recorded.scopes.Changes ∅ next.scopes := by
    refine Engine.declareReturn_again 1 rfl rfl trivial ?_ flagged evaluates returned
    rw [← after_of_ok parameters]
    decide +kernel
  have undisturbed : Engine.Undisturbed (Engine.atDepth 1) Registry.environment Set.univ
      definition.id frame earlier yielded element recorded := {
    ready := {
      rest := ⟨grounded, by decide +kernel, by decide +kernel⟩
      wellFormed := by decide +kernel
      sees := ⟨⟨1⟩, ⟨by decide +kernel, fun _ _ => trivial, fun _ _ => trivial⟩, by decide +kernel⟩
      distinct := List.nodup_nil
      unseen := nofun
      lodged := fun _ _ _ listed => nomatch listed
      ordered := nofun }
    isAt := ⟨⟨1⟩, by decide +kernel, by decide +kernel, by decide +kernel, by decide +kernel,
      by decide +kernel⟩
    simple := ⟨fun _ listed => List.mem_singleton.mp listed ▸ trivial, trivial⟩
    unbound := by decide +kernel
    fresh := nofun
    again }
  have user : Registry.environment.options.isUser = true := rfl
  obtain ⟨walked, onward⟩ := walks (.inl user)
  obtain ⟨next, repeated⟩ := (values walked onward).2 Set.univ undisturbed
  refine ⟨rfl, there, _, element, walked, next, ok_of_yields evaluated, records, ?_, undisturbed,
    onward, repeated⟩
  have classes : ((recorded.store.overloadAt nextOverload).declaredReturn.map fun value =>
      value.allTypes.map Ty.asClass?) =
        some [some (builtinClass .iterator), some (builtinClass .int)] := by
    decide +kernel
  rw [records] at classes
  exact Option.some.inj classes

/-- Whether an overload is declared to return an iterator over something unknown. -/
def yieldsUnknown (overload : Overload) : Bool :=
  match overload.declaredReturn with
  | some (.object (.cls id) (.iterator .unknown)) => decide (id = builtinClass .iterator)
  | _ => false

theorem declaredReturn_of_yieldsUnknown {overload : Overload}
    (unknown : yieldsUnknown overload = true) :
    overload.declaredReturn = some (Engine.iteratorOver .unknown) := by
  unfold yieldsUnknown at unknown
  split at unknown
  · next declared =>
    rw [declared, of_decide_eq_true unknown]
    rfl
  · cases unknown

/-- A generator that yields the value of a local variable, which the statement before binds: it
returns an iterator over something unknown, and a text is what it yields. -/
theorem evaluateOverload_yields_local :
    let earlier := [Statement.define "text" (.constant (.str "a") .unknown)]
    let yielded := Expression.ofName "text"
    let definition := generator earlier yielded
    let recorded := returnDeclared definition
    definition.returns = none ∧ Engine.topLevelYield? definition.body = some (some yielded) ∧
      Engine.topLevelYield? earlier = none ∧ ∃ after walked value last,
        (Engine.atDepth 1).evaluateOverload nextOverload (nextEntry definition) Registry.environment
            (generating definition) = .ok () after ∧
          (recorded.store.overloadAt nextOverload).declaredReturn =
            some (Engine.iteratorOver .unknown) ∧
          (after.store.overloadAt nextOverload).declaredReturn =
            some (Engine.iteratorOver .unknown) ∧
          (Engine.atDepth 1).walkBlock (.ofOverload recorded.store nextOverload definition) earlier
            Registry.environment recorded = .ok () walked ∧
          (Engine.atDepth 1).evaluate .everything yielded Registry.environment walked =
            .ok value last ∧
          value.allTypes.map Ty.asClass? = [some (builtinClass .str)] ∧ value ≠ .unknown := by
  intro earlier yielded definition recorded
  have evaluated : ((Engine.atDepth 1).evaluateOverload nextOverload (nextEntry definition)).yields
      Registry.environment (generating definition) () = true := by
    decide +kernel
  have computed : (do
      (Engine.atDepth 1).walkBlock (.ofOverload recorded.store nextOverload definition) earlier
      let value ← (Engine.atDepth 1).evaluate .everything yielded
      return value.allTypes.map Ty.asClass? : Analysis _).yields Registry.environment recorded
        [some (builtinClass .str)] = true := by
    decide +kernel
  obtain ⟨_, walked, onward, continued⟩ := bind_eq_ok.mp (ok_of_yields computed)
  obtain ⟨value, last, given, ending⟩ := bind_eq_ok.mp continued
  injection ending with classes _
  refine ⟨rfl, rfl, rfl, _, walked, value, last, ok_of_yields evaluated,
    declaredReturn_of_yieldsUnknown (by decide +kernel),
    declaredReturn_of_yieldsUnknown (by decide +kernel), onward, given, classes, ?_⟩
  rintro rfl
  cases classes

end Analyzer

end TypeInference
