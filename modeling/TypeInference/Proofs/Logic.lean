import TypeInference.Proofs.Changes
import TypeInference.Proofs.Outcome
import TypeInference.Syntax.Outline

/-!
# Logics of analyses

Some properties compare several runs of one analysis: runs with engines of different depths,
or runs that begin in two related states. Such a property is about a family of analyses, one
for each run. A logic is a property of families that composed analyses have because their
parts have it.

What holds is relative to a world, which says what is known when the analyses begin: the
functions and classes that values may refer to by then, the nodes whose scopes may be opened,
and the definitions that may be declared. The results refer to nothing but what is known in a
later world. So a logic can say of every function that is ever evaluated, and of every class
that is ever specialized, what it says of the known ones.

Functions and members are changed one by one, and a class is created together with its bases,
so that a logic may say which classes are changed in which way.

The modules on substituting, inferring and declaring show once that every analysis up to the
evaluation of functions and the specialization of classes obeys every logic whose engines do.
-/

namespace TypeInference

open Analysis

/-- A property of families of analyses that composed families have because their parts
have it, relative to a world. -/
structure Judgement where
  /-- The runs that are looked at together. -/
  Index : Type
  World : Type
  Later : World → World → Prop
  later_refl : ∀ world, Later world world
  later_trans : ∀ {world second third}, Later world second → Later second third →
    Later world third
  /-- A world in which functions may be evaluated and classes specialized, starting from
  another one. It need not be a later one. -/
  Near : World → World → Prop
  near_of_later : ∀ {world second}, Later world second → Near world second
  near_trans : ∀ {world second third}, Near world second → Near second third → Near world third
  /-- What values may refer to. -/
  Known : World → References
  known_later : ∀ {world later}, Later world later → ∀ reference, Known world reference →
    Known later reference
  /-- Analyses that begin in a world have the property. -/
  Holds : World → ∀ {α : Type} [Refers α], (Index → Analysis α) → Prop
  pure : ∀ {world} {α : Type} [Refers α] {result : α}, Within (Known world) result →
    Holds world fun _ => Pure.pure result
  bind : ∀ {world} {α β : Type} [Refers α] [Refers β] {first : Index → Analysis α}
    {next : Index → α → Analysis β}, Holds world first →
      (∀ {later}, Later world later → ∀ result, Within (Known later) result →
        Holds later fun index => next index result) →
          Holds world fun index => first index >>= next index
  /-- The store is read. Whatever it unites of what is known then is known as well. -/
  reads : ∀ {world} {α : Type} [Refers α] {next : Index → Store → Analysis α},
    (∀ {later}, Later world later → ∀ store, Within (Known later) store →
      (Known later).ClosedIn store → Holds later fun index => next index store) →
        Holds world fun index => Analysis.store >>= next index

/-- A condition on the nodes of an outline that open scopes. -/
def Opens (mayOpen : NodeId → Prop) (outline : List OutlineEntry) : Prop :=
  ∀ entry ∈ outline, ∀ node, entry.node = some node → mayOpen node

section Outlines

variable {mayOpen : NodeId → Prop}

@[simp] theorem opens_nil : Opens mayOpen [] := fun _ impossible => nomatch impossible

@[simp] theorem opens_cons (entry : OutlineEntry) (rest : List OutlineEntry) :
    Opens mayOpen (entry :: rest) ↔
      (∀ node, entry.node = some node → mayOpen node) ∧ Opens mayOpen rest :=
  List.forall_mem_cons

@[simp] theorem opens_append (first second : List OutlineEntry) :
    Opens mayOpen (first ++ second) ↔ Opens mayOpen first ∧ Opens mayOpen second :=
  List.forall_mem_append

theorem Opens.mono {more : NodeId → Prop} {outline : List OutlineEntry}
    (opens : Opens mayOpen outline) (wider : ∀ node, mayOpen node → more node) :
    Opens more outline :=
  fun entry listed node same => wider node (opens entry listed node same)

end Outlines

/-- A property of families of analyses that analyses have because their parts have it. -/
structure Logic extends Judgement where
  /-- A node whose scope may be opened. -/
  MayOpen : World → NodeId → Prop
  mayOpen_later : ∀ {world later}, Later world later → ∀ node, MayOpen world node →
    MayOpen later node
  /-- A definition that may be declared. -/
  MayDefine : World → FunctionDefinition → Prop
  mayDefine_later : ∀ {world later}, Later world later → ∀ definition,
    MayDefine world definition → MayDefine later definition
  /-- The options are read, but not whether the local variables of libraries are kept. -/
  options : ∀ {world} {α : Type} [Refers α] {next : Index → Options → Analysis α},
    (∀ index options keep, next index { options with keepLibraryLocals := keep } =
      next index options) → (∀ options, Holds world fun index => next index options) →
        Holds world fun index => Analysis.options >>= next index
  lookupName? : ∀ {world} name reach, Holds world fun _ => Analysis.lookupName? name reach
  declare : ∀ {world} name {value} kind node span, Within (Known world) value →
    Holds world fun _ => Analysis.declare name value kind node span
  redirectGlobal : ∀ {world} name,
    Holds world fun _ => changeScopes fun scopes => scopes.declareGlobal name
  redirectNonlocal : ∀ {world} name,
    Holds world fun _ => changeScopes fun scopes => scopes.declareNonlocal name
  report : ∀ {world} lint span, Holds world fun _ => Analysis.report lint span
  /-- A function is changed, but neither its identity nor how far it is evaluated. -/
  changeFunction : ∀ {world} function {change : Store → FunctionRecord → FunctionRecord},
    (∀ store (record : FunctionRecord), record.SameIdentity (change store record) ∧
      (change store record).overloads.map (·.state) = record.overloads.map (·.state)) →
      (∀ {later}, Later world later → ∀ store record, Within (Known later) record →
        Within (Known later) (change store record)) →
        Holds world fun _ => modifyStore fun store =>
          store.modifyFunction function (change store)
  /-- A member is set, not in the place of another one if it is unknown. -/
  setMember : ∀ {world owner} name {value} overwrite,
    (overwrite = true → value.isUnknown = false) → Known world (.owner owner) →
    Within (Known world) value → Holds world fun _ => modifyStore fun store =>
      (store.addMember owner name value overwrite).2
  setAttribute : ∀ {world owner} name {value}, Known world (.owner owner) →
    Within (Known world) value → Holds world fun _ => Analysis.setAttribute owner name value
  declaredClass : ∀ {world} node,
    Holds world fun _ => (do return (← get).symbols.class? node : Analysis (Option ClassId))
  /-- A class is created and given its bases, and may own its members then. -/
  createClass : ∀ {world} {α : Type} [Refers α] {engine : Index → Engine} definition {bases}
      {next : Index → ClassId → Analysis α},
    (∀ {later}, Later world later →
      Holds later fun index => (engine index).evaluateBases bases) →
      (∀ {later}, Later world later → ∀ id, Known later (.owner id) →
        Holds later fun index => next index id) →
        Holds world fun index => do
          let id ← Engine.createClass definition
          (engine index).giveBases id bases
          next index id
  inScope : ∀ {world} {α : Type} [Refers α] {node kind} {body : Index → ScopeId → Analysis α},
    MayOpen world node → kind ≠ .functionBody → (∀ id, Holds world fun index => body index id) →
      Holds world fun index => Analysis.inScope node kind none (body index)
  /-- A function is declared if its decorators can be evaluated in every world nearby in which
  the nodes of this one may be opened. -/
  declareFunction : ∀ {world} {engine : Index → Engine} {definition} owner,
    MayDefine world definition →
      (∀ id, owner = some id → Known world (.owner id)) →
      (∀ {other}, Near world other → (∀ node, MayOpen world node → MayOpen other node) →
        ∀ function, Holds other fun index =>
          (engine index).applyDecorators function definition.decorators) →
        Holds world fun index => (engine index).declareFunction definition owner

namespace Judgement

variable {judgement : Judgement} {world later : judgement.World}

/-- What has known references still has. -/
theorem within_later {α : Type} [Refers α] {thing : α} (passed : judgement.Later world later)
    (within : Within (judgement.Known world) thing) : Within (judgement.Known later) thing :=
  Refers.widen (judgement.known_later passed) thing within

/-- The store is what analyses know of it. -/
theorem store : judgement.Holds world fun _ => Analysis.store := by
  have read : judgement.Holds world fun _ => Analysis.store >>= Pure.pure :=
    judgement.reads fun _ _ within _ => judgement.pure within
  simpa only [bind_pure] using read

/-- Whichever way is chosen. -/
theorem ite {α : Type} [Refers α] {chosen : Prop} [Decidable chosen]
    {first second : judgement.Index → Analysis α}
    (one : chosen → judgement.Holds world first)
    (other : ¬chosen → judgement.Holds world second) :
    judgement.Holds world fun index => if chosen then first index else second index := by
  by_cases decides : chosen
  · simpa only [if_pos decides] using one decides
  · simpa only [if_neg decides] using other decides

end Judgement

/-- What may be opened may be opened later. -/
theorem Logic.opens_later {logic : Logic} {world later : logic.World}
    {outline : List OutlineEntry} (passed : logic.Later world later)
    (opens : Opens (logic.MayOpen world) outline) : Opens (logic.MayOpen later) outline :=
  opens.mono (logic.mayOpen_later passed)

end TypeInference
