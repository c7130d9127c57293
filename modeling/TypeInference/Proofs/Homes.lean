import Mathlib.Data.List.Nodup
import TypeInference.Proofs.Placement

/-!
# The homes of nodes

The home of a node is the function inside of which it stands, if it stands in one that is
defined outside of all others. The decorators of a function stand outside of it. In a module
whose nodes are distinct and whose functions define no functions, the nodes of each function
have that function as their home, and what is walked outside of functions has none.
-/

namespace TypeInference

namespace Outline

/-- The nodes of an outline that open scopes. -/
def nodes (outline : List OutlineEntry) : List NodeId :=
  outline.filterMap (·.node)

@[simp] theorem nodes_nil : nodes [] = [] := rfl

@[simp] theorem nodes_cons_none (label : String) (span : Span) (rest : List OutlineEntry) :
    nodes (⟨label, span, none⟩ :: rest) = nodes rest := rfl

@[simp] theorem nodes_cons_some (label : String) (span : Span) (node : NodeId)
    (rest : List OutlineEntry) :
    nodes (⟨label, span, some node⟩ :: rest) = node :: nodes rest := rfl

@[simp] theorem nodes_append (first second : List OutlineEntry) :
    nodes (first ++ second) = nodes first ++ nodes second :=
  List.filterMap_append

theorem opens_of_nodes {mayOpen : NodeId → Prop} {outline : List OutlineEntry}
    (opens : ∀ node ∈ nodes outline, mayOpen node) : Opens mayOpen outline :=
  fun entry listed node same => opens node (List.mem_filterMap.mpr ⟨entry, listed, same⟩)

end Outline

open Outline

/-- The nodes that stand in a function: its own, and those of its parameters, its return and
its body. -/
def FunctionDefinition.innerNodes (definition : FunctionDefinition) : List NodeId :=
  definition.id :: (nodes (ofParameters definition.parameters)
    ++ nodes (ofOptional definition.returns) ++ nodes (ofStatements definition.body))

namespace Statement

mutual

/-- The functions that are defined in a statement, but not inside of one another. -/
def definitions : Statement → List FunctionDefinition
  | .function definition => [definition]
  | .classDefinition definition => classDefinitions definition
  | .branch _ body otherwise _ | .iteration _ _ body otherwise _ | .loop _ body otherwise _ =>
    blockDefinitions body ++ blockDefinitions otherwise
  | .expression _ _ | .assign _ _ _ | .annotated _ _ _ _ | .ret _ _ | .global _ _
  | .nonlocal _ _ | .pass _ => []

/-- The same for the definition of a class. -/
def classDefinitions : ClassDefinition → List FunctionDefinition
  | ⟨_, _, _, body, _, _⟩ => blockDefinitions body

/-- The same for several statements. -/
def blockDefinitions : List Statement → List FunctionDefinition
  | [] => []
  | statement :: rest => definitions statement ++ blockDefinitions rest

end

mutual

/-- The nodes of a statement that stand in none of these functions. -/
def outerNodes : Statement → List NodeId
  | .expression evaluated _ => nodes (ofExpression evaluated)
  | .assign targets value _ => nodes (ofExpressions targets) ++ nodes (ofExpression value)
  | .annotated target hint value _ =>
    nodes (ofExpression target) ++ nodes (ofExpression hint) ++ nodes (ofOptional value)
  | .ret value _ => nodes (ofOptional value)
  | .function definition => nodes (ofExpressions definition.decorators)
  | .classDefinition definition => classOuterNodes definition
  | .branch test body otherwise _ | .loop test body otherwise _ =>
    nodes (ofExpression test) ++ blockOuterNodes body ++ blockOuterNodes otherwise
  | .iteration target iterable body otherwise _ =>
    nodes (ofExpression target) ++ nodes (ofExpression iterable) ++ blockOuterNodes body
      ++ blockOuterNodes otherwise
  | .global _ _ | .nonlocal _ _ | .pass _ => []

/-- The same for the definition of a class. -/
def classOuterNodes : ClassDefinition → List NodeId
  | ⟨id, _, bases, body, decorators, _⟩ =>
    id :: (nodes (ofExpressions bases) ++ nodes (ofExpressions decorators)
      ++ blockOuterNodes body)

/-- The same for several statements. -/
def blockOuterNodes : List Statement → List NodeId
  | [] => []
  | statement :: rest => outerNodes statement ++ blockOuterNodes rest

end

mutual

/-- Each node stands either in one of the functions or outside of them. -/
theorem count_nodes (node : NodeId) : ∀ statement : Statement,
    (nodes (ofStatement statement)).count node = (outerNodes statement).count node +
      ((definitions statement).flatMap FunctionDefinition.innerNodes).count node
  | .expression _ _ | .ret _ _ | .assign _ _ _ | .annotated _ _ _ _ | .global _ _
  | .nonlocal _ _ | .pass _ => by
    simp [ofStatement, outerNodes, definitions]
  | .function ⟨_, _, _, _, _, _, _⟩ => by
    simp only [ofStatement, ofFunction, outerNodes, definitions, nodes_cons_some, nodes_append,
      List.flatMap_cons, List.flatMap_nil, List.append_nil, FunctionDefinition.innerNodes,
      List.count_cons, List.count_append]
    omega
  | .classDefinition definition => by
    simp only [ofStatement, outerNodes, definitions]
    exact count_classNodes node definition
  | .branch _ body otherwise _ | .iteration _ _ body otherwise _ | .loop _ body otherwise _ => by
    have first := count_blockNodes node body
    have second := count_blockNodes node otherwise
    simp only [ofStatement, outerNodes, definitions, nodes_cons_none, nodes_append,
      List.flatMap_append, List.count_append]
    omega

theorem count_classNodes (node : NodeId) : ∀ definition : ClassDefinition,
    (nodes (ofClass definition)).count node = (classOuterNodes definition).count node +
      ((classDefinitions definition).flatMap FunctionDefinition.innerNodes).count node
  | ⟨_, _, _, body, _, _⟩ => by
    have inBody := count_blockNodes node body
    simp only [ofClass, classOuterNodes, classDefinitions, nodes_cons_some, nodes_append,
      List.count_cons, List.count_append]
    omega

theorem count_blockNodes (node : NodeId) : ∀ block : List Statement,
    (nodes (ofStatements block)).count node = (blockOuterNodes block).count node +
      ((blockDefinitions block).flatMap FunctionDefinition.innerNodes).count node
  | [] => rfl
  | statement :: rest => by
    have first := count_nodes node statement
    have second := count_blockNodes node rest
    simp only [ofStatements, blockOuterNodes, blockDefinitions, nodes_append,
      List.flatMap_append, List.count_append]
    omega

end

section Permission

variable {mayOpen : NodeId → Prop} {mayDefine : FunctionDefinition → Prop}

mutual

/-- A statement may be walked if its outer nodes may be opened and its functions declared. -/
theorem permitted_of_outerNodes : ∀ {statement : Statement},
    (∀ node ∈ outerNodes statement, mayOpen node) →
      (∀ definition ∈ definitions statement, mayDefine definition) →
        Permitted mayOpen mayDefine statement
  | .expression _ _, opens, _ | .ret _ _, opens, _ => opens_of_nodes opens
  | .assign _ _ _, opens, _ => by
    simp only [outerNodes, List.forall_mem_append] at opens
    exact opens_of_nodes opens.2
  | .annotated _ _ _ _, opens, _ => by
    simp only [outerNodes, List.forall_mem_append] at opens
    exact ⟨opens_of_nodes opens.1.2, opens_of_nodes opens.2⟩
  | .function _, opens, defines => ⟨defines _ List.mem_cons_self, opens_of_nodes opens⟩
  | .classDefinition _, opens, defines => classPermitted_of_outerNodes opens defines
  | .global _ _, _, _ | .nonlocal _ _, _, _ | .pass _, _, _ => trivial
  | .branch _ _ _ _, opens, defines | .loop _ _ _ _, opens, defines => by
    simp only [outerNodes, List.forall_mem_append] at opens
    simp only [definitions, List.forall_mem_append] at defines
    exact ⟨opens_of_nodes opens.1.1, blockPermitted_of_outerNodes opens.1.2 defines.1,
      blockPermitted_of_outerNodes opens.2 defines.2⟩
  | .iteration _ _ _ _ _, opens, defines => by
    simp only [outerNodes, List.forall_mem_append] at opens
    simp only [definitions, List.forall_mem_append] at defines
    exact ⟨opens_of_nodes opens.1.1.2, blockPermitted_of_outerNodes opens.1.2 defines.1,
      blockPermitted_of_outerNodes opens.2 defines.2⟩

theorem classPermitted_of_outerNodes : ∀ {definition : ClassDefinition},
    (∀ node ∈ classOuterNodes definition, mayOpen node) →
      (∀ function ∈ classDefinitions definition, mayDefine function) →
        ClassPermitted mayOpen mayDefine definition
  | ⟨_, _, _, _, _, _⟩, opens, defines => by
    simp only [classOuterNodes, List.forall_mem_cons, List.forall_mem_append] at opens
    exact ⟨opens.1, opens_of_nodes opens.2.1.1, blockPermitted_of_outerNodes opens.2.2 defines⟩

theorem blockPermitted_of_outerNodes : ∀ {block : List Statement},
    (∀ node ∈ blockOuterNodes block, mayOpen node) →
      (∀ definition ∈ blockDefinitions block, mayDefine definition) →
        BlockPermitted mayOpen mayDefine block
  | [], _, _ => trivial
  | _ :: _, opens, defines => by
    simp only [blockOuterNodes, List.forall_mem_append] at opens
    simp only [blockDefinitions, List.forall_mem_append] at defines
    exact ⟨permitted_of_outerNodes opens.1 defines.1,
      blockPermitted_of_outerNodes opens.2 defines.2⟩

end

end Permission

end Statement

namespace Module

variable (module : Module)

/-- The nodes of a module. -/
def nodes : List NodeId :=
  Outline.nodes module.outline

/-- The functions of a module that are defined outside of other functions. -/
def definitions : List FunctionDefinition :=
  Statement.blockDefinitions module.body

/-- No node of a module is used twice, that of the module itself included. -/
def HasDistinctNodes : Prop :=
  (NodeId.module :: module.nodes).Nodup

/-- No function of a module is defined inside of another one. -/
def IsFlat : Prop :=
  ∀ definition ∈ module.definitions, Statement.blockDefinitions definition.body = []

instance : Decidable module.HasDistinctNodes :=
  inferInstanceAs (Decidable (List.Nodup _))

instance : Decidable module.IsFlat :=
  inferInstanceAs (Decidable (∀ definition ∈ module.definitions,
    Statement.blockDefinitions definition.body = []))

/-- The function that a node stands in. -/
def home (node : NodeId) : Option NodeId :=
  (module.definitions.find? fun definition => node ∈ definition.innerNodes).map (·.id)

variable {module}

section Distinct

variable (distinct : module.HasDistinctNodes)

include distinct

/-- A node stands at one place. -/
theorem HasDistinctNodes.count_le_one (node : NodeId) :
    (NodeId.module :: Statement.blockOuterNodes module.body).count node +
      (module.definitions.flatMap FunctionDefinition.innerNodes).count node ≤ 1 := by
  have once := List.nodup_iff_count_le_one.mp distinct node
  have split := Statement.count_blockNodes node module.body
  simp only [List.count_cons] at once ⊢
  change (Outline.nodes (ofStatements module.body)).count node + _ ≤ 1 at once
  unfold definitions
  omega

/-- The functions have no node in common, and none twice. -/
theorem HasDistinctNodes.nodup_innerNodes :
    (module.definitions.flatMap FunctionDefinition.innerNodes).Nodup := by
  refine List.nodup_iff_count_le_one.mpr fun node => ?_
  have once := distinct.count_le_one node
  omega

/-- What stands in a function has it as its home. -/
theorem HasDistinctNodes.home_of_mem {definition : FunctionDefinition}
    (listed : definition ∈ module.definitions) {node : NodeId}
    (inner : node ∈ definition.innerNodes) : module.home node = some definition.id := by
  obtain ⟨-, apart⟩ := List.nodup_flatMap.mp distinct.nodup_innerNodes
  unfold home
  cases found : module.definitions.find? fun definition => node ∈ definition.innerNodes with
  | none => exact absurd (by simpa using inner) (List.find?_eq_none.mp found definition listed)
  | some other =>
    have otherInner : node ∈ other.innerNodes := by simpa using List.find?_some found
    by_contra different
    have notSame : definition ≠ other := by
      rintro rfl
      exact different rfl
    have : Std.Symm (Function.onFun List.Disjoint FunctionDefinition.innerNodes) :=
      ⟨fun _ _ disjoint => disjoint.symm⟩
    exact apart.forall listed (List.mem_of_find?_eq_some found) notSame inner otherInner

/-- What stands outside of the functions has no home. -/
theorem HasDistinctNodes.home_of_outer {node : NodeId}
    (outer : node ∈ NodeId.module :: Statement.blockOuterNodes module.body) :
    module.home node = none := by
  have once := distinct.count_le_one node
  have here := List.count_pos_iff.mpr outer
  unfold home
  rw [Option.map_eq_none_iff, List.find?_eq_none]
  intro definition listed inner
  have inside : node ∈ module.definitions.flatMap FunctionDefinition.innerNodes :=
    List.mem_flatMap.mpr ⟨definition, listed, by simpa using inner⟩
  have there := List.count_pos_iff.mpr inside
  omega

/-- The functions of a flat module are settled. -/
theorem HasDistinctNodes.settled (flat : module.IsFlat) {definition : FunctionDefinition}
    (listed : definition ∈ module.definitions) : definition.Settled module.home := by
  obtain ⟨each, -⟩ := List.nodup_flatMap.mp distinct.nodup_innerNodes
  have once : definition.innerNodes.Nodup := each definition listed
  have opened {node : NodeId} (inner : node ∈ Outline.nodes (ofParameters definition.parameters)
      ++ Outline.nodes (ofOptional definition.returns)
      ++ Outline.nodes (ofStatements definition.body)) :
      OpenedIn module.home (some definition.id) node := by
    have homeOf := distinct.home_of_mem listed (List.mem_cons_of_mem _ inner)
    refine ⟨homeOf, fun own => ?_⟩
    cases homeOf.symm.trans own
    exact (List.nodup_cons.mp once).1 inner
  refine ⟨distinct.home_of_mem listed List.mem_cons_self, opens_of_nodes fun node inner => ?_,
    opens_of_nodes fun node inner => ?_, Statement.blockPermitted_of_outerNodes ?_ ?_⟩
  · exact opened (List.mem_append_left _ (List.mem_append_left _ inner))
  · exact opened (List.mem_append_left _ (List.mem_append_right _ inner))
  · intro node outer
    apply opened
    apply List.mem_append_right
    have split := Statement.count_blockNodes node definition.body
    have there := List.count_pos_iff.mpr outer
    exact List.count_pos_iff.mp (by omega)
  · rw [flat definition listed]
    exact fun _ impossible => nomatch impossible

end Distinct

end Module

end TypeInference
