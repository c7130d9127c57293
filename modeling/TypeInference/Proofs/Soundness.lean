import TypeInference.Proofs.Changes
import TypeInference.Proofs.Logic
import TypeInference.Proofs.Variables
import TypeInference.Definitions.Function

/-!
# Sound progress

An analysis comes across the functions that its progress mentions, and for each of them that
has a definition, the definition is declared. Where a scope is open in addition, there is
nothing left that a fault could be about: no name can be declared outside of a scope, and no
function is evaluated whose definition is unknown.

Soundness names the functions that may be mentioned. A function that is created is not among
them while its decorators are evaluated; it is when it is declared.
-/

namespace TypeInference

namespace Symbols

/-- A declared function is found under its node, and hides another one there. -/
theorem function?_insert (symbols : Symbols) (entry : FunctionEntry) (node : NodeId) :
    (symbols.insert entry).function? node =
      if entry.definition.id = node then some entry else symbols.function? node := by
  unfold function? insert
  simp only [Array.toList_push, List.reverse_append, List.reverse_singleton,
    List.singleton_append, List.find?_cons]
  split
  · next same => simp [of_decide_eq_true same]
  · next apart => simp [of_decide_eq_false apart]

/-- What is found was declared. -/
theorem mem_of_function? {symbols : Symbols} {node : NodeId} {entry : FunctionEntry}
    (found : symbols.function? node = some entry) :
    entry ∈ symbols.functions.toList ∧ entry.definition.id = node := by
  refine ⟨List.mem_reverse.mp (List.mem_of_find?_eq_some found), ?_⟩
  simpa using List.find?_some found

end Symbols

/-- A definition all of whose nodes are among some. -/
def FunctionDefinition.Among (nodes : List NodeId) (definition : FunctionDefinition) : Prop :=
  Opens (· ∈ nodes) (Outline.ofFunction definition)

/-- Progress that mentions known functions only, whose definitions are declared and among
those of some nodes, and in which a scope is open. -/
structure Progress.Sound (nodes : List NodeId) (known : FunctionId → Prop)
    (environment : Environment) (progress : Progress) : Prop where
  registered : Within known environment.registry
  stored : Within known progress.store
  visible : progress.scopes.Sound known
  present : ∀ id, known id → progress.store.HasFunction id
  entries : ∀ entry ∈ progress.symbols.functions.toList,
    known entry.function ∧ entry.definition.Among nodes
  defined : ∀ id node, known id → (progress.store.functionAt id).node = some node →
    (progress.symbols.function? node).isSome
  /-- A definition makes one overload. -/
  single : ∀ id node, (progress.store.functionAt id).node = some node →
    ∃ state, (progress.store.functionAt id).overloads.map (·.state) = [state]
  /-- A template is a class of the store and not made from another one. -/
  flat : ∀ id template, (progress.store.classAt id).template = some template →
    progress.store.HasClass template ∧ (progress.store.classAt template).template = none

namespace Progress.Sound

variable {nodes : List NodeId} {known : FunctionId → Prop} {environment : Environment}
  {progress : Progress}

theorem changeStore (sound : progress.Sound nodes known environment) {store : Store}
    (stored : Within known store) (alike : progress.store.Alike store) :
    Progress.Sound nodes known environment { progress with store } where
  registered := sound.registered
  stored := stored
  visible := sound.visible
  present id isKnown := (alike.hasFunction id).mpr (sound.present id isKnown)
  entries := sound.entries
  defined id node isKnown definedBy := by
    rw [alike.node] at definedBy
    exact sound.defined id node isKnown definedBy
  single id node definedBy := by
    rw [alike.node] at definedBy
    rw [alike.states]
    exact sound.single id node definedBy
  flat id template madeFrom := by
    rw [alike.template] at madeFrom
    have flat := sound.flat id template madeFrom
    exact ⟨(alike.hasClass template).mpr flat.1, (alike.template template).trans flat.2⟩

theorem changeScopes (sound : progress.Sound nodes known environment) {scopes : Scopes}
    (within : Within known scopes) (opened : scopes.stack ≠ []) :
    Progress.Sound nodes known environment { progress with scopes } :=
  { sound with visible := ⟨within, opened⟩ }

theorem changeLog (sound : progress.Sound nodes known environment) (log : DiagnosticLog) :
    Progress.Sound nodes known environment { progress with log } :=
  { sound with }

theorem insertClass (sound : progress.Sound nodes known environment) (node : NodeId)
    (id : ClassId) : Progress.Sound nodes known environment
      { progress with symbols := progress.symbols.insertClass node id } :=
  { sound with }

/-- A class is created from no template, or from one that is not made from another one. -/
theorem addClass (sound : progress.Sound nodes known environment) {record : ClassRecord}
    (given : Within known record)
    (flat : ∀ template, record.template = some template →
      progress.store.HasClass template ∧ (progress.store.classAt template).template = none) :
    Progress.Sound nodes known environment
      { progress with store := (progress.store.addClass record).2 } where
  registered := sound.registered
  stored := within_addClass sound.stored given
  visible := sound.visible
  present := sound.present
  entries := sound.entries
  defined := sound.defined
  single := sound.single
  flat id template madeFrom := by
    rw [Store.classAt_addClass_eq] at madeFrom
    have before : progress.store.HasClass template ∧
        (progress.store.classAt template).template = none := by
      split at madeFrom
      · exact flat template madeFrom
      · exact sound.flat id template madeFrom
    refine ⟨(Store.hasClass_addClass _ _ _).mpr (.inl before.1), ?_⟩
    rw [Store.classAt_addClass_of_hasClass _ _ _ before.1]
    exact before.2

/-- A function is created from a definition, and is not known yet. -/
theorem addFunction (sound : progress.Sound nodes known environment) {record : FunctionRecord}
    (given : Within known record)
    (single : ∃ state, record.overloads.map (·.state) = [state]) :
    Progress.Sound nodes known environment
      { progress with store := (progress.store.addFunction record).2 } where
  registered := sound.registered
  stored := within_addFunction sound.stored given
  visible := sound.visible
  present id isKnown :=
    (Store.hasFunction_addFunction _ _ _).mpr (.inl (sound.present id isKnown))
  entries := sound.entries
  defined id node isKnown definedBy := by
    have before : id ≠ progress.store.nextFunction := by
      rintro rfl
      exact Nat.lt_irrefl _ (sound.present _ isKnown)
    rw [Store.functionAt_addFunction_eq, if_neg before] at definedBy
    exact sound.defined id node isKnown definedBy
  single id node definedBy := by
    rw [Store.functionAt_addFunction_eq] at definedBy ⊢
    split
    · exact single
    · next before =>
      rw [if_neg before] at definedBy
      exact sound.single id node definedBy
  flat := sound.flat

/-- A function that is declared is known from then on. -/
theorem insert (sound : progress.Sound nodes known environment) {entry : FunctionEntry}
    (among : entry.definition.Among nodes)
    (present : progress.store.HasFunction entry.function)
    (node : (progress.store.functionAt entry.function).node = some entry.definition.id) :
    Progress.Sound nodes (fun id => known id ∨ id = entry.function) environment
      { progress with symbols := progress.symbols.insert entry } where
  registered := Refers.widen (References.ofFunctions_mono fun _ => .inl) _ sound.registered
  stored := Refers.widen (References.ofFunctions_mono fun _ => .inl) _ sound.stored
  visible := ⟨Refers.widen (References.ofFunctions_mono fun _ => .inl) _ sound.visible.within,
    sound.visible.opened⟩
  present id isKnown := by
    rcases isKnown with before | rfl
    · exact sound.present id before
    · exact present
  entries declared listed := by
    have listed : declared ∈ (progress.symbols.functions.push entry).toList := listed
    rw [Array.toList_push, List.mem_append, List.mem_singleton] at listed
    rcases listed with before | rfl
    · exact ⟨.inl (sound.entries declared before).1, (sound.entries declared before).2⟩
    · exact ⟨.inr rfl, among⟩
  defined id other isKnown definedBy := by
    rw [Symbols.function?_insert]
    split
    · rfl
    · next apart =>
      rcases isKnown with before | rfl
      · exact sound.defined id other before definedBy
      · exact absurd (Option.some.inj (node.symm.trans definedBy)) apart
  single := sound.single
  flat := sound.flat

end Progress.Sound

end TypeInference
