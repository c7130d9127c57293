import Mathlib.Data.Prod.Lex
import Mathlib.Data.Set.Card
import TypeInference.Proofs.Soundness

/-!
# What remains to be evaluated

A module has finitely many definitions, and each is declared once and evaluated once. What
remains is measured by two numbers: first how many nodes have no declared function yet, and
then how many functions of declared definitions wait for their evaluation. Declaring a
definition lowers the first number, whatever becomes of the second; beginning an evaluation
lowers the second. Nothing raises what remains.
-/

namespace TypeInference

/-- The nodes among some that no function is declared for yet. -/
def Symbols.undeclared (symbols : Symbols) (nodes : List NodeId) : List NodeId :=
  nodes.filter fun node => (symbols.function? node).isNone

namespace Progress

/-- Whether a function of a declared definition waits for its evaluation. -/
def Waits (progress : Progress) (id : FunctionId) : Prop :=
  ∃ node, (progress.store.functionAt id).node = some node ∧
    (progress.symbols.function? node).isSome ∧
      (progress.store.functionAt id).overloads.map (·.state) = [.pending]

/-- How many definitions are undeclared, and then how many functions wait. -/
noncomputable def remaining (nodes : List NodeId) (progress : Progress) : ℕ ×ₗ ℕ :=
  toLex ((progress.symbols.undeclared nodes).length, {id | progress.Waits id}.ncard)

/-- Only functions of the store wait, and there are finitely many of them. -/
theorem finite_waits (progress : Progress) : {id | progress.Waits id}.Finite := by
  have index : Set.InjOn FunctionId.index {id | progress.Waits id} :=
    fun _ _ _ _ same => FunctionId.eq_of_index same
  refine Set.Finite.of_finite_image ?_ index
  refine (Set.finite_lt_nat progress.store.functions.size).subset ?_
  rintro _ ⟨id, ⟨node, definedBy, -⟩, rfl⟩
  refine Decidable.byContradiction fun outside => ?_
  rw [Store.functionAt_of_not_hasFunction _ _ outside] at definedBy
  cases definedBy

variable {nodes : List NodeId} {before after : Progress}

/-- Where the same is declared and no more functions wait, no more remains. -/
theorem remaining_le (declared : after.symbols.undeclared nodes = before.symbols.undeclared nodes)
    (fewer : ∀ id, after.Waits id → before.Waits id) :
    after.remaining nodes ≤ before.remaining nodes := by
  refine Prod.Lex.toLex_le_toLex.mpr (.inr ⟨congrArg List.length declared, ?_⟩)
  exact Set.ncard_le_ncard fewer before.finite_waits

/-- Where the same is declared and a function does not wait any more, less remains. -/
theorem remaining_lt (declared : after.symbols.undeclared nodes = before.symbols.undeclared nodes)
    (fewer : ∀ id, after.Waits id → before.Waits id) {begun : FunctionId}
    (waited : before.Waits begun) (waits : ¬after.Waits begun) :
    after.remaining nodes < before.remaining nodes := by
  refine Prod.Lex.toLex_lt_toLex.mpr (.inr ⟨congrArg List.length declared, ?_⟩)
  exact Set.ncard_lt_ncard ⟨fewer, fun all => waits (all waited)⟩ before.finite_waits

/-- What waits is a matter of the declared functions and of what the functions are. -/
theorem waits_of_alike (declared : after.symbols.functions = before.symbols.functions)
    (node : ∀ id, (after.store.functionAt id).node = (before.store.functionAt id).node)
    (states : ∀ id, (after.store.functionAt id).overloads.map (·.state) =
      (before.store.functionAt id).overloads.map (·.state)) (id : FunctionId) :
    after.Waits id ↔ before.Waits id := by
  unfold Waits Symbols.function?
  rw [node, states, declared]

/-- Contents of the store, classes and scopes do not matter. -/
theorem remaining_of_alike (declared : after.symbols.functions = before.symbols.functions)
    (node : ∀ id, (after.store.functionAt id).node = (before.store.functionAt id).node)
    (states : ∀ id, (after.store.functionAt id).overloads.map (·.state) =
      (before.store.functionAt id).overloads.map (·.state)) :
    after.remaining nodes = before.remaining nodes := by
  have same : after.symbols.undeclared nodes = before.symbols.undeclared nodes := by
    unfold Symbols.undeclared Symbols.function?
    rw [declared]
  have waits := waits_of_alike declared node states
  exact le_antisymm (remaining_le same fun id => (waits id).mp)
    (remaining_le same.symm fun id => (waits id).mpr)

/-- A function whose definition is not declared does not wait yet. -/
theorem remaining_addFunction (before : Progress) {record : FunctionRecord} {node : NodeId}
    (definedBy : record.node = some node) (absent : before.symbols.function? node = none) :
    remaining nodes { before with store := (before.store.addFunction record).2 } ≤
      before.remaining nodes := by
  refine remaining_le rfl ?_
  rintro id ⟨other, definedBy', declared, pending⟩
  dsimp only at definedBy' declared pending
  rw [Store.functionAt_addFunction_eq] at definedBy' pending
  by_cases created : id = before.store.nextFunction
  · rw [if_pos created, definedBy] at definedBy'
    cases definedBy'
    rw [absent] at declared
    cases declared
  · rw [if_neg created] at definedBy' pending
    exact ⟨other, definedBy', declared, pending⟩

/-- Declaring a definition lowers what remains, unless it was declared before. -/
theorem remaining_insert (before : Progress) {entry : FunctionEntry}
    (listed : entry.definition.id ∈ nodes) :
    remaining nodes { before with symbols := before.symbols.insert entry } ≤
      before.remaining nodes := by
  have found (node : NodeId) : ((before.symbols.insert entry).function? node).isNone =
      ((before.symbols.function? node).isNone && decide (node ≠ entry.definition.id)) := by
    rw [Symbols.function?_insert]
    by_cases own : entry.definition.id = node
    · simp [own]
    · simp [own, Ne.symm own]
  have undeclared : (before.symbols.insert entry).undeclared nodes =
      (before.symbols.undeclared nodes).filter fun node => decide (node ≠ entry.definition.id) := by
    simp only [Symbols.undeclared, List.filter_filter, found, Bool.and_comm]
  cases known : before.symbols.function? entry.definition.id with
  | none =>
    refine le_of_lt (Prod.Lex.toLex_lt_toLex.mpr (.inl ?_))
    dsimp only
    rw [undeclared]
    refine List.length_filter_lt_length_iff_exists.mpr ⟨entry.definition.id, ?_, by simp⟩
    exact List.mem_filter.mpr ⟨listed, by rw [known]; rfl⟩
  | some earlier =>
    refine remaining_le ?_ ?_
    · rw [undeclared]
      refine List.filter_eq_self.mpr fun node among => decide_eq_true ?_
      rintro rfl
      have absent := (List.mem_filter.mp among).2
      rw [known] at absent
      cases absent
    · rintro id ⟨node, definedBy, declared, pending⟩
      refine ⟨node, definedBy, ?_, pending⟩
      rw [Symbols.function?_insert] at declared
      split at declared
      · next own => rw [← own, known]; rfl
      · exact declared

end Progress

end TypeInference
