import TypeInference.Proofs.Records
import TypeInference.Registry.Standard

/-!
# The registered classes before any analysis

No registered class is a specialization or has one, none is being made, and no
registered function has a definition. These are facts about one store, which is
computed.
-/

namespace TypeInference.Registry

/-- A class that is no specialization and has none. -/
def isUnspecialized (record : ClassRecord) : Bool :=
  record.template.isNone && record.specializations.isEmpty && record.unfinished.entries.isEmpty

/-- Every registered class is unspecialized. -/
theorem all_classes_standard : standard.store.classes.all isUnspecialized = true := by
  decide +kernel

/-- Every resolution order of a registered class has registered classes only. -/
theorem all_orders_standard : standard.store.classes.all (fun record =>
    record.resolutionOrder.all fun listed =>
      decide (listed.index < standard.store.classes.size)) = true := by
  decide +kernel

/-- No registered class has two members of one name. -/
theorem all_members_standard :
    standard.store.classes.all (fun record => decide record.members.keys.Nodup) = true := by
  decide +kernel

/-- No registered function has a definition. -/
theorem all_functions_standard :
    standard.store.functions.all (fun record => record.node.isNone) = true := by
  decide +kernel

/-- What holds of every record of a store and of the empty one holds of what is read. -/
theorem classAt_of_all (store : Store) (property : ClassRecord → Bool)
    (every : store.classes.all property = true) (empty : property default = true) (id : ClassId) :
    property (store.classAt id) = true := by
  by_cases present : store.HasClass id
  · have inside : id.index < store.classes.size := present
    have read : store.classAt id = store.classes[id.index] := by
      rw [Store.classAt, Array.getElem?_eq_getElem inside, Option.getD_some]
    rw [read]
    exact Array.all_eq_true.mp every id.index present
  · rw [Store.classAt_of_not_hasClass _ id present]
    exact empty

/-- Every registered class reads as unspecialized. -/
theorem isUnspecialized_classAt (id : ClassId) :
    isUnspecialized (standard.store.classAt id) = true :=
  classAt_of_all _ _ all_classes_standard rfl id

/-- A registered class is no specialization. -/
theorem template_standard (id : ClassId) : (standard.store.classAt id).template = none := by
  have plain := isUnspecialized_classAt id
  simp only [isUnspecialized, Bool.and_eq_true, Option.isNone_iff_eq_none] at plain
  exact plain.1.1

/-- A registered class has no specialization yet. -/
theorem specializations_standard (id : ClassId) :
    (standard.store.classAt id).specializations.entries = [] := by
  have plain := isUnspecialized_classAt id
  simp only [isUnspecialized, Bool.and_eq_true, OrderedTable.isEmpty, List.isEmpty_iff] at plain
  exact plain.1.2

/-- No specialization of a registered class is being made yet. -/
theorem unfinished_standard (id : ClassId) :
    (standard.store.classAt id).unfinished.entries = [] := by
  have plain := isUnspecialized_classAt id
  simp only [isUnspecialized, Bool.and_eq_true, List.isEmpty_iff] at plain
  exact plain.2

/-- The members of a registered class have different names. -/
theorem nodup_members_standard (id : ClassId) :
    (standard.store.classAt id).members.keys.Nodup :=
  of_decide_eq_true (classAt_of_all _ _ all_members_standard rfl id)

/-- The order of a registered class has registered classes only. -/
theorem hasClass_order_standard (id : ClassId) {listed : ClassId}
    (found : listed ∈ (standard.store.classAt id).resolutionOrder) :
    standard.store.HasClass listed := by
  have every := classAt_of_all _ _ all_orders_standard rfl id
  exact of_decide_eq_true (List.all_eq_true.mp every listed found)

/-- A registered function has no definition. -/
theorem node_standard (id : FunctionId) : (standard.store.functionAt id).node = none := by
  by_cases present : standard.store.HasFunction id
  · have every := Array.all_eq_true.mp all_functions_standard id.index present
    have inside : id.index < standard.store.functions.size := present
    have read : standard.store.functionAt id = standard.store.functions[id.index] := by
      rw [Store.functionAt, Array.getElem?_eq_getElem inside, Option.getD_some]
    rw [read]
    exact Option.isNone_iff_eq_none.mp every
  · rw [Store.functionAt_of_not_hasFunction _ id present]
    rfl

end TypeInference.Registry
