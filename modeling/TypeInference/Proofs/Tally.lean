import Mathlib.Algebra.Order.BigOperators.Group.List
import Mathlib.Data.List.NodupEquivFin
import TypeInference.Proofs.Accounting
import TypeInference.Proofs.Phrases

/-!
# Bad indices are tallied

For every node it is tallied how many functions it has declared, and for every span how many bad
indices were reported there. To what has happened is added what can still happen: a function that
waits may still come to everything in its definition. Since no node declares two functions, this
is only counted once, and evaluating the function moves it from what can happen to what has
happened. So a module with distinct nodes reports no more bad indices at a span than it has
charges for.
-/

namespace TypeInference

open Analysis

namespace Store

/-- The nodes that declare functions, in the order of creation. -/
def nodes (store : Store) : List (Option NodeId) :=
  (store.functions.map (·.node)).toList

theorem getElem?_nodes (store : Store) (function : FunctionId) {node : NodeId}
    (defined : (store.functionAt function).node = some node) :
    store.nodes[function.index]? = some (some node) := by
  unfold functionAt at defined
  unfold nodes
  cases found : store.functions[function.index]? with
  | none => rw [found] at defined; cases defined
  | some record =>
    rw [found] at defined
    simp [found, ← defined]

theorem nodes_of_standings {before after : Store} (same : after.standings = before.standings) :
    after.nodes = before.nodes := by
  have read (store : Store) : store.nodes = (store.standings.map Prod.fst).toList := by
    simp [nodes, standings, FunctionRecord.standing]
  rw [read, read, same]

theorem nodes_modifyOverload (store : Store) (id : OverloadId) (change : Overload → Overload) :
    (store.modifyOverload id change).nodes = store.nodes := by
  refine congrArg Array.toList (Array.ext (by simp [modifyOverload, modifyFunction])
    fun place _ _ => ?_)
  simp only [modifyOverload, modifyFunction, Array.getElem_map, Array.getElem_modify]
  split <;> rfl

theorem nodes_addFunction (store : Store) (record : FunctionRecord) :
    (store.addFunction record).2.nodes = store.nodes ++ [record.node] := by
  simp [nodes, addFunction]

theorem count_nodes_of_undefined {store : Store}
    (undefined : ∀ id, (store.functionAt id).node = none) (node : NodeId) :
    store.nodes.count (some node) = 0 := by
  refine List.count_eq_zero.mpr fun listed => ?_
  obtain ⟨record, among, declared⟩ : ∃ record ∈ store.functions, record.node = some node := by
    simpa [nodes] using listed
  obtain ⟨place, inside, rfl⟩ := Array.getElem_of_mem among
  have none := undefined ⟨place⟩
  rw [functionAt, Array.getElem?_eq_getElem inside, Option.getD_some, declared] at none
  cases none

/-- A node that is listed once declares one function. -/
theorem eq_of_count_nodes (store : Store) {node : NodeId}
    (once : store.nodes.count (some node) ≤ 1) {first second : FunctionId}
    (one : (store.functionAt first).node = some node)
    (other : (store.functionAt second).node = some node) : first = second := by
  obtain ⟨firstInside, firstNode⟩ := List.getElem?_eq_some_iff.mp (store.getElem?_nodes first one)
  obtain ⟨secondInside, secondNode⟩ :=
    List.getElem?_eq_some_iff.mp (store.getElem?_nodes second other)
  have notTwice {place later : Nat} (inside : place < store.nodes.length)
      (laterInside : later < store.nodes.length) (before : place < later)
      (same : store.nodes[place] = some node) (again : store.nodes[later] = some node) : False := by
    have twice : store.nodes.Duplicate (some node) := List.duplicate_iff_exists_distinct_get.mpr
      ⟨⟨place, inside⟩, ⟨later, laterInside⟩, before, same.symm, again.symm⟩
    have counted : 2 ≤ store.nodes.count (some node) := by
      convert List.duplicate_iff_two_le_count.mp twice
    omega
  obtain less | same | more := Nat.lt_trichotomy first.index second.index
  · exact (notTwice firstInside secondInside less firstNode secondNode).elim
  · exact FunctionId.eq_of_index same
  · exact (notTwice secondInside firstInside more secondNode firstNode).elim

/-- Whether the only overload of a function waits to be evaluated. -/
def Pending (store : Store) (function : FunctionId) : Prop :=
  (store.functionAt function).overloads.map (·.state) = [.pending]

instance (store : Store) (function : FunctionId) : Decidable (store.Pending function) :=
  inferInstanceAs (Decidable (_ = _))

theorem pending_of_standings {before after : Store} (same : after.standings = before.standings)
    (function : FunctionId) : after.Pending function ↔ before.Pending function := by
  have states (store : Store) : (store.functionAt function).overloads.map (·.state) =
      (store.functionAt function).standing.2.map Prod.fst := by
    simp [FunctionRecord.standing, Overload.standing]
  unfold Pending
  rw [states, states, standing_of_standings same]

/-- An overload that is changed in other respects waits as before. -/
theorem pending_modifyOverload (store : Store) (id : OverloadId) {change : Overload → Overload}
    (same : ∀ overload, (change overload).state = overload.state) (function : FunctionId) :
    (store.modifyOverload id change).Pending function ↔ store.Pending function := by
  unfold Pending modifyOverload
  rw [functionAt_modifyFunction_eq]
  split
  · have states : ((store.functionAt function).overloads.modify id.index change).map (·.state) =
        (store.functionAt function).overloads.map (·.state) := by
      refine List.ext_getElem? fun place => ?_
      simp only [List.getElem?_map, List.getElem?_modify]
      cases (store.functionAt function).overloads[place]? with
      | none => rfl
      | some overload => by_cases here : id.index = place <;> simp [here, same]
    rw [FunctionRecord.modifyOverload, states]
  · rfl

/-- A function that is begun or evaluated does not wait, and every other one waits as before. -/
theorem pending_setState (store : Store) {changed function : FunctionId} {state : OverloadState}
    (begun : state ≠ .pending) (waits : (store.setState changed state).Pending function) :
    store.Pending function ∧ ¬(function = changed ∧ store.HasFunction changed) := by
  unfold Pending at waits
  rw [states_setState] at waits
  split at waits
  · cases states : (store.functionAt function).overloads.map (·.state) with
    | nil => rw [states] at waits; cases waits
    | cons first rest =>
      rw [states] at waits
      exact absurd (List.cons.inj waits).1 begun
  · next apart => exact ⟨waits, apart⟩

end Store

/-- What is tallied: the functions that a node declares, or the bad indices reported at a
span. -/
inductive Account where
  | declarations (node : NodeId)
  | reports (span : Span)

namespace Account

/-- How much of a bill is charged to an account. -/
def weight : Account → List Charge → Nat
  | declarations node, bill => bill.count (.declared node)
  | reports span, bill => bill.count (.indexed false span) + bill.count (.indexed true span)

/-- How much of an account was spent. -/
def spent : Account → Progress → Nat
  | declarations node, progress => progress.store.nodes.count (some node)
  | reports span, progress => progress.log.badIndices.count span

/-- What is set aside for a declared function, until its evaluation begins. -/
def reserve (account : Account) (store : Store) (entry : FunctionEntry) : Nat :=
  if store.Pending entry.function then
    account.weight (Charge.ofFunction none entry.definition)
  else 0

/-- What is set aside for all declared functions. -/
def owed (account : Account) (progress : Progress) : Nat :=
  (progress.symbols.functions.toList.map (account.reserve progress.store)).sum

/-- What was spent and what can still be spent. -/
def total (account : Account) (progress : Progress) : Nat :=
  account.spent progress + account.owed progress

variable (account : Account)

theorem weight_append (first second : List Charge) :
    account.weight (first ++ second) = account.weight first + account.weight second := by
  cases account with
  | declarations node => exact List.count_append
  | reports span =>
    simp only [weight, List.count_append]
    omega

theorem weight_mono {fewer more : List Charge}
    (le : ∀ charge, fewer.count charge ≤ more.count charge) :
    account.weight fewer ≤ account.weight more := by
  cases account with
  | declarations node => exact le _
  | reports span => exact Nat.add_le_add (le _) (le _)

/-- Which values are returned is of no account. -/
theorem weight_orReturn (id : OverloadId) (bill : List Charge) :
    account.weight (Charge.orReturn id bill) = account.weight bill := by
  cases account <;> simp [weight, Charge.count_orReturn]

theorem weight_evaluation (function : FunctionId) (definition : FunctionDefinition) :
    account.weight (Charge.evaluation function definition) =
      account.weight (Charge.ofFunction none definition) := by
  rw [Charge.evaluation, weight_orReturn]
  cases account <;> simp [weight, Charge.count_ofFunction]

/-- A sum is lower where a term is lower and no other is higher. -/
theorem sum_map_add_le {α : Type} {lower upper : α → Nat} {list : List α} {term : α}
    {less : Nat} (listed : term ∈ list) (le : ∀ other ∈ list, lower other ≤ upper other)
    (here : lower term + less ≤ upper term) :
    (list.map lower).sum + less ≤ (list.map upper).sum := by
  induction list with
  | nil => cases listed
  | cons first rest inductionHypothesis =>
    obtain ⟨leFirst, leRest⟩ := List.forall_mem_cons.mp le
    simp only [List.map_cons, List.sum_cons]
    obtain same | later := List.mem_cons.mp listed
    · subst same
      have others := List.sum_le_sum leRest
      omega
    · have others := inductionHypothesis later leRest
      omega

@[simp] theorem weight_nil : account.weight [] = 0 := by
  cases account <;> rfl

section Changes

variable {before after : Progress}

theorem reserve_le {before after : Store} {entry : FunctionEntry}
    (pending : after.Pending entry.function → before.Pending entry.function) :
    account.reserve after entry ≤ account.reserve before entry := by
  unfold reserve
  split
  · next waits => rw [if_pos (pending waits)]
  · exact Nat.zero_le _

/-- As long as no other functions wait, no more is owed. -/
theorem owed_le (functions : after.symbols.functions = before.symbols.functions)
    (pending : ∀ entry ∈ before.symbols.functions.toList,
      after.store.Pending entry.function → before.store.Pending entry.function) :
    account.owed after ≤ account.owed before := by
  unfold owed
  rw [functions]
  exact List.sum_le_sum fun entry listed => account.reserve_le (pending entry listed)

/-- What does not count changes no account. -/
theorem total_of_agrees (agrees : before.Agrees after) :
    account.total after ≤ account.total before := by
  refine Nat.add_le_add ?_ (account.owed_le agrees.functions fun entry _ =>
    (Store.pending_of_standings agrees.standings entry.function).mp)
  cases account with
  | declarations node => rw [spent, spent, Store.nodes_of_standings agrees.standings]
  | reports span => rw [spent, spent, agrees.reports]

theorem total_addReturn (id : OverloadId) (value : Value) :
    account.total (before.addReturn id value) ≤ account.total before := by
  have pending (function : FunctionId) : (before.addReturn id value).store.Pending function ↔
      before.store.Pending function := by
    have same (overload : Overload) : ({ overload with
        inferredReturns := overload.inferredReturns ++ [value] } : Overload).state =
          overload.state := rfl
    exact before.store.pending_modifyOverload id same function
  refine Nat.add_le_add ?_ (account.owed_le rfl fun entry _ => (pending entry.function).mp)
  cases account with
  | declarations node =>
    rw [spent, spent, Progress.addReturn, Store.nodes_modifyOverload]
  | reports span => exact le_rfl

theorem spent_setState (function : FunctionId) (state : OverloadState) :
    account.spent (before.setState function state) = account.spent before := by
  cases account with
  | declarations node =>
    rw [spent, spent, Progress.setState, Store.setState, Store.nodes_modifyOverload]
  | reports span => rfl

theorem total_setState (function : FunctionId) {state : OverloadState}
    (begun : state ≠ .pending) :
    account.total (before.setState function state) ≤ account.total before :=
  Nat.add_le_add (account.spent_setState function state).le (account.owed_le rfl
    fun _ _ waits => (Store.pending_setState before.store begun waits).1)

/-- What is set aside for a function is freed when its evaluation begins, if its node declares
no other function. -/
theorem total_begun (tidy : before.Tidy) {function : FunctionId} {entry : FunctionEntry}
    (once : before.store.nodes.count (some entry.definition.id) ≤ 1)
    (begins : before.Begins function entry) :
    account.total (before.setState function .evaluating) +
      account.weight (Charge.evaluation function entry.definition) ≤ account.total before := by
  have listed := (Symbols.mem_of_function? begins.declared).1
  have same : entry.function = function :=
    before.store.eq_of_count_nodes once (tidy.declared entry listed) begins.node
  have present := Store.hasFunction_of_node begins.node
  have still {other : FunctionId} := @Store.pending_setState before.store function other
    .evaluating (by decide)
  have freed : account.owed (before.setState function .evaluating) +
      account.weight (Charge.ofFunction none entry.definition) ≤ account.owed before := by
    refine sum_map_add_le listed (fun other _ => account.reserve_le fun waits => (still waits).1) ?_
    have begun : ¬(before.store.setState function .evaluating).Pending entry.function :=
      fun waits => (still waits).2 ⟨same, present⟩
    have waits : before.store.Pending entry.function := same ▸ begins.pending
    change account.reserve (before.store.setState function .evaluating) entry + _ ≤ _
    rw [reserve, if_neg begun, reserve, if_pos waits, Nat.zero_add]
  rw [weight_evaluation, total, total, spent_setState]
  omega

theorem total_report (before : Progress) (again : Bool) (typeName : String)
    (document : DocumentId) (span : Span) :
    account.total { before with
        log := before.log.report document ((Lint.badIndexType typeName).at span) } ≤
      account.total before + account.weight [.indexed again span] := by
  cases account with
  | declarations node => exact Nat.le_add_right _ _
  | reports place =>
    change (DiagnosticLog.badIndices _).count place + (reports place).owed before ≤
      before.log.badIndices.count place + (reports place).owed before + _
    rw [DiagnosticLog.badIndices_report, List.count_append]
    have charged : (reports place).weight [.indexed again span] = [span].count place := by
      cases again <;> by_cases here : span = place <;> simp [weight, here]
    rw [charged]
    omega

/-- A function that is declared by a node counts for this node. -/
theorem total_addFunction (tidy : before.Tidy) {record : FunctionRecord} {node : NodeId}
    (defined : record.node = some node) :
    account.total { before with store := (before.store.addFunction record).2 } ≤
      account.total before + account.weight [.declared node] := by
  have owes : account.owed { before with store := (before.store.addFunction record).2 } ≤
      account.owed before := by
    refine account.owed_le rfl fun entry listed waits => ?_
    have present := Store.hasFunction_of_node (tidy.declared entry listed)
    unfold Store.Pending at waits ⊢
    rwa [Store.functionAt_addFunction_of_present present] at waits
  cases account with
  | declarations place =>
    change ((before.store.addFunction record).2.nodes.count (some place) + _) ≤
      before.store.nodes.count (some place) + _ + [Charge.declared node].count (.declared place)
    rw [Store.nodes_addFunction, List.count_append, defined]
    have charged : [Charge.declared node].count (.declared place) =
        [some node].count (some place) := by
      by_cases here : node = place <;> simp [here]
    rw [charged]
    omega
  | reports span =>
    exact (Nat.add_le_add_left owes _).trans (Nat.le_add_right _ _)

theorem total_insert (before : Progress) (entry : FunctionEntry) :
    account.total { before with symbols := before.symbols.insert entry } ≤
      account.total before + account.weight (Charge.ofFunction none entry.definition) := by
  have owes : account.owed { before with symbols := before.symbols.insert entry } ≤
      account.owed before + account.weight (Charge.ofFunction none entry.definition) := by
    simp only [owed, Symbols.insert, Array.toList_push, List.map_append, List.sum_append,
      List.map_cons, List.map_nil, List.sum_cons, List.sum_nil, Nat.add_zero]
    refine Nat.add_le_add_left ?_ _
    unfold reserve
    split
    · exact le_rfl
    · exact Nat.zero_le _
  have spends : account.spent { before with symbols := before.symbols.insert entry } =
      account.spent before := by cases account <;> rfl
  rw [total, total, spends]
  omega

end Changes

/-- A node that is tallied once declares one function. -/
theorem once_of_total {before : Progress} {node : NodeId}
    (once : (declarations node).total before + (declarations node).weight [] ≤ 1) :
    before.store.nodes.count (some node) ≤ 1 :=
  (Nat.le_add_right _ _).trans ((Nat.le_add_right _ _).trans once)

end Account

open Account (once_of_total)

/-- The ledger in which everything is tallied, for programs that declare every node once. -/
def Ledger.tally : Ledger where
  Ready bill progress := progress.Tidy ∧ ∀ node,
    (Account.declarations node).total progress + (Account.declarations node).weight bill ≤ 1
  Pays bill before after := after.Tidy ∧ before.store.KeepsNodes after.store ∧
    ∀ account : Account, account.total after ≤ account.total before + account.weight bill
  ready_mono := by
    rintro fewer more progress le ⟨tidy, once⟩
    refine ⟨tidy, fun node => ?_⟩
    have weighs := (Account.declarations node).weight_mono le
    have bound := once node
    omega
  pays_mono := by
    rintro fewer more before after le ⟨tidy, keeps, bound⟩
    exact ⟨tidy, keeps, fun account => (bound account).trans
      (Nat.add_le_add_left (account.weight_mono le) _)⟩
  tidy := And.left
  still := by
    rintro before after agrees ⟨tidy, once⟩
    exact ⟨tidy.of_agrees agrees, .of_standings agrees.standings, fun account =>
      (account.total_of_agrees agrees).trans (Nat.le_add_right _ _)⟩
  onward := by
    rintro first second before middle ⟨-, once⟩ ⟨tidy, -, bound⟩
    refine ⟨tidy, fun node => ?_⟩
    have before := once node
    have spent := bound (.declarations node)
    rw [Account.weight_append] at before
    omega
  trans := by
    rintro first second before middle after ⟨-, keeps, bound⟩ ⟨tidy, keepsLater, boundLater⟩
    refine ⟨tidy, keeps.trans keepsLater, fun account => ?_⟩
    have earlier := bound account
    have later := boundLater account
    rw [Account.weight_append]
    omega
  keepsNodes pays := pays.2.1
  reported typeName document progress ready :=
    ⟨⟨ready.1.declared, ready.1.single⟩, .refl _, fun account =>
      account.total_report progress _ typeName document _⟩
  returned value progress ready :=
    ⟨ready.1.modifyOverload _ _, Store.keepsNodes_modifyOverload _ _ _, fun account =>
      (account.total_addReturn _ value).trans (Nat.le_add_right _ _)⟩
  completed := by
    rintro id bill before after value - ⟨tidy, keeps, bound⟩ -
    refine ⟨tidy.modifyOverload _ _, keeps.trans (Store.keepsNodes_modifyOverload _ _ _),
      fun account => ?_⟩
    rw [Account.weight_orReturn]
    exact (account.total_addReturn id value).trans (bound account)
  created definition owner qualifiedName progress ready _ :=
    have fresh := declaredRecord_fresh definition owner qualifiedName
    ⟨ready.1.addFunction fresh.2, Store.keepsNodes_addFunction _ _, fun account =>
      account.total_addFunction ready.1 fresh.1⟩
  inserted entry progress ready _ defined :=
    ⟨ready.1.insert defined, .refl _, fun account => account.total_insert progress entry⟩
  begun := by
    rintro function entry progress ⟨tidy, once⟩ begins
    refine ⟨tidy.modifyOverload _ _, fun node => ?_⟩
    exact ((Account.declarations node).total_begun tidy (once_of_total (once _)) begins).trans
      (once node)
  interrupted := by
    rintro function entry progress after ⟨tidy, once⟩ begins ⟨tidyAfter, keeps, bound⟩
    refine ⟨tidyAfter, (Store.keepsNodes_modifyOverload _ _ _).trans keeps, fun account => ?_⟩
    exact ((bound account).trans (account.total_begun tidy (once_of_total (once _)) begins)).trans
      (Nat.le_add_right _ _)
  ended := by
    rintro function entry progress after ⟨tidy, once⟩ begins ⟨tidyAfter, keeps, bound⟩
    refine ⟨tidyAfter.modifyOverload _ _, ((Store.keepsNodes_modifyOverload _ _ _).trans
      keeps).trans (Store.keepsNodes_modifyOverload _ _ _), fun account => ?_⟩
    exact (((account.total_setState function (by decide)).trans (bound account)).trans
      (account.total_begun tidy (once_of_total (once _)) begins)).trans (Nat.le_add_right _ _)

namespace Module

/-- A module that adds a number to an item of a list, for which it gives no valid index. -/
def misindexing : Module :=
  ⟨[.define "v" (.binary (.index (.display .list [.constant (.int 1) .unknown] .unknown)
    (.constant (.str "x") .unknown) .unknown) .add (.constant (.int 1) .unknown) .unknown)]⟩

end Module

namespace Analyzer

/-- The spans at which bad indices are reported in a module that is analyzed first, however its
analysis ends. -/
def badIndicesAfter (options : Options) (module : Module) : List Span :=
  ((Analysis.ofModule module).after ⟨(new options).registry, options⟩
    { store := (new options).store }).log.badIndices

/-- Analyzing a module with distinct nodes reports a bad index at most once for each time that
the charges of the module list its position: once because the index expression is evaluated, and
once more for every operator that is checked and of which it is part of an operand.

Proof: every evaluation of an index expression is paid for by a charge for its position. A
function is evaluated once, by charges that were put aside when its definition was declared, and
a definition is declared once because no other one has its node. -/
theorem bad_indices_charged (options : Options) (module : Module)
    (distinct : module.HasDistinctNodes) (span : Span) :
    (badIndicesAfter options module).count span ≤
      module.charges.count (.indexed false span) + module.charges.count (.indexed true span) := by
  have unspent (account : Account) : account.total Registry.start = 0 := by
    cases account with
    | declarations node => exact Store.count_nodes_of_undefined Registry.node_standard node
    | reports span => rfl
  have ready : Ledger.tally.Ready module.charges Registry.start :=
    ⟨.start, fun node => by rw [unspent, Nat.zero_add]; exact distinct.count_declared node⟩
  obtain ⟨-, -, bound⟩ := Analysis.ofModuleWithin_costs Ledger.tally Engine.depthLimit module
    ⟨Registry.standard.registry, options⟩ Registry.start ready
  have reported := (Nat.le_add_right _ _).trans (bound (.reports span))
  rw [unspent, Nat.zero_add] at reported
  exact reported

/-- The number is added to what the list gives for the index, which is looked up twice. -/
theorem bad_indices_charged_twice :
    Module.misindexing.HasDistinctNodes ∧
      Module.misindexing.charges.count (.indexed false .unknown) = 1 ∧
      Module.misindexing.charges.count (.indexed true .unknown) = 1 ∧
      (badIndicesAfter {} Module.misindexing).count .unknown ≤ 1 + 1 := by
  have distinct : Module.misindexing.HasDistinctNodes := by decide
  have bound := bad_indices_charged {} Module.misindexing distinct .unknown
  exact ⟨distinct, by decide, by decide, bound⟩

/-- One index expression, of which a bad index is reported twice: the module has one index
expression, in an operand, and no node twice. -/
theorem bad_index_repeated :
    Module.misindexing.HasDistinctNodes ∧
      Module.misindexing.charges.count (.indexed false .unknown) = 1 ∧
      badIndicesAfter {} Module.misindexing = [.unknown, .unknown] := by
  refine ⟨by decide, by decide, ?_⟩
  decide +kernel

end Analyzer

end TypeInference
