import TypeInference.Proofs.Charges
import TypeInference.Proofs.Evaluations
import TypeInference.Proofs.Operations
import TypeInference.Proofs.Settling

/-!
# Ledgers

A ledger accounts for what happens a limited number of times: functions are declared, overloads
begin and end to be evaluated, values are returned to them, bad indices are reported. What else
an analysis changes does not count. A bill of charges pays for what happens between two states
of progress, and bills add up when analyses are composed.

Evaluating a function costs nothing by itself, since it is paid for when its definition is
declared. Which account is kept, and what has to be so before anything of a bill happens, is up
to the ledger.
-/

namespace TypeInference

open Analysis

/-- How far an overload is evaluated, with what it has returned. -/
def Overload.standing (overload : Overload) : OverloadState × List Value :=
  (overload.state, overload.inferredReturns)

/-- What a function is declared by, with the standing of its overloads. -/
def FunctionRecord.standing (record : FunctionRecord) :
    Option NodeId × List (OverloadState × List Value) :=
  (record.node, record.overloads.map Overload.standing)

/-- The spans at which bad indices were reported. -/
def DiagnosticLog.badIndices (log : DiagnosticLog) : List Span :=
  (log.withCode "bad-index-type").map (·.span)

theorem DiagnosticLog.badIndices_report (log : DiagnosticLog) (document : DocumentId)
    (typeName : String) (span : Span) :
    (log.report document ((Lint.badIndexType typeName).at span)).badIndices =
      log.badIndices ++ [span] := by
  have found : (((Lint.badIndexType typeName).at span).code == "bad-index-type") = true := rfl
  simp only [badIndices, withCode, toList_report, List.filter_append, List.map_append,
    List.filter_cons, List.filter_nil, found, if_true]
  rfl

namespace Store

/-- The standing of all functions in order of creation. -/
def standings (store : Store) : Array (Option NodeId × List (OverloadState × List Value)) :=
  store.functions.map FunctionRecord.standing

theorem standings_modifyFunction (store : Store) (id : FunctionId)
    {change : FunctionRecord → FunctionRecord}
    (same : ∀ record : FunctionRecord, (change record).standing = record.standing) :
    (store.modifyFunction id change).standings = store.standings := by
  refine Array.ext (by simp [standings, modifyFunction]) fun place _ _ => ?_
  simp only [standings, modifyFunction, Array.getElem_map, Array.getElem_modify]
  split
  · exact same _
  · rfl

theorem standings_modifyOverload (store : Store) (id : OverloadId)
    {change : Overload → Overload}
    (same : ∀ overload : Overload, (change overload).standing = overload.standing) :
    (store.modifyOverload id change).standings = store.standings := by
  refine standings_modifyFunction store id.function fun record => ?_
  refine Prod.ext rfl (List.ext_getElem? fun place => ?_)
  simp only [FunctionRecord.standing, FunctionRecord.modifyOverload, List.getElem?_map,
    List.getElem?_modify]
  cases record.overloads[place]? with
  | none => rfl
  | some overload =>
    by_cases here : id.index = place
    · simp [here, same overload]
    · simp [here]

@[simp] theorem standings_addMember (store : Store) (id : ClassId) (name : String)
    (value : Value) (overwrite : Bool) :
    (store.addMember id name value overwrite).2.standings = store.standings := by
  rw [addMember_eq]
  rfl

section Standings

variable {before after : Store} (same : after.standings = before.standings)

include same

theorem hasFunction_of_standings (id : FunctionId) :
    after.HasFunction id ↔ before.HasFunction id := by
  have sizes := congrArg Array.size same
  simp only [standings, Array.size_map] at sizes
  simp [HasFunction, sizes]

/-- Functions of the same standing are declared by the same nodes and have overloads of the same
standing. -/
theorem standing_of_standings (id : FunctionId) :
    (after.functionAt id).standing = (before.functionAt id).standing := by
  have read (store : Store) : (store.functionAt id).standing =
      store.standings[id.index]?.getD (default : FunctionRecord).standing := by
    simp only [functionAt, standings, Array.getElem?_map]
    cases store.functions[id.index]? <;> rfl
  rw [read, read, same]

theorem node_of_standings (id : FunctionId) :
    (after.functionAt id).node = (before.functionAt id).node :=
  congrArg Prod.fst (standing_of_standings same id)

end Standings

section Standing

variable {before after : Store} {id : OverloadId}
  (same : (after.functionAt id.function).standing = (before.functionAt id.function).standing)

include same

/-- In functions of the same standing there are the same overloads, -/
theorem hasOverload_of_standing : after.HasOverload id ↔ before.HasOverload id := by
  have lengths := congrArg (·.2.length) same
  simp only [FunctionRecord.standing, List.length_map] at lengths
  simp only [HasOverload, lengths]

/-- and they are of the same standing, too. -/
theorem overload_of_standing :
    (after.overloadAt id).standing = (before.overloadAt id).standing := by
  have read (store : Store) : (store.overloadAt id).standing =
      ((store.functionAt id.function).overloads.map Overload.standing)[id.index]?.getD
        (default : Overload).standing := by
    simp only [overloadAt, List.getElem?_map]
    cases (store.functionAt id.function).overloads[id.index]? <;> rfl
  have overloads := congrArg Prod.snd same
  simp only [FunctionRecord.standing] at overloads
  rw [read, read, overloads]

end Standing

theorem hasFunction_of_node {store : Store} {function : FunctionId} {node : NodeId}
    (defined : (store.functionAt function).node = some node) : store.HasFunction function := by
  refine Decidable.byContradiction fun outside => ?_
  rw [functionAt_of_not_hasFunction _ _ outside] at defined
  cases defined

/-- What is there is not created next. -/
theorem functionAt_addFunction_of_present {store : Store} {function : FunctionId}
    (present : store.HasFunction function) (record : FunctionRecord) :
    (store.addFunction record).2.functionAt function = store.functionAt function := by
  have old : function ≠ store.nextFunction := by
    rintro rfl
    exact Nat.lt_irrefl _ present
  rw [functionAt_addFunction_eq, if_neg old]

/-- The functions that were there are there, declared by the same nodes. -/
def KeepsNodes (before after : Store) : Prop :=
  ∀ id, before.HasFunction id →
    after.HasFunction id ∧ (after.functionAt id).node = (before.functionAt id).node

theorem KeepsNodes.refl (store : Store) : store.KeepsNodes store :=
  fun _ present => ⟨present, rfl⟩

theorem KeepsNodes.trans {before middle after : Store} (earlier : before.KeepsNodes middle)
    (later : middle.KeepsNodes after) : before.KeepsNodes after := by
  intro id present
  obtain ⟨still, same⟩ := earlier id present
  obtain ⟨there, again⟩ := later id still
  exact ⟨there, again.trans same⟩

theorem KeepsNodes.of_standings {before after : Store}
    (same : after.standings = before.standings) : before.KeepsNodes after :=
  fun id present => ⟨(hasFunction_of_standings same id).mpr present, node_of_standings same id⟩

theorem keepsNodes_addFunction (store : Store) (record : FunctionRecord) :
    store.KeepsNodes (store.addFunction record).2 := by
  intro id present
  refine ⟨(hasFunction_addFunction store record id).mpr (.inl present), ?_⟩
  rw [functionAt_addFunction_of_present present]

theorem node_modifyOverload (store : Store) (id : OverloadId) (change : Overload → Overload)
    (function : FunctionId) : ((store.modifyOverload id change).functionAt function).node =
      (store.functionAt function).node := by
  unfold modifyOverload
  rw [functionAt_modifyFunction_eq]
  split <;> rfl

theorem keepsNodes_modifyOverload (store : Store) (id : OverloadId)
    (change : Overload → Overload) : store.KeepsNodes (store.modifyOverload id change) :=
  fun function present =>
    ⟨by simpa [modifyOverload] using present, store.node_modifyOverload id change function⟩

end Store

namespace Progress

/-- Nothing that counts is different. -/
structure Agrees (before after : Progress) : Prop where
  standings : after.store.standings = before.store.standings
  functions : after.symbols.functions = before.symbols.functions
  reports : after.log.badIndices = before.log.badIndices

theorem Agrees.refl (progress : Progress) : progress.Agrees progress :=
  ⟨rfl, rfl, rfl⟩

theorem Agrees.trans {before middle after : Progress} (earlier : before.Agrees middle)
    (later : middle.Agrees after) : before.Agrees after :=
  ⟨later.standings.trans earlier.standings, later.functions.trans earlier.functions,
    later.reports.trans earlier.reports⟩

/-- Progress with one more returned value of an overload. -/
def addReturn (progress : Progress) (id : OverloadId) (value : Value) : Progress :=
  { progress with
    store := progress.store.modifyOverload id fun overload =>
      { overload with inferredReturns := overload.inferredReturns ++ [value] } }

/-- A function waits to be evaluated by an entry that declares it. -/
structure Begins (progress : Progress) (function : FunctionId) (entry : FunctionEntry) :
    Prop where
  node : (progress.store.functionAt function).node = some entry.definition.id
  pending : (progress.store.functionAt function).overloads.map (·.state) = [.pending]
  declared : progress.symbols.function? entry.definition.id = some entry

/-- Declared functions belong to their definitions, and what a definition declares has one
overload. -/
structure Tidy (progress : Progress) : Prop where
  declared : ∀ entry ∈ progress.symbols.functions.toList,
    (progress.store.functionAt entry.function).node = some entry.definition.id
  single : ∀ function node, (progress.store.functionAt function).node = some node →
    ∃ state, (progress.store.functionAt function).overloads.map (·.state) = [state]

namespace Tidy

variable {before after : Progress}

/-- Nodes are kept, and so is how many overloads there are. -/
theorem of_store (tidy : before.Tidy)
    (functions : after.symbols.functions = before.symbols.functions)
    (node : ∀ function, (after.store.functionAt function).node =
      (before.store.functionAt function).node)
    (length : ∀ function, (after.store.functionAt function).overloads.length =
      (before.store.functionAt function).overloads.length) : after.Tidy where
  declared entry listed := by
    rw [functions] at listed
    rw [node, tidy.declared entry listed]
  single function declaring defined := by
    rw [node] at defined
    obtain ⟨state, single⟩ := tidy.single function declaring defined
    have once := congrArg List.length single
    rw [List.length_map, ← length] at once
    obtain ⟨overload, only⟩ := List.length_eq_one_iff.mp once
    exact ⟨overload.state, by rw [only]; rfl⟩

/-- Before anything is evaluated, nothing is declared. -/
theorem start : Registry.start.Tidy where
  declared _ impossible := nomatch impossible
  single function node defined := by
    change (Registry.standard.store.functionAt function).node = some node at defined
    rw [Registry.node_standard] at defined
    cases defined

theorem of_agrees (tidy : before.Tidy) (agrees : before.Agrees after) : after.Tidy :=
  tidy.of_store agrees.functions (Store.node_of_standings agrees.standings) fun function => by
    have standing := Store.standing_of_standings agrees.standings function
    have lengths := congrArg (·.2.length) standing
    simpa only [FunctionRecord.standing, List.length_map] using lengths

theorem modifyOverload (tidy : before.Tidy) (id : OverloadId) (change : Overload → Overload) :
    Progress.Tidy { before with store := before.store.modifyOverload id change } := by
  refine tidy.of_store rfl (Store.node_modifyOverload before.store id change) fun function => ?_
  dsimp only
  rw [Store.overloads_modifyOverload]
  split
  · exact List.length_modify ..
  · rfl

theorem addFunction (tidy : before.Tidy) {record : FunctionRecord} {state : OverloadState}
    (single : record.overloads.map (·.state) = [state]) :
    Progress.Tidy { before with store := (before.store.addFunction record).2 } where
  declared entry listed := by
    have defined := tidy.declared entry listed
    dsimp only
    rw [Store.functionAt_addFunction_of_present (Store.hasFunction_of_node defined), defined]
  single function node defined := by
    dsimp only at defined ⊢
    rw [Store.functionAt_addFunction_eq] at defined ⊢
    split at defined
    · next new =>
      rw [if_pos new]
      exact ⟨state, single⟩
    · next old =>
      rw [if_neg old]
      exact tidy.single function node defined

theorem insert (tidy : before.Tidy) {entry : FunctionEntry}
    (defined : (before.store.functionAt entry.function).node = some entry.definition.id) :
    Progress.Tidy { before with symbols := before.symbols.insert entry } where
  declared other listed := by
    rw [Symbols.insert, Array.toList_push, List.mem_append, List.mem_singleton] at listed
    obtain old | rfl := listed
    · exact tidy.declared other old
    · exact defined
  single := tidy.single

end Tidy

end Progress

/-- The charges for the evaluation of the only overload of a function by its definition. -/
def Charge.evaluation (function : FunctionId) (definition : FunctionDefinition) : List Charge :=
  orReturn ⟨function, 0⟩ (ofFunction (some ⟨function, 0⟩) definition)

/-- An account of what happens a limited number of times. -/
structure Ledger where
  /-- What has to be so before anything of a bill happens. -/
  Ready : List Charge → Progress → Prop
  /-- A bill pays for what happened between two states. -/
  Pays : List Charge → Progress → Progress → Prop
  ready_mono : ∀ {fewer more : List Charge} {progress},
    (∀ charge, fewer.count charge ≤ more.count charge) → Ready more progress →
      Ready fewer progress
  pays_mono : ∀ {fewer more : List Charge} {before after},
    (∀ charge, fewer.count charge ≤ more.count charge) → Pays fewer before after →
      Pays more before after
  tidy : ∀ {bill progress}, Ready bill progress → progress.Tidy
  still : ∀ {before after : Progress}, before.Agrees after → Ready [] before → Pays [] before after
  onward : ∀ {first second before middle}, Ready (first ++ second) before →
    Pays first before middle → Ready second middle
  trans : ∀ {first second before middle after}, Pays first before middle →
    Pays second middle after → Pays (first ++ second) before after
  keepsNodes : ∀ {bill before after}, Pays bill before after →
    before.store.KeepsNodes after.store
  reported : ∀ {again span} typeName document progress,
    Ready [.indexed again span] progress → Pays [.indexed again span] progress
      { progress with
        log := progress.log.report document ((Lint.badIndexType typeName).at span) }
  returned : ∀ {id} value progress, Ready [.returned id] progress →
    Pays [.returned id] progress (progress.addReturn id value)
  /-- A value is recorded although nothing was returned. -/
  completed : ∀ {id bill before after} value, Ready (Charge.orReturn id bill) before →
    Pays bill before after → (after.store.overloadAt id).inferredReturns = [] →
      Pays (Charge.orReturn id bill) before (after.addReturn id value)
  created : ∀ definition owner qualifiedName progress,
    Ready [.declared definition.id] progress →
      progress.symbols.function? definition.id = none →
        Pays [.declared definition.id] progress
          { progress with
            store := (progress.store.addFunction
              (Engine.declaredRecord definition owner qualifiedName)).2 }
  inserted : ∀ entry progress, Ready (Charge.ofFunction none entry.definition) progress →
    progress.store.HasFunction entry.function →
      (progress.store.functionAt entry.function).node = some entry.definition.id →
        Pays (Charge.ofFunction none entry.definition) progress
          { progress with symbols := progress.symbols.insert entry }
  /-- A function that waits begins to be evaluated. -/
  begun : ∀ {function entry progress}, Ready [] progress → progress.Begins function entry →
    Ready (Charge.evaluation function entry.definition) (progress.setState function .evaluating)
  /-- Its evaluation is paid for already, if it does not come to an end, -/
  interrupted : ∀ {function entry progress after}, Ready [] progress →
    progress.Begins function entry →
      Pays (Charge.evaluation function entry.definition)
        (progress.setState function .evaluating) after → Pays [] progress after
  /-- and if it does. -/
  ended : ∀ {function entry progress after}, Ready [] progress →
    progress.Begins function entry →
      Pays (Charge.evaluation function entry.definition)
        (progress.setState function .evaluating) after →
          Pays [] progress (after.setState function .evaluated)

namespace Ledger

variable {ledger : Ledger} {bill first second : List Charge} {before middle after : Progress}

/-- Where nothing happens, any bill pays. -/
theorem idle (ready : ledger.Ready bill before) : ledger.Pays bill before before :=
  ledger.pays_mono (fun _ => Nat.zero_le _)
    (ledger.still (.refl before) (ledger.ready_mono (fun _ => Nat.zero_le _) ready))

/-- What does not count may happen before, -/
theorem ready_of_agrees (ready : ledger.Ready bill before) (agrees : before.Agrees middle) :
    ledger.Ready bill middle :=
  @Ledger.onward ledger [] bill before middle ready
    (ledger.still agrees (ledger.ready_mono (fun _ => Nat.zero_le _) ready))

/-- and afterwards. -/
theorem pays_of_agrees (ready : ledger.Ready bill before) (pays : ledger.Pays bill before middle)
    (agrees : middle.Agrees after) : ledger.Pays bill before after := by
  have left : ledger.Ready [] middle := ledger.onward (by rwa [List.append_nil]) pays
  have both := ledger.trans pays (ledger.still agrees left)
  rwa [List.append_nil] at both

/-- What does not count may have happened before. -/
theorem pays_after_agrees (ready : ledger.Ready bill before) (agrees : before.Agrees middle)
    (pays : ledger.Pays bill middle after) : ledger.Pays bill before after :=
  @Ledger.trans ledger [] bill before middle after
    (ledger.still agrees (ledger.ready_mono (fun _ => Nat.zero_le _) ready)) pays

/-- A part of a bill can be paid first, -/
theorem ready_left (ready : ledger.Ready (first ++ second) before) : ledger.Ready first before :=
  ledger.ready_mono (fun charge => (List.sublist_append_left first second).count_le charge) ready

/-- and what a part pays for, all of it does. -/
theorem pays_left (pays : ledger.Pays first before after) :
    ledger.Pays (first ++ second) before after :=
  ledger.pays_mono (fun charge => (List.sublist_append_left first second).count_le charge) pays

end Ledger

namespace Analysis

variable {α β : Type} {ledger : Ledger} {bill : List Charge}

/-- A bill pays for whatever an analysis does, however it ends. -/
def Costs (ledger : Ledger) (bill : List Charge) (analysis : Analysis α) : Prop :=
  ∀ environment before, ledger.Ready bill before →
    ledger.Pays bill before (analysis.after environment before)

/-- An analysis that changes nothing that counts. -/
def Unmoved (analysis : Analysis α) : Prop :=
  ∀ environment (before : Progress), before.Agrees (analysis.after environment before)

namespace Unmoved

theorem bind {first : Analysis α} {next : α → Analysis β} (unmoved : first.Unmoved)
    (onwards : ∀ result, (next result).Unmoved) : (first >>= next).Unmoved := by
  intro environment before
  have earlier := unmoved environment before
  rcases after_bind_cases first next environment before with ⟨_, stops⟩ | ⟨result, _, goesOn⟩
  · exact stops ▸ earlier
  · rw [goesOn]
    exact earlier.trans (onwards result environment _)

theorem modifyStore {change : Store → Store}
    (same : ∀ store : Store, (change store).standings = store.standings) :
    (Analysis.modifyStore change).Unmoved :=
  fun _ before => ⟨same before.store, rfl, rfl⟩

theorem changeScopes (change : Scopes → Except Fault Scopes) :
    (Analysis.changeScopes change).Unmoved := by
  intro environment before
  obtain ⟨scopes, left⟩ := after_changeScopes change environment before
  rw [left]
  exact ⟨rfl, rfl, rfl⟩

theorem lookupName? (name : String) (reach : Reach) :
    (Analysis.lookupName? name reach).Unmoved := by
  intro environment before
  obtain ⟨scopes, left⟩ := after_lookupName? name reach environment before
  rw [left]
  exact ⟨rfl, rfl, rfl⟩

/-- A report that is not about an index. -/
theorem report {lint : Lint} (span : Span) (other : lint.code ≠ "bad-index-type") :
    (Analysis.report lint span).Unmoved := by
  refine fun environment before => ⟨rfl, rfl, ?_⟩
  have missed : ((lint.at span).code == "bad-index-type") = false := by
    simpa [Lint.at] using other
  change (before.log.report _ _).badIndices = _
  simp [DiagnosticLog.badIndices, DiagnosticLog.withCode, missed]

end Unmoved

namespace Costs

theorem mono {fewer : List Charge} {analysis : Analysis α} (costs : analysis.Costs ledger fewer)
    (more : ∀ charge, fewer.count charge ≤ bill.count charge) : analysis.Costs ledger bill :=
  fun environment before ready =>
    ledger.pays_mono more (costs environment before (ledger.ready_mono more ready))

/-- What nothing pays for costs no more than any bill. -/
theorem free {analysis : Analysis α} (costs : analysis.Costs ledger []) :
    analysis.Costs ledger bill :=
  costs.mono fun _ => Nat.zero_le _

theorem of_unmoved {analysis : Analysis α} (unmoved : analysis.Unmoved) :
    analysis.Costs ledger bill :=
  .free fun environment before ready => ledger.still (unmoved environment before) ready

theorem bind {first second : List Charge} {analysis : Analysis α} {next : α → Analysis β}
    (costs : analysis.Costs ledger first) (onwards : ∀ result, (next result).Costs ledger second) :
    (analysis >>= next).Costs ledger (first ++ second) := by
  intro environment before ready
  have earlier := costs environment before (ledger.ready_left ready)
  rcases after_bind_cases analysis next environment before with ⟨_, stops⟩ | ⟨result, _, goesOn⟩
  · rw [stops]
    exact ledger.pays_left earlier
  · rw [goesOn]
    exact ledger.trans earlier (onwards result environment _ (ledger.onward ready earlier))

/-- After something that costs nothing. -/
theorem after_free {analysis : Analysis α} {next : α → Analysis β}
    (costs : analysis.Costs ledger []) (onwards : ∀ result, (next result).Costs ledger bill) :
    (analysis >>= next).Costs ledger bill :=
  bind costs onwards

/-- Before something that costs nothing. -/
theorem before_free {analysis : Analysis α} {next : α → Analysis β}
    (costs : analysis.Costs ledger bill) (onwards : ∀ result, (next result).Costs ledger []) :
    (analysis >>= next).Costs ledger bill := by
  have both := bind costs onwards
  rwa [List.append_nil] at both

theorem pure (result : α) : (Pure.pure result : Analysis α).Costs ledger bill :=
  of_unmoved fun _ _ => .refl _

theorem throw (failure : Failure) : (throw failure : Analysis α).Costs ledger bill :=
  of_unmoved fun _ _ => .refl _

/-- Going on from what the store is. -/
theorem store {next : Store → Analysis α} (onwards : ∀ store, (next store).Costs ledger bill) :
    (Analysis.store >>= next).Costs ledger bill :=
  after_free (of_unmoved fun _ _ => .refl _) onwards

theorem options {next : Options → Analysis α}
    (onwards : ∀ options, (next options).Costs ledger bill) :
    (Analysis.options >>= next).Costs ledger bill :=
  after_free (of_unmoved fun _ _ => .refl _) onwards

theorem get {next : Progress → Analysis α}
    (onwards : ∀ progress, (next progress).Costs ledger bill) :
    ((get : Analysis Progress) >>= next).Costs ledger bill :=
  after_free (of_unmoved fun _ _ => .refl _) onwards

theorem declare (name : String) (value : Value) (kind : VariableKind) (node : Option NodeId)
    (span : Span) : (Analysis.declare name value kind node span).Costs ledger bill :=
  of_unmoved (.changeScopes _)

theorem withCleanup {body : Analysis α} {change : Progress → Progress}
    (costs : body.Costs ledger bill)
    (agrees : ∀ progress : Progress, progress.Agrees (change progress)) :
    (Analysis.withCleanup body change).Costs ledger bill := by
  intro environment before ready
  rw [after_withCleanup]
  exact ledger.pays_of_agrees ready (costs environment before ready) (agrees _)

/-- What is done in a scope, with what it takes to open and to close the scope. -/
theorem inScope {node : NodeId} {kind : ScopeKind} {parent : Option ScopeId}
    {body : ScopeId → Analysis α} (costs : ∀ id, (body id).Costs ledger bill) :
    (Analysis.inScope node kind parent body).Costs ledger bill :=
  after_free (of_unmoved fun _ _ => .refl _) fun _ =>
    after_free (of_unmoved fun _ _ => ⟨rfl, rfl, rfl⟩) fun id =>
      .withCleanup (costs id) fun _ => ⟨rfl, rfl, rfl⟩

theorem reportBadIndex (typeName : String) (again : Bool) (span : Span) :
    (Analysis.report (.badIndexType typeName) span).Costs ledger [.indexed again span] :=
  fun environment before ready => ledger.reported typeName environment.options.document before ready

theorem addReturn (id : OverloadId) (value : Value) :
    (Analysis.addReturn id value).Costs ledger [.returned id] :=
  fun _ before ready => ledger.returned value before ready

/-- Where nothing is returned, a value is recorded in its place. -/
theorem completing {analysis : Analysis Unit} {id : OverloadId}
    (costs : analysis.Costs ledger bill) (value : Value) :
    (analysis >>= fun _ => do
      let overload := (← Analysis.store).overloadAt id
      if overload.declaredReturn.isNone && overload.inferredReturns.isEmpty then
        Analysis.addReturn id value).Costs ledger (Charge.orReturn id bill) := by
  intro environment before ready
  have more (charge : Charge) : bill.count charge ≤ (Charge.orReturn id bill).count charge := by
    rw [Charge.count_orReturn]
    split
    · exact le_max_right _ _
    · exact le_rfl
  have earlier := costs environment before (ledger.ready_mono more ready)
  rcases after_bind_cases analysis _ environment before with ⟨_, stops⟩ | ⟨_, _, goesOn⟩
  · rw [stops]
    exact ledger.pays_mono more earlier
  · rw [goesOn, after_congr (bind_of_ok (store_apply environment _) _)]
    dsimp only
    split
    · next nothing =>
      rw [Bool.and_eq_true, List.isEmpty_iff] at nothing
      exact ledger.completed value ready earlier nothing.2
    · exact ledger.pays_mono more earlier

end Costs

end Analysis

namespace Engine

variable {ledger : Ledger} {engine : Engine}

/-- A function is declared for good after its decorators were applied. -/
theorem finishDeclaration_pays {definition : FunctionDefinition} {function : FunctionId}
    {environment : Environment} {before : Progress}
    (ready : ledger.Ready (Charge.ofFunction none definition) before)
    (present : before.store.HasFunction function)
    (defined : (before.store.functionAt function).node = some definition.id) :
    ledger.Pays (Charge.ofFunction none definition) before
      ((finishDeclaration definition function).after environment before) := by
  cases current : before.scopes.current with
  | ok scope =>
    rw [after_of_ok (finishDeclaration_apply definition function environment current)]
    exact ledger.inserted ⟨definition, scope, function⟩ before ready present defined
  | error cause =>
    have failed : (finishDeclaration definition function).after environment before = before := by
      unfold after finishDeclaration
      simp only [bind_apply, scopes_apply, current]
      rfl
    rw [failed]
    exact ledger.idle ready

/-- A definition is paid for with everything that can happen in its body. -/
theorem declareFunction_costs {definition : FunctionDefinition} (owner : Option ClassId)
    (decorated : ∀ function, (engine.applyDecorators function definition.decorators).Costs ledger
      (Charge.decorators definition.decorators)) :
    (engine.declareFunction definition owner).Costs ledger
      (Charge.decorators definition.decorators ++
        .declared definition.id :: Charge.ofFunction none definition) := by
  intro environment before ready
  cases known : before.symbols.function? definition.id with
  | some entry =>
    rw [after_of_ok (declareFunction_of_known engine owner environment known)]
    exact ledger.idle ready
  | none =>
    obtain ⟨qualifiedName, named⟩ : ∃ qualifiedName,
        Analysis.qualifiedName definition.name.name environment before =
          .ok qualifiedName before := ⟨_, rfl⟩
    let created : Progress := { before with
      store := (before.store.addFunction (declaredRecord definition owner qualifiedName)).2 }
    have order (charge : Charge) :
        ([Charge.declared definition.id] ++ (Charge.decorators definition.decorators ++
          Charge.ofFunction none definition)).count charge =
        (Charge.decorators definition.decorators ++
          .declared definition.id :: Charge.ofFunction none definition).count charge := by
      simp only [List.count_append, List.count_cons, List.count_nil]
      omega
    have ready := ledger.ready_mono (fun charge => (order charge).le) ready
    have creates := ledger.created definition owner qualifiedName before (ledger.ready_left ready)
      known
    have left := ledger.onward ready creates
    refine ledger.pays_mono (fun charge => (order charge).le) (ledger.trans creates ?_)
    have fresh := declaredRecord_fresh definition owner qualifiedName
    have there : created.store.HasFunction before.store.nextFunction :=
      (Store.hasFunction_addFunction _ _ _).mpr (.inr rfl)
    have defined : (created.store.functionAt before.store.nextFunction).node =
        some definition.id := by
      rw [← fresh.1]
      exact congrArg (·.node) (Store.functionAt_addFunction _ _)
    have decorates := decorated before.store.nextFunction environment created
      (ledger.ready_left left)
    rw [after_congr (declareFunction_of_new engine owner named known)]
    rcases after_bind_cases (engine.applyDecorators before.store.nextFunction
        definition.decorators) (fun _ => finishDeclaration definition before.store.nextFunction)
        environment created with ⟨_, stops⟩ | ⟨_, _, goesOn⟩
    · rw [stops]
      exact ledger.pays_left decorates
    · rw [goesOn]
      obtain ⟨present, same⟩ := ledger.keepsNodes decorates _ there
      exact ledger.trans decorates
        (finishDeclaration_pays (ledger.onward left decorates) present (same.trans defined))

/-- What is left of a function that waits, after the attempt to evaluate it. -/
theorem after_evaluateOverload (engine : Engine) (function : FunctionId) (entry : FunctionEntry)
    (environment : Environment) (before : Progress) :
    ∃ opened left : Progress, (before.setState function .evaluating).Agrees opened ∧
      left = (engine.evaluateContents ⟨function, 0⟩ entry.definition).after environment opened ∧
        (left.Agrees ((engine.evaluateOverload ⟨function, 0⟩ entry).after environment before) ∨
          ∃ closed : Progress, left.Agrees closed ∧
            (engine.evaluateOverload ⟨function, 0⟩ entry).after environment before =
              closed.setState function .evaluated) := by
  let begun : Progress := before.setState function .evaluating
  let pushed := begun.scopes.push entry.definition.id .functionBody (some entry.scope)
  let opened : Progress := { begun with scopes := pushed.2 }
  refine ⟨opened, _, ⟨rfl, rfl, rfl⟩, rfl, ?_⟩
  have split : (engine.evaluateOverload ⟨function, 0⟩ entry).after environment before =
      let inside := (engine.evaluateInside ⟨function, 0⟩ entry.definition pushed.1).after
        environment opened
      { inside with scopes := inside.scopes.truncate begun.scopes.depth } :=
    after_withCleanup _ _ environment opened
  rw [split]
  unfold after
  cases found : engine.evaluateContents ⟨function, 0⟩ entry.definition environment opened with
  | ok _ middle =>
    rw [evaluateInside_of_ok pushed.1 found]
    exact .inr ⟨{ middle with scopes :=
      (if environment.options.discardsLocals then middle.scopes.clearVariables pushed.1
        else middle.scopes).truncate begun.scopes.depth }, ⟨rfl, rfl, rfl⟩, rfl⟩
  | error failure middle =>
    rw [evaluateInside_of_error pushed.1 found]
    exact .inl ⟨rfl, rfl, rfl⟩

/-- Evaluations of functions cost nothing if the charges of their definitions pay for what is
evaluated of them. -/
theorem evaluateDefinition_costs
    (contents : ∀ function definition,
      (engine.evaluateContents ⟨function, 0⟩ definition).Costs ledger
        (Charge.evaluation function definition))
    (function : FunctionId) : (engine.evaluateDefinition function).Costs ledger [] := by
  intro environment before ready
  cases defined : (before.store.functionAt function).node with
  | none =>
    rw [after_of_ok (evaluateDefinition_of_undefined defined)]
    exact ledger.idle ready
  | some node =>
    obtain ⟨state, single⟩ := (ledger.tidy ready).single function node defined
    by_cases pending : state = .pending
    · subst pending
      cases declared : before.symbols.function? node with
      | none =>
        rw [after_of_error (evaluateDefinition_of_undeclared defined single declared)]
        exact ledger.idle ready
      | some entry =>
        obtain ⟨-, rfl⟩ := Symbols.mem_of_function? declared
        have begins : before.Begins function entry := ⟨defined, single, declared⟩
        obtain ⟨opened, left, opens, rfl, ending⟩ :=
          engine.after_evaluateOverload function entry environment before
        have readied := ledger.begun ready begins
        have opening := ledger.ready_of_agrees readied opens
        have pays := ledger.pays_after_agrees readied opens
          (contents function entry.definition environment opened opening)
        rw [after_congr (evaluateDefinition_of_pending defined single declared)]
        obtain stopped | ⟨closed, closes, evaluated⟩ := ending
        · exact ledger.interrupted ready begins (ledger.pays_of_agrees readied pays stopped)
        · rw [evaluated]
          exact ledger.ended ready begins (ledger.pays_of_agrees readied pays closes)
    · rw [after_of_ok (evaluateDefinition_of_begun defined single pending)]
      exact ledger.idle ready

end Engine

end TypeInference
