import TypeInference.Proofs.Accounting

/-!
# Histories of overloads

What happens to the overloads of a store is that one that is pending begins to be evaluated, that
one that is being evaluated gets a returned value, and that its evaluation is finished. Everything
else leaves the overloads alone that are there, and adds pending ones at most. In a history of
such acts an overload that is new and was evaluated in the end has begun once, has been finished
once, and has got its returned values in between.

An analysis leaves the store of such a history behind. Where it succeeds, every declared function
was evaluated: those that nothing else has needed are evaluated at the end, together with those
that are declared meanwhile.
-/

namespace TypeInference

open Analysis

/-- Something that happens to an overload. -/
inductive Act where
  /-- It begins to be evaluated. -/
  | begun (id : OverloadId)
  /-- A returned value is recorded with it. -/
  | returned (id : OverloadId)
  /-- It is evaluated. -/
  | finished (id : OverloadId)
deriving DecidableEq

/-- The overload that something happens to. -/
def Act.overload : Act → OverloadId
  | begun id | returned id | finished id => id

namespace Store

/-- The functions that were there are as they were, and new ones are pending. -/
structure Untouched (before after : Store) : Prop where
  kept : ∀ id, before.HasFunction id → after.HasFunction id ∧
    (after.functionAt id).standing = (before.functionAt id).standing
  fresh : ∀ id, ¬before.HasFunction id → ∀ overload ∈ (after.functionAt id).overloads,
    overload.standing = (.pending, [])

/-- What happened to the overloads of a store since a start, in order. -/
inductive History (start : Store) : List Act → Store → Prop where
  | start : History start [] start
  | aside {acts : List Act} {store next : Store} : History start acts store →
      store.Untouched next → History start acts next
  | begun {acts : List Act} {store : Store} {id : OverloadId} : History start acts store →
      store.HasOverload id → (store.overloadAt id).state = .pending →
        History start (acts ++ [.begun id])
          (store.modifyOverload id fun overload => { overload with state := .evaluating })
  | returned {acts : List Act} {store : Store} {id : OverloadId} (value : Value) :
      History start acts store → store.HasOverload id →
        (store.overloadAt id).state = .evaluating → History start (acts ++ [.returned id])
          (store.modifyOverload id fun overload =>
            { overload with inferredReturns := overload.inferredReturns ++ [value] })
  | finished {acts : List Act} {store : Store} {id : OverloadId} : History start acts store →
      store.HasOverload id → (store.overloadAt id).state = .evaluating →
        History start (acts ++ [.finished id])
          (store.modifyOverload id fun overload => { overload with state := .evaluated })

theorem Untouched.refl (store : Store) : store.Untouched store where
  kept _ present := ⟨present, rfl⟩
  fresh id outside overload listed := by
    rw [functionAt_of_not_hasFunction _ _ outside] at listed
    cases listed

/-- A history goes on from where another one ends. -/
theorem History.trans {start middle store : Store} {acts more : List Act}
    (earlier : start.History acts middle) (later : middle.History more store) :
    start.History (acts ++ more) store := by
  induction later with
  | start => rwa [List.append_nil]
  | aside _ untouched inductionHypothesis => exact .aside inductionHypothesis untouched
  | begun _ there pending inductionHypothesis =>
    rw [← List.append_assoc]
    exact .begun inductionHypothesis there pending
  | returned value _ there evaluating inductionHypothesis =>
    rw [← List.append_assoc]
    exact .returned value inductionHypothesis there evaluating
  | finished _ there evaluating inductionHypothesis =>
    rw [← List.append_assoc]
    exact .finished inductionHypothesis there evaluating

end Store

/-- What has to have happened to a new overload, from how far it is evaluated and what it has
returned. -/
def Act.behind (id : OverloadId) : OverloadState × List Value → List Act
  | (.pending, _) => []
  | (.evaluating, values) => begun id :: values.map fun _ => returned id
  | (.evaluated, values) => begun id :: (values.map (fun _ => returned id) ++ [finished id])

namespace Store

/-- An overload of a function that is new is pending. -/
theorem Untouched.standing_of_new {before after : Store} (untouched : before.Untouched after)
    {id : OverloadId} (new : ¬before.HasFunction id.function) :
    (after.overloadAt id).standing = (.pending, []) := by
  cases found : (after.functionAt id.function).overloads[id.index]? with
  | none => rw [overloadAt, found]; rfl
  | some overload =>
    rw [overloadAt, found]
    exact untouched.fresh _ new overload (List.mem_of_getElem? found)

/-- Overloads that were there are as they were, and there is nothing about the others yet. -/
theorem Untouched.overload {before after : Store} (untouched : before.Untouched after)
    (id : OverloadId) : (after.overloadAt id).standing = (before.overloadAt id).standing := by
  by_cases present : before.HasFunction id.function
  · exact overload_of_standing (untouched.kept _ present).2
  · have outside : ¬before.HasOverload id := fun there => present there.hasFunction
    rw [untouched.standing_of_new present, overloadAt_of_not_hasOverload _ _ outside]
    rfl

namespace History

variable {start store : Store} {acts : List Act}

/-- An act leaves other overloads alone. -/
private theorem filter_append_of_ne (act : Act) {id : OverloadId} (other : act.overload ≠ id) :
    (acts ++ [act]).filter (·.overload = id) = acts.filter (·.overload = id) := by
  simp [other]

/-- How far a new overload is evaluated says what has happened to it. -/
theorem filter_overload (history : start.History acts store) {id : OverloadId}
    (new : ¬start.HasFunction id.function) :
    acts.filter (·.overload = id) = Act.behind id (store.overloadAt id).standing ∧
      ((store.overloadAt id).state = .pending → (store.overloadAt id).inferredReturns = []) := by
  induction history with
  | start =>
    have outside : ¬start.HasOverload id := fun there => new there.hasFunction
    rw [overloadAt_of_not_hasOverload start id outside]
    exact ⟨rfl, fun _ => rfl⟩
  | aside _ untouched inductionHypothesis =>
    have same := untouched.overload id
    obtain ⟨states, values⟩ := Prod.ext_iff.mp same
    rw [same]
    refine ⟨inductionHypothesis.1, fun pending => ?_⟩
    exact values.trans (inductionHypothesis.2 (states.symm.trans pending))
  | @begun acts store changed _ there pending inductionHypothesis =>
    rw [overloadAt_modifyOverload]
    split
    · next here =>
      obtain ⟨rfl, -⟩ := here
      obtain ⟨before, nothing⟩ := inductionHypothesis
      refine ⟨?_, fun impossible => nomatch impossible⟩
      rw [List.filter_append, before, Overload.standing, Overload.standing, pending,
        nothing pending]
      simp [Act.behind, Act.overload]
    · next missed =>
      have other : changed ≠ id := fun same => missed ⟨same.symm, same ▸ there⟩
      rw [filter_append_of_ne (.begun changed) other]
      exact inductionHypothesis
  | @returned acts store changed value _ there evaluating inductionHypothesis =>
    rw [overloadAt_modifyOverload]
    split
    · next here =>
      obtain ⟨rfl, -⟩ := here
      refine ⟨?_, fun pending => ?_⟩
      · rw [List.filter_append, inductionHypothesis.1, Overload.standing, Overload.standing,
          evaluating]
        simp [Act.behind, Act.overload]
      · exact absurd (evaluating.symm.trans pending) (by decide)
    · next missed =>
      have other : changed ≠ id := fun same => missed ⟨same.symm, same ▸ there⟩
      rw [filter_append_of_ne (.returned changed) other]
      exact inductionHypothesis
  | @finished acts store changed _ there evaluating inductionHypothesis =>
    rw [overloadAt_modifyOverload]
    split
    · next here =>
      obtain ⟨rfl, -⟩ := here
      refine ⟨?_, fun impossible => nomatch impossible⟩
      rw [List.filter_append, inductionHypothesis.1, Overload.standing, Overload.standing,
        evaluating]
      simp [Act.behind, Act.overload]
    · next missed =>
      have other : changed ≠ id := fun same => missed ⟨same.symm, same ▸ there⟩
      rw [filter_append_of_ne (.finished changed) other]
      exact inductionHypothesis

end History

end Store

/-- The evaluation of a function returns values to its own overload only. -/
theorem Charge.count_evaluation_of_ne {function : FunctionId} {id : OverloadId}
    (other : id ≠ ⟨function, 0⟩) (definition : FunctionDefinition) :
    (evaluation function definition).count (.returned id) = 0 := by
  have apart : Option.map Charge.returned (some (⟨function, 0⟩ : OverloadId)) ≠
      some (.returned id) := fun same => other (returned.inj (Option.some.inj same)).symm
  rw [evaluation, count_orReturn, if_neg fun same => other (returned.inj same),
    count_ofFunction apart, count_ofFunction_returned]

namespace Progress

/-- Overloads that wait have returned nothing, and those that were evaluated have returned no more
than a definition with their node returns. -/
structure Recorded (progress : Progress) : Prop extends progress.Tidy where
  pending : ∀ id, (progress.store.functionAt id.function).node ≠ none →
    (progress.store.overloadAt id).state = .pending →
      (progress.store.overloadAt id).inferredReturns = []
  evaluated : ∀ function node, (progress.store.functionAt function).node = some node →
    (progress.store.overloadAt ⟨function, 0⟩).state = .evaluated →
      ∃ entry ∈ progress.symbols.functions.toList, entry.definition.id = node ∧
        (progress.store.overloadAt ⟨function, 0⟩).inferredReturns.length ≤
          (Charge.evaluation function entry.definition).count (.returned ⟨function, 0⟩)

namespace Recorded

variable {before after : Progress}

theorem start : Registry.start.Recorded where
  toTidy := .start
  pending id defined := absurd (Registry.node_standard id.function) defined
  evaluated function node defined := by
    change (Registry.standard.store.functionAt function).node = some node at defined
    rw [Registry.node_standard] at defined
    cases defined

/-- What leaves all overloads alone keeps their records. -/
theorem of_untouched (recorded : before.Recorded) (tidy : after.Tidy)
    (entries : before.symbols.functions.toList <+: after.symbols.functions.toList)
    (untouched : before.store.Untouched after.store) : after.Recorded where
  toTidy := tidy
  pending id defined pending := by
    by_cases present : before.store.HasFunction id.function
    · have node := congrArg Prod.fst (untouched.kept id.function present).2
      obtain ⟨states, values⟩ := Prod.ext_iff.mp (untouched.overload id)
      exact values.trans (recorded.pending id (fun none => defined (node.trans none))
        (states.symm.trans pending))
    · exact congrArg Prod.snd (untouched.standing_of_new present)
  evaluated function node defined evaluated := by
    by_cases present : before.store.HasFunction function
    · have sameNode := congrArg Prod.fst (untouched.kept function present).2
      obtain ⟨states, values⟩ := Prod.ext_iff.mp (untouched.overload ⟨function, 0⟩)
      obtain ⟨entry, listed, declares, bounded⟩ := recorded.evaluated function node
        (sameNode.symm.trans defined) (states.symm.trans evaluated)
      exact ⟨entry, entries.subset listed, declares, (congrArg List.length values).trans_le bounded⟩
    · have waits := congrArg Prod.fst
        (@Store.Untouched.standing_of_new _ _ untouched ⟨function, 0⟩ present)
      exact absurd (waits.symm.trans evaluated) (by decide)

/-- An overload may be changed if it does not wait again, and if it has not returned too much when
it is evaluated. -/
theorem modifyOverload (recorded : before.Recorded) (id : OverloadId)
    {change : Overload → Overload}
    (begun : (change (before.store.overloadAt id)).state ≠ .pending)
    (bounded : ∀ node, (before.store.functionAt id.function).node = some node →
      (change (before.store.overloadAt id)).state = .evaluated →
        ∃ entry ∈ before.symbols.functions.toList, entry.definition.id = node ∧
          (change (before.store.overloadAt id)).inferredReturns.length ≤
            (Charge.evaluation id.function entry.definition).count (.returned id)) :
    Progress.Recorded { before with store := before.store.modifyOverload id change } where
  toTidy := recorded.toTidy.modifyOverload _ _
  pending other defined pending := by
    dsimp only at defined pending ⊢
    rw [Store.node_modifyOverload] at defined
    rw [Store.overloadAt_modifyOverload] at pending ⊢
    split at pending
    · next here =>
      rw [here.1] at pending
      exact absurd pending begun
    · next missed =>
      rw [if_neg missed]
      exact recorded.pending other defined pending
  evaluated function node defined evaluated := by
    dsimp only at defined evaluated ⊢
    rw [Store.node_modifyOverload] at defined
    rw [Store.overloadAt_modifyOverload] at evaluated ⊢
    split at evaluated
    · next here =>
      rw [if_pos here]
      obtain ⟨rfl, -⟩ := here
      exact bounded node defined evaluated
    · next missed =>
      rw [if_neg missed]
      exact recorded.evaluated function node defined evaluated

end Recorded

/-- What is recorded allows to return values to the overloads of a bill. -/
structure Awaits (bill : List Charge) (progress : Progress) : Prop where
  recorded : progress.Recorded
  evaluating : ∀ id, .returned id ∈ bill → progress.store.HasOverload id ∧
    (progress.store.overloadAt id).state = .evaluating

/-- There is a history of what happened in between, in which no more values were returned to the
overloads that are being evaluated than a bill pays for. -/
structure Recounts (bill : List Charge) (before after : Progress) : Prop where
  recorded : after.Recorded
  nodes : before.store.KeepsNodes after.store
  history : ∃ acts, before.store.History acts after.store
  entries : before.symbols.functions.toList <+: after.symbols.functions.toList
  evaluating : ∀ id, before.store.HasOverload id →
    (before.store.overloadAt id).state = .evaluating → after.store.HasOverload id ∧
      (after.store.overloadAt id).state = .evaluating ∧
      (after.store.overloadAt id).inferredReturns.length ≤
        (before.store.overloadAt id).inferredReturns.length + bill.count (.returned id)

namespace Recounts

variable {before middle after : Progress} {bill first second : List Charge}

theorem of_untouched (recorded : before.Recorded) (tidy : after.Tidy)
    (entries : before.symbols.functions.toList <+: after.symbols.functions.toList)
    (untouched : before.store.Untouched after.store) : before.Recounts bill after where
  recorded := recorded.of_untouched tidy entries untouched
  nodes id present := (untouched.kept id present).imp_right (congrArg Prod.fst)
  history := ⟨[], .aside .start untouched⟩
  entries := entries
  evaluating id there evaluating := by
    obtain ⟨states, values⟩ := Prod.ext_iff.mp (untouched.overload id)
    refine ⟨?_, states.trans evaluating, (congrArg List.length values).trans_le
      (Nat.le_add_right _ _)⟩
    exact (Store.hasOverload_of_standing (untouched.kept _ there.hasFunction).2).mpr there

theorem trans (earlier : before.Recounts first middle) (later : middle.Recounts second after) :
    before.Recounts (first ++ second) after where
  recorded := later.recorded
  nodes := earlier.nodes.trans later.nodes
  history := by
    obtain ⟨acts, history⟩ := earlier.history
    obtain ⟨more, onward⟩ := later.history
    exact ⟨acts ++ more, history.trans onward⟩
  entries := earlier.entries.trans later.entries
  evaluating id there evaluating := by
    obtain ⟨still, same, few⟩ := earlier.evaluating id there evaluating
    obtain ⟨stays, again, more⟩ := later.evaluating id still same
    refine ⟨stays, again, ?_⟩
    rw [List.count_append]
    omega

/-- A value is returned to an overload that is being evaluated. -/
theorem addReturn (recorded : before.Recorded) {id : OverloadId} (value : Value)
    (there : before.store.HasOverload id)
    (evaluating : (before.store.overloadAt id).state = .evaluating) :
    before.Recounts [.returned id] (before.addReturn id value) where
  recorded := recorded.modifyOverload id (by rw [evaluating]; decide) fun _ _ evaluated =>
    absurd (evaluating.symm.trans evaluated) (by decide)
  nodes := Store.keepsNodes_modifyOverload _ _ _
  history := ⟨[.returned id], .returned value .start there evaluating⟩
  entries := List.prefix_rfl
  evaluating other stays same := by
    unfold Progress.addReturn
    dsimp only
    rw [Store.hasOverload_modifyOverload, Store.overloadAt_modifyOverload]
    refine ⟨stays, ?_⟩
    split
    · next here =>
      rw [here.1]
      exact ⟨evaluating, by simp⟩
    · exact ⟨same, Nat.le_add_right _ _⟩

section Evaluation

variable {function : FunctionId} {entry : FunctionEntry}
  (recorded : before.Recorded) (begins : before.Begins function entry)

include recorded begins

/-- The only overload of a function that waits. -/
theorem overload_of_begins : before.store.HasOverload ⟨function, 0⟩ ∧
    (before.store.overloadAt ⟨function, 0⟩).state = .pending ∧
      (before.store.overloadAt ⟨function, 0⟩).inferredReturns = [] := by
  have once := congrArg List.length begins.pending
  have pending := Store.overloadAt_of_states _ _ _ begins.pending
  refine ⟨?_, pending, recorded.pending _ ?_ pending⟩
  · rw [List.length_map] at once
    exact Nat.lt_of_lt_of_eq Nat.zero_lt_one once.symm
  · rw [begins.node]
    exact Option.some_ne_none _

/-- It is being evaluated once it is begun. -/
theorem begun_of_begins :
    let begun := before.setState function .evaluating
    begun.store.HasOverload ⟨function, 0⟩ ∧
      (begun.store.overloadAt ⟨function, 0⟩).state = .evaluating ∧
      (begun.store.overloadAt ⟨function, 0⟩).inferredReturns = [] := by
  obtain ⟨there, -, nothing⟩ := overload_of_begins recorded begins
  unfold Progress.setState Store.setState
  dsimp only
  rw [Store.hasOverload_modifyOverload, Store.overloadAt_modifyOverload, if_pos ⟨rfl, there⟩]
  exact ⟨there, rfl, nothing⟩

theorem awaits_begun : (before.setState function .evaluating).Awaits
    (Charge.evaluation function entry.definition) where
  recorded := recorded.modifyOverload ⟨function, 0⟩ (fun impossible => nomatch impossible)
    fun _ _ impossible => nomatch impossible
  evaluating id charged := by
    have own : id = ⟨function, 0⟩ := by
      refine Decidable.byContradiction fun other => ?_
      have counted := List.count_pos_iff.mpr charged
      rw [Charge.count_evaluation_of_ne other] at counted
      exact Nat.lt_irrefl 0 counted
    subst own
    obtain ⟨there, begun, -⟩ := begun_of_begins recorded begins
    exact ⟨there, begun⟩

/-- What happens while an overload is evaluated is paid for by what its definition returns. -/
theorem of_evaluation (evaluation : (before.setState function .evaluating).Recounts
    (Charge.evaluation function entry.definition) after) : before.Recounts [] after := by
  obtain ⟨there, pending, -⟩ := overload_of_begins recorded begins
  obtain ⟨acts, history⟩ := evaluation.history
  refine
    { recorded := evaluation.recorded
      nodes := (Store.keepsNodes_modifyOverload _ _ _).trans evaluation.nodes
      history := ⟨[.begun ⟨function, 0⟩] ++ acts, (Store.History.begun .start there pending).trans
        history⟩
      entries := evaluation.entries
      evaluating := fun id stays evaluating => ?_ }
  have other : id ≠ ⟨function, 0⟩ := by
    rintro rfl
    exact absurd (pending.symm.trans evaluating) (by decide)
  have same : (before.setState function .evaluating).store.overloadAt id =
      before.store.overloadAt id := by
    unfold Progress.setState Store.setState
    dsimp only
    rw [Store.overloadAt_modifyOverload, if_neg fun here => other here.1]
  have onward := evaluation.evaluating id
    ((Store.hasOverload_modifyOverload before.store ⟨function, 0⟩ id _).mpr stays)
    (same ▸ evaluating)
  rwa [same, Charge.count_evaluation_of_ne other] at onward

/-- Then the overload is evaluated. -/
theorem of_finished (evaluation : (before.setState function .evaluating).Recounts
    (Charge.evaluation function entry.definition) after) :
    before.Recounts [] (after.setState function .evaluated) := by
  have base := of_evaluation recorded begins evaluation
  obtain ⟨there, pending, nothing⟩ := overload_of_begins recorded begins
  obtain ⟨thereBegun, begun, values⟩ := begun_of_begins recorded begins
  obtain ⟨still, evaluating, few⟩ := evaluation.evaluating _ thereBegun begun
  rw [values, List.length_nil, Nat.zero_add] at few
  obtain ⟨acts, history⟩ := base.history
  refine
    { recorded := evaluation.recorded.modifyOverload ⟨function, 0⟩
        (fun impossible => nomatch impossible) fun node defined _ => ?_
      nodes := base.nodes.trans (Store.keepsNodes_modifyOverload _ _ _)
      history := ⟨acts ++ [.finished ⟨function, 0⟩], .finished history still evaluating⟩
      entries := base.entries
      evaluating := fun id stays same => ?_ }
  · have listed := (Symbols.mem_of_function? begins.declared).1
    have kept := (base.nodes function there.hasFunction).2
    have declares : entry.definition.id = node :=
      Option.some.inj (begins.node.symm.trans (kept.symm.trans defined))
    exact ⟨entry, base.entries.subset listed, declares, few⟩
  · have other : id ≠ ⟨function, 0⟩ := by
      rintro rfl
      exact absurd (pending.symm.trans same) (by decide)
    have onward := base.evaluating id stays same
    unfold Progress.setState Store.setState
    dsimp only
    rwa [Store.hasOverload_modifyOverload, Store.overloadAt_modifyOverload,
      if_neg fun here => other here.1]

end Evaluation

end Recounts

end Progress

/-- Functions of the same standing, and no others. -/
theorem Store.untouched_of_standings {before after : Store}
    (same : after.standings = before.standings) : before.Untouched after where
  kept id present :=
    ⟨(hasFunction_of_standings same id).mpr present, standing_of_standings same id⟩
  fresh id outside overload listed := by
    rw [functionAt_of_not_hasFunction after id
      fun present => outside ((hasFunction_of_standings same id).mp present)] at listed
    cases listed

/-- A definition declares a function with a pending overload. -/
theorem Store.untouched_addFunction (store : Store) {record : FunctionRecord}
    (fresh : ∀ overload ∈ record.overloads, overload.standing = (.pending, [])) :
    store.Untouched (store.addFunction record).2 where
  kept id present := by
    refine ⟨(hasFunction_addFunction store record id).mpr (.inl present), ?_⟩
    rw [functionAt_addFunction_of_present present]
  fresh id outside overload listed := by
    rw [functionAt_addFunction_eq] at listed
    split at listed
    · exact fresh overload listed
    · rw [functionAt_of_not_hasFunction store id outside] at listed
      cases listed

open Progress in
/-- The ledger in which it is written down what happens to overloads. -/
def Ledger.history : Ledger where
  Ready := Awaits
  Pays := Recounts
  ready_mono := by
    rintro fewer more progress le ⟨recorded, evaluating⟩
    refine ⟨recorded, fun id charged => evaluating id ?_⟩
    exact List.count_pos_iff.mp ((List.count_pos_iff.mpr charged).trans_le (le _))
  pays_mono := by
    rintro fewer more before after le ⟨recorded, nodes, history, entries, evaluating⟩
    refine ⟨recorded, nodes, history, entries, fun id there same => ?_⟩
    obtain ⟨stays, again, few⟩ := evaluating id there same
    exact ⟨stays, again, few.trans (Nat.add_le_add_left (le _) _)⟩
  tidy ready := ready.recorded.toTidy
  still agrees ready := .of_untouched ready.recorded (ready.recorded.toTidy.of_agrees agrees)
    (by rw [agrees.functions]) (Store.untouched_of_standings agrees.standings)
  onward := by
    rintro first second before middle ready pays
    refine ⟨pays.recorded, fun id charged => ?_⟩
    obtain ⟨there, evaluating⟩ := ready.evaluating id (List.mem_append_right first charged)
    obtain ⟨stays, same, -⟩ := pays.evaluating id there evaluating
    exact ⟨stays, same⟩
  trans := .trans
  keepsNodes pays := pays.nodes
  reported typeName document progress ready := .of_untouched ready.recorded
    ⟨ready.recorded.declared, ready.recorded.single⟩ List.prefix_rfl (.refl _)
  returned value progress ready :=
    have here := ready.evaluating _ List.mem_cons_self
    .addReturn ready.recorded value here.1 here.2
  completed := by
    rintro id bill before after value ready pays nothing
    have counted := Charge.count_orReturn id bill
    have listed : 0 < (Charge.orReturn id bill).count (.returned id) := by
      rw [counted, if_pos rfl]
      exact Nat.lt_of_lt_of_le Nat.zero_lt_one (le_max_left _ _)
    obtain ⟨there, evaluating⟩ := ready.evaluating id (List.count_pos_iff.mp listed)
    obtain ⟨stays, still, -⟩ := pays.evaluating id there evaluating
    have both := pays.trans (.addReturn pays.recorded value stays still)
    refine { both with evaluating := fun other thereOther evaluatingOther => ?_ }
    obtain ⟨staysOther, same, few⟩ := both.evaluating other thereOther evaluatingOther
    refine ⟨staysOther, same, ?_⟩
    by_cases here : other = id
    · subst here
      have one : ((after.addReturn other value).store.overloadAt other).inferredReturns.length =
          1 := by
        unfold Progress.addReturn
        dsimp only
        rw [Store.overloadAt_modifyOverload, if_pos ⟨rfl, stays⟩]
        simp [nothing]
      omega
    · have apart : Charge.returned other ≠ .returned id :=
        fun same => here (Charge.returned.inj same)
      rw [counted, if_neg apart]
      rwa [List.count_append, List.count_eq_zero.mpr (List.mem_singleton.not.mpr apart),
        Nat.add_zero] at few
  created definition owner qualifiedName progress ready _ := by
    have fresh := declaredRecord_fresh definition owner qualifiedName
    refine .of_untouched ready.recorded (ready.recorded.toTidy.addFunction fresh.2)
      List.prefix_rfl (Store.untouched_addFunction _ fun overload listed => ?_)
    rw [Engine.overloads_declaredRecord, List.mem_singleton] at listed
    rw [listed]
    rfl
  inserted entry progress ready _ defined := by
    refine .of_untouched ready.recorded (ready.recorded.toTidy.insert defined) ?_ (.refl _)
    rw [Symbols.insert, Array.toList_push]
    exact List.prefix_append _ _
  begun ready begins := Recounts.awaits_begun ready.recorded begins
  interrupted ready begins evaluation := .of_evaluation ready.recorded begins evaluation
  ended ready begins evaluation := .of_finished ready.recorded begins evaluation

end TypeInference
