import TypeInference.Proofs.Caching
import TypeInference.Proofs.Homes
import TypeInference.Proofs.Phrases
import TypeInference.Proofs.Redirections

/-!
# What the evaluation of an expression touches

Where no overload is pending, the evaluation of an expression declares nothing but the targets of
its comprehensions, in scopes of their own, and changes nothing in the store but caches. It reports
nothing but indices that cannot work. This is so whether it gives a value or fails.

The targets stay in the scopes of comprehensions because nothing is redirected there. So what is
said of the current scope, where clauses declare their targets, is said of the scopes that an
analysis may open.
-/

namespace TypeInference

open Analysis

/-- A scope that differs from an earlier one in its variables and its free names at most. -/
structure Scope.SameFrame (before after : Scope) : Prop where
  kind : after.kind = before.kind
  node : after.node = before.node
  parent : after.parent = before.parent
  globals : after.globals = before.globals
  nonlocals : after.nonlocals = before.nonlocals

namespace Scope.SameFrame

variable {before middle after : Scope}

theorem refl (scope : Scope) : scope.SameFrame scope :=
  ⟨rfl, rfl, rfl, rfl, rfl⟩

theorem trans (first : before.SameFrame middle) (second : middle.SameFrame after) :
    before.SameFrame after :=
  ⟨second.kind.trans first.kind, second.node.trans first.node, second.parent.trans first.parent,
    second.globals.trans first.globals, second.nonlocals.trans first.nonlocals⟩

/-- A name that is recorded as free. -/
theorem markFree (scope : Scope) (name : String) : scope.SameFrame (scope.markFree name) := by
  unfold Scope.markFree
  split <;> exact ⟨rfl, rfl, rfl, rfl, rfl⟩

/-- A name that is declared. -/
theorem insert (scope : Scope) (declared : Variable) : scope.SameFrame (scope.insert declared) :=
  ⟨rfl, rfl, rfl, rfl, rfl⟩

end Scope.SameFrame

/-- A scope of a comprehension that redirects nothing. -/
structure Scope.IsSample (scope : Scope) : Prop where
  kind : scope.kind = .comprehension
  globals : scope.globals = []
  nonlocals : scope.nonlocals = []

theorem Scope.IsSample.of_sameFrame {before after : Scope} (sample : before.IsSample)
    (same : before.SameFrame after) : after.IsSample :=
  ⟨same.kind.trans sample.kind, same.globals.trans sample.globals,
    same.nonlocals.trans sample.nonlocals⟩

namespace Scopes

/-- Scopes that keep something of each scope that was there, and have only scopes of one sort
besides. -/
structure Grows (keeps : Scope → Scope → Prop) (new : Scope → Prop) (before after : Scopes) :
    Prop where
  grown : before.all.size ≤ after.all.size
  kept : ∀ id, id.index < before.all.size → keeps (before.scopeAt id) (after.scopeAt id)
  fresh : ∀ id, before.all.size ≤ id.index → id.index < after.all.size → new (after.scopeAt id)

namespace Grows

variable {keeps : Scope → Scope → Prop} {new : Scope → Prop} {before middle after : Scopes}

theorem refl (same : ∀ scope, keeps scope scope) (scopes : Scopes) :
    scopes.Grows keeps new scopes :=
  ⟨Nat.le_refl _, fun _ _ => same _, fun _ old inside => absurd inside (Nat.not_lt.mpr old)⟩

theorem trans (transitive : ∀ {first second third}, keeps first second → keeps second third →
      keeps first third)
    (stays : ∀ {first second}, new first → keeps first second → new second)
    (one : before.Grows keeps new middle) (other : middle.Grows keeps new after) :
    before.Grows keeps new after where
  grown := Nat.le_trans one.grown other.grown
  kept id present :=
    transitive (one.kept id present) (other.kept id (Nat.lt_of_lt_of_le present one.grown))
  fresh id old inside := by
    by_cases there : id.index < middle.all.size
    · exact stays (one.fresh id old there) (other.kept id there)
    · exact other.fresh id (Nat.not_lt.mp there) inside

/-- Where no scope may be created there are as many as before. -/
theorem size_eq (grows : before.Grows keeps new after) (none : ∀ scope, ¬new scope) :
    after.all.size = before.all.size :=
  Nat.le_antisymm (Nat.not_lt.mp fun more =>
    none _ (grows.fresh ⟨before.all.size⟩ (Nat.le_refl _) more)) grows.grown

/-- One scope is changed. -/
theorem modifyScope (same : ∀ scope, keeps scope scope) (scopes : Scopes) (id : ScopeId)
    {change : Scope → Scope} (changes : keeps (scopes.scopeAt id) (change (scopes.scopeAt id))) :
    scopes.Grows keeps new (scopes.modifyScope id change) where
  grown := Nat.le_of_eq (size_modifyScope ..).symm
  kept other _ := by
    rw [scopeAt_modifyScope]
    split
    · next both => exact both.1 ▸ changes
    · exact same _
  fresh other old inside := absurd (size_modifyScope scopes id change ▸ inside) (Nat.not_lt.mpr old)

/-- A look-up records a name as free at most. -/
theorem lookup (same : ∀ scope, keeps scope scope) (scopes : Scopes) (name : String) (reach : Reach)
    (marks : ∀ scope : Scope, keeps scope (scope.markFree name)) :
    scopes.Grows keeps new (scopes.lookup name reach).2 := by
  rcases scopes.snd_lookup_cases name reach with unchanged | ⟨id, marked⟩
  · rw [unchanged]
    exact .refl same scopes
  · rw [marked]
    exact .modifyScope same scopes id (marks _)

/-- A scope is opened, or created before. -/
theorem push (same : ∀ scope, keeps scope scope) (scopes : Scopes) (node : NodeId)
    (kind : ScopeKind) (parent : Option ScopeId)
    (created : new { kind, node, parent := parent.or scopes.current? }) :
    scopes.Grows keeps new (scopes.push node kind parent).2 where
  grown := scopes.size_push_le node kind parent
  kept id present := by
    rw [scopes.scopeAt_push node kind parent present]
    exact same _
  fresh id old inside := by
    cases known : scopes.scopeOf? node with
    | some found =>
      rw [push_of_known known] at inside
      exact absurd inside (Nat.not_lt.mpr old)
    | none =>
      rw [push_of_new known, size_create] at inside
      rw [push_of_new known, scopeAt_create, if_pos (by omega)]
      exact created

end Grows

/-- Scopes in which only those of some nodes got other variables, and only those were created. No
scope lost a variable. -/
def Touches (mayOpen : NodeId → Prop) (before after : Scopes) : Prop :=
  before.Grows
    (fun scope later => scope.SameFrame later ∧
      (¬mayOpen scope.node → later.entries = scope.entries) ∧ scope.names ⊆ later.names)
    (fun created => created.IsSample ∧ mayOpen created.node) after

/-- The scopes of some nodes are those of comprehensions, and redirect nothing. -/
def Hosts (mayOpen : NodeId → Prop) (scopes : Scopes) : Prop :=
  ∀ id, id.index < scopes.all.size → mayOpen (scopes.scopeAt id).node → (scopes.scopeAt id).IsSample

/-- The innermost open scope is that of one of some nodes. -/
def IsIn (mayOpen : NodeId → Prop) (scopes : Scopes) : Prop :=
  ∃ id, scopes.current? = some id ∧ id.index < scopes.all.size ∧ mayOpen (scopes.scopeAt id).node

section Touching

variable {mayOpen : NodeId → Prop} {before middle after : Scopes}

theorem Touches.refl (scopes : Scopes) : scopes.Touches mayOpen scopes :=
  Grows.refl (fun _ => ⟨.refl _, fun _ => rfl, List.Subset.refl _⟩) scopes

theorem Touches.trans (one : before.Touches mayOpen middle) (other : middle.Touches mayOpen after) :
    before.Touches mayOpen after :=
  Grows.trans
    (fun {_ _ _} first second => ⟨first.1.trans second.1, fun apart =>
      (second.2.1 (first.1.node.symm ▸ apart)).trans (first.2.1 apart),
        List.Subset.trans first.2.2 second.2.2⟩)
    (fun {_ _} created kept =>
      ⟨created.1.of_sameFrame kept.1, kept.1.node.symm ▸ created.2⟩) one other

theorem Touches.lookup (scopes : Scopes) (name : String) (reach : Reach) :
    scopes.Touches mayOpen (scopes.lookup name reach).2 := by
  refine Grows.lookup (fun _ => ⟨.refl _, fun _ => rfl, List.Subset.refl _⟩) scopes name reach
    fun scope => ?_
  have entries : (scope.markFree name).entries = scope.entries := by
    unfold Scope.markFree
    split <;> rfl
  have names : (scope.markFree name).names = scope.names :=
    congrArg (List.map Variable.name) entries
  exact ⟨.markFree scope name, fun _ => entries, names ▸ List.Subset.refl _⟩

/-- The scopes of comprehensions stay what they are, and those that are created are such. -/
theorem Hosts.touches (hosts : before.Hosts mayOpen) (touches : before.Touches mayOpen after) :
    after.Hosts mayOpen := by
  intro id inside opened
  by_cases present : id.index < before.all.size
  · have same := (touches.kept id present).1
    exact (hosts id present (same.node ▸ opened)).of_sameFrame same
  · exact (touches.fresh id (Nat.not_lt.mp present) inside).1

theorem IsIn.touches (isIn : before.IsIn mayOpen) (touches : before.Touches mayOpen after)
    (stack : after.stack = before.stack) : after.IsIn mayOpen := by
  obtain ⟨id, current, present, opened⟩ := isIn
  refine ⟨id, ?_, Nat.lt_of_lt_of_le present touches.grown, ?_⟩
  · rw [← current, current?, current?, stack]
  · rw [(touches.kept id present).1.node]
    exact opened

/-- A declaration in the scope of a comprehension stays there. -/
theorem Touches.declare (hosts : before.Hosts mayOpen) (isIn : before.IsIn mayOpen) {name : String}
    {value : Value} {kind : VariableKind} {node : Option NodeId} {span : Span}
    (declared : before.declare name value kind node span = .ok after) :
    before.Touches mayOpen after := by
  obtain ⟨id, current, present, opened⟩ := isIn
  have sample := hosts id present opened
  have here : before.redirect id name kind = (id, kind) := by
    simp [redirect, sample.globals, sample.nonlocals]
  rw [declare_of_current current, here] at declared
  cases declared
  refine Grows.modifyScope (fun _ => ⟨.refl _, fun _ => rfl, List.Subset.refl _⟩) before id
    ⟨.insert _ _, fun apart => absurd opened apart, ?_⟩
  rw [Scope.names_insert]
  split
  · exact List.Subset.refl _
  · exact List.subset_append_left _ _

/-- Closing scopes changes none. -/
theorem Touches.truncate (touches : before.Touches mayOpen after) (depth : Nat) :
    before.Touches mayOpen (after.truncate depth) :=
  ⟨touches.grown, touches.kept, touches.fresh⟩

/-- The scope of a comprehension is opened. -/
theorem Touches.push (scopes : Scopes) {node : NodeId} (opened : mayOpen node)
    (parent : Option ScopeId) :
    scopes.Touches mayOpen (scopes.push node .comprehension parent).2 :=
  Grows.push (fun _ => ⟨.refl _, fun _ => rfl, List.Subset.refl _⟩) scopes node .comprehension
    parent
    ⟨⟨rfl, rfl, rfl⟩, opened⟩

end Touching

end Scopes

/-- Progress after an analysis that declared variables in the scopes of some comprehensions at most,
filled caches and reported indices. -/
structure Progress.Touches (mayOpen : NodeId → Prop) (environment : Environment)
    (before after : Progress) : Prop where
  stores : before.store.Caches none after.store
  scopes : before.scopes.Touches mayOpen after.scopes
  wellFormed : before.scopes.WellFormed → after.scopes.WellFormed
  stack : after.scopes.stack = before.scopes.stack
  symbols : after.symbols = before.symbols
  log : ∃ reports, after.log.entries.toList = before.log.entries.toList ++ reports ∧
    ∀ entry ∈ reports, ∃ found span,
      entry = (environment.options.document, (Lint.badIndexType found).at span)

namespace Progress.Touches

variable {mayOpen : NodeId → Prop} {environment : Environment} {before middle after : Progress}

theorem refl (progress : Progress) : progress.Touches mayOpen environment progress :=
  ⟨.refl _, .refl _, id, rfl, rfl, [], (List.append_nil _).symm, nofun⟩

theorem trans (one : before.Touches mayOpen environment middle)
    (other : middle.Touches mayOpen environment after) :
    before.Touches mayOpen environment after where
  stores := one.stores.trans other.stores
  scopes := one.scopes.trans other.scopes
  wellFormed := other.wellFormed ∘ one.wellFormed
  stack := other.stack.trans one.stack
  symbols := other.symbols.trans one.symbols
  log := by
    obtain ⟨first, reported, fromFirst⟩ := one.log
    obtain ⟨second, further, fromSecond⟩ := other.log
    exact ⟨first ++ second, by rw [further, reported, List.append_assoc],
      List.forall_mem_append.mpr ⟨fromFirst, fromSecond⟩⟩

/-- Nothing but scopes is different. -/
theorem changeScopes (progress : Progress) {scopes : Scopes}
    (touches : progress.scopes.Touches mayOpen scopes)
    (wellFormed : progress.scopes.WellFormed → scopes.WellFormed)
    (stack : scopes.stack = progress.scopes.stack) :
    progress.Touches mayOpen environment { progress with scopes } :=
  ⟨.refl _, touches, wellFormed, stack, rfl, [], (List.append_nil _).symm, nofun⟩

end Progress.Touches

/-- An analysis that touches the scopes of some comprehensions only, where no overload is pending.
It may be sampling: then it starts in one of these scopes. -/
def Analysis.Touches {α : Type} (mayOpen : NodeId → Prop) (sampling : Prop)
    (analysis : Analysis α) : Prop :=
  ∀ (environment : Environment) (before : Progress), before.store.NoOverloadIs .pending →
    before.scopes.Hosts mayOpen → (sampling → before.scopes.IsIn mayOpen) →
      before.Touches mayOpen environment (analysis.after environment before)

namespace Analysis.Touches

variable {α β : Type} {mayOpen : NodeId → Prop} {sampling : Prop}

theorem pure (result : α) : (Pure.pure result : Analysis α).Touches mayOpen sampling :=
  fun _ before _ _ _ => .refl before

theorem bind {first : Analysis α} {next : α → Analysis β} (touches : first.Touches mayOpen sampling)
    (onwards : ∀ result, (next result).Touches mayOpen sampling) :
    (first >>= next).Touches mayOpen sampling := by
  intro environment before settled hosts isIn
  have earlier := touches environment before settled hosts isIn
  rcases after_bind_cases first next environment before with ⟨_, stops⟩ | ⟨result, _, goesOn⟩
  · exact stops ▸ earlier
  · rw [goesOn]
    exact earlier.trans (onwards result environment _ (earlier.stores.settled settled)
      (hosts.touches earlier.scopes) fun samples =>
        (isIn samples).touches earlier.scopes earlier.stack)

theorem reads {next : Store → Analysis α}
    (touches : ∀ store, (next store).Touches mayOpen sampling) :
    (Analysis.store >>= next).Touches mayOpen sampling :=
  fun environment before => touches before.store environment before

theorem options {next : Options → Analysis α}
    (touches : ∀ options, (next options).Touches mayOpen sampling) :
    (Analysis.options >>= next).Touches mayOpen sampling :=
  fun environment before => touches environment.options environment before

/-- What fills caches touches nothing else. -/
theorem of_caches {analysis : Analysis α} (caches : analysis.Caches none) :
    analysis.Touches mayOpen sampling := by
  intro environment before settled _ _
  obtain ⟨stores, scopes, symbols, log⟩ := caches environment before settled
  exact ⟨stores, scopes ▸ .refl _, fun wellFormed => scopes ▸ wellFormed, congrArg _ scopes,
    symbols,
    [], by rw [log, List.append_nil], nofun⟩

theorem lookupName? (name : String) (reach : Reach) :
    (Analysis.lookupName? name reach).Touches mayOpen sampling := by
  intro environment before _ _ _
  rw [after_of_ok (lookupName?_apply name reach environment before)]
  exact .changeScopes before (.lookup _ name reach)
    (fun wellFormed => wellFormed.edited (Scopes.edited_lookup ..)) (Scopes.stack_lookup ..)

/-- An index that cannot work is reported. -/
theorem report (found : String) (span : Span) :
    (Analysis.report (.badIndexType found) span).Touches mayOpen sampling := by
  intro environment before _ _ _
  refine ⟨.refl _, .refl _, id, rfl, rfl, [_], Array.toList_push, ?_⟩
  simp only [List.mem_singleton, forall_eq]
  exact ⟨found, span, rfl⟩

/-- Names are declared in the scope of a comprehension. -/
theorem declare (name : String) (value : Value) (kind : VariableKind) (node : Option NodeId)
    (span : Span) : (Analysis.declare name value kind node span).Touches mayOpen True := by
  intro environment before _ hosts isIn
  unfold Analysis.declare
  cases declared : before.scopes.declare name value kind node span with
  | error fault =>
    rw [after, changeScopes_of_error environment declared]
    exact .refl before
  | ok scopes =>
    rw [after_of_ok (changeScopes_of_ok environment declared)]
    have edited := Scopes.edited_declare declared
    exact .changeScopes before (.declare hosts (isIn trivial) declared)
      (fun wellFormed => wellFormed.edited edited) edited.sameShape.stack

/-- The scope of a comprehension is open while an analysis runs in it. -/
theorem inScope {node : NodeId} {body : ScopeId → Analysis α} (opened : mayOpen node)
    (touches : ∀ id, (body id).Touches mayOpen True) :
    (Analysis.inScope node .comprehension none body).Touches mayOpen sampling := by
  intro environment before settled hosts _
  have pushed := Scopes.Touches.push before.scopes opened none
  have stack := before.scopes.stack_push node .comprehension none
  obtain ⟨present, isNode⟩ := before.scopes.node_opened node .comprehension none
  have inside := touches (before.scopes.push node .comprehension none).1 environment
    { before with scopes := (before.scopes.push node .comprehension none).2 } settled
    (hosts.touches pushed) fun _ =>
      ⟨_, by rw [Scopes.current?, stack]; rfl, present, isNode.symm ▸ opened⟩
  rw [after_inScope]
  exact ⟨inside.stores, (pushed.trans inside.scopes).truncate _,
    fun wellFormed => (inside.wellFormed (wellFormed.push _ _ trivial)).truncate _,
    Scopes.truncate_of_suffix _ [_] before.scopes.stack (inside.stack.trans stack),
    inside.symbols, inside.log⟩

end Analysis.Touches

section Targets

variable {mayOpen : NodeId → Prop}

theorem Analysis.bindName_touches (target : Expression) (value : Value) (span : Span) :
    (Analysis.bindName target value span).Touches mayOpen True := by
  unfold bindName
  split
  · exact .declare _ _ _ _ _
  · exact .pure ()

theorem Analysis.unpack_touches (span : Span) (targets : List Expression)
    (elements : Option Elements) :
    (Analysis.unpack span targets elements).Touches mayOpen True := by
  induction targets, elements using Analysis.unpack.induct with
  | case1 elements =>
    rw [unpack]
    exact .pure ()
  | case2 items _ rest elements element others found inner after =>
    simp only [unpack, found]
    exact .bind inner fun _ => after
  | case3 items _ rest elements element others found inner after =>
    simp only [unpack, found]
    exact .bind inner fun _ => after
  | case4 target rest elements notList notTuple element others found after =>
    rw [unpack]
    · simp only [found]
      exact .bind (bindName_touches _ _ _) fun _ => after
    · exact notList
    · exact notTuple

theorem Analysis.bindNames_touches (span : Span) (targets : List Expression) :
    ∀ values, (Analysis.bindNames span targets values).Touches mayOpen True := by
  induction targets with
  | nil => exact fun _ => .pure ()
  | cons target rest inductionHypothesis =>
    exact fun _ => .bind (bindName_touches _ _ _) fun _ => inductionHypothesis _

theorem Analysis.bindIterationTarget_touches (target : Expression) (iterable : Value)
    (span : Span) : (Analysis.bindIterationTarget target iterable span).Touches mayOpen True := by
  unfold bindIterationTarget
  dsimp only
  split
  · split
    · exact bindNames_touches _ _ _
    · exact unpack_touches _ _ _
  · exact bindName_touches _ _ _

end Targets

namespace Engine

variable {engine : Engine} {mayOpen : NodeId → Prop} {sampling : Prop}

/-- An item is looked up, or an index is reported. -/
theorem itemAt_touches (caching : engine.Caching) (container position : Value)
    (positionSpan span : Span) :
    (engine.itemAt container position positionSpan span).Touches mayOpen sampling := by
  refine .reads fun store => ?_
  dsimp only
  split
  · split
    · exact .pure _
    · exact .bind (.report _ _) fun _ => .pure _
  · split
    · exact .pure _
    · exact .of_caches (itemByMethod_holds caching (within_every container) (within_every position)
        span)

theorem readTypeHint_touches (hint : Expression) {evaluated : Analysis Value}
    (touches : evaluated.Touches mayOpen sampling) :
    (readTypeHint hint evaluated).Touches mayOpen sampling := by
  unfold readTypeHint
  split
  · refine .bind (.lookupName? _ _) fun found => ?_
    split <;> exact .pure _
  · exact .pure _
  · exact .pure _
  · refine .bind touches fun value => ?_
    split <;> exact .pure _

mutual

theorem evaluate_touches (caching : engine.Caching) {sampling : Prop} (reach : Reach) :
    ∀ {expression : Expression}, Opens mayOpen (Outline.ofExpression expression) →
      (engine.evaluate reach expression).Touches mayOpen sampling
  | .constant _ _, _ => by
    rw [evaluate]
    exact .pure _
  | .name _, _ => by
    rw [evaluate]
    exact .bind (.lookupName? _ _) fun _ => .pure _
  | .attribute target name _, opens => by
    simp only [Outline.ofExpression, opens_cons] at opens
    rw [evaluate]
    exact .bind (evaluate_touches caching reach opens.2) fun value =>
      .of_caches (attributeOf_holds caching _ (within_every value))
  | .index target index span, opens => by
    simp only [Outline.ofExpression, opens_cons, opens_append] at opens
    have position : (engine.evaluate reach index).Touches mayOpen sampling :=
      evaluate_touches caching reach opens.2.2
    have hinted : (engine.evaluate .everything index).Touches mayOpen sampling :=
      evaluate_touches caching .everything opens.2.2
    -- Items of an index are taken apart here: the recursion has to see that they are smaller.
    have listed : (engine.indexValues reach index).Touches mayOpen sampling ∧
        (engine.indexTypes index).Touches mayOpen sampling := by
      have single : (do
            let value ← engine.evaluate reach index
            return [value]).Touches mayOpen sampling ∧
          (do
            let ty ← readTypeHint index (engine.evaluate .everything index)
            return [ty]).Touches mayOpen sampling :=
        ⟨.bind position fun _ => .pure _,
          .bind (readTypeHint_touches index hinted) fun _ => .pure _⟩
      match index with
      | .display .tuple items _ =>
        simp only [Outline.ofExpression, opens_cons] at opens
        exact ⟨evaluateItems_touches caching reach items.length opens.2.2.2,
          evaluateTypeHints_touches caching opens.2.2.2⟩
      | .display .list _ _ | .display .set _ _ | .constant _ _ | .name _ | .attribute _ _ _
      | .index _ _ _ | .slice _ _ _ _ | .call _ _ _ | .dict _ _ | .comprehension _ | .yield _ _
      | .unary _ _ _ | .binary _ _ _ _ => exact single
    rw [evaluate_index]
    refine .bind (evaluate_touches caching reach opens.2.1) fun container => ?_
    split
    · exact .pure _
    refine .reads fun store => ?_
    split
    · exact .bind listed.1 fun _ => .pure _
    · exact .bind listed.2 fun _ => .bind (.of_caches (caching.specialize trivial (within_every _)))
        fun _ => .pure _
    · split
      · exact .pure _
      · exact .bind position fun _ => itemAt_touches caching _ _ _ _
  | .slice _ _ _ _, _ => by
    rw [evaluate]
    exact .pure _
  | .call callee arguments span, opens => by
    simp only [Outline.ofExpression, opens_cons, opens_append] at opens
    have function : (engine.evaluate reach callee).Touches mayOpen sampling :=
      evaluate_touches caching reach opens.2.1
    -- The same for the object of a method that is called.
    have called : (engine.calledValue reach callee).Touches mayOpen sampling := by
      have plain : (do
          let function ← engine.evaluate reach callee
          return (function, none) : Analysis (Value × Option Value)).Touches mayOpen sampling :=
        .bind function fun _ => .pure _
      match callee with
      | .attribute object name _ =>
        simp only [Outline.ofExpression, opens_cons] at opens
        exact .bind (evaluate_touches caching reach opens.2.1.2) fun value =>
          .bind (.of_caches (attributeOf_holds caching _ (within_every value))) fun _ => .pure _
      | .display _ _ _ | .constant _ _ | .name _ | .index _ _ _ | .slice _ _ _ _ | .call _ _ _
      | .dict _ _ | .comprehension _ | .yield _ _ | .unary _ _ _ | .binary _ _ _ _ => exact plain
    rw [evaluate_call]
    exact .bind called fun _ => .bind (evaluateArguments_touches caching reach opens.2.2) fun _ =>
      .of_caches (callValue_holds caching (within_every _) (within_every _) (within_every _) span
        (within_every _))
  | .display kind items _, opens => by
    simp only [Outline.ofExpression, opens_cons] at opens
    rw [evaluate]
    exact .options fun _ => .bind (evaluateItems_touches caching reach _ opens.2) fun _ => .pure _
  | .dict entries _, opens => by
    simp only [Outline.ofExpression, opens_cons] at opens
    rw [evaluate]
    exact .options fun _ => .bind (evaluateEntries_touches caching reach _ opens.2) fun _ => .pure _
  | .comprehension comprehension, opens => by
    rw [evaluate]
    exact evaluateComprehension_touches caching reach opens
  | .yield _ _, _ => by
    rw [evaluate]
    exact .pure _
  | .unary operator operand span, opens => by
    simp only [Outline.ofExpression, opens_cons] at opens
    rw [evaluate]
    exact .bind (evaluate_touches caching reach opens.2) fun value =>
      .of_caches (applyUnary_holds caching operator (within_every value) span)
  | .binary left operator right span, opens => by
    simp only [Outline.ofExpression, opens_cons, opens_append] at opens
    rw [evaluate]
    exact .bind (evaluate_touches caching reach opens.2.1) fun leftValue =>
      .bind (evaluate_touches caching reach opens.2.2) fun rightValue =>
        .of_caches (applyBinary_holds caching operator (within_every leftValue)
          (within_every rightValue) span)

theorem evaluateComprehension_touches (caching : engine.Caching) {sampling : Prop} (reach : Reach) :
    ∀ {comprehension : Comprehension}, Opens mayOpen (Outline.ofComprehension comprehension) →
      (engine.evaluateComprehension reach comprehension).Touches mayOpen sampling
  | ⟨id, kind, element, value, clauses, _⟩, opens => by
    simp only [Outline.ofComprehension, opens_cons, opens_append] at opens
    obtain ⟨node, ⟨inElement, inValue⟩, inClauses⟩ := opens
    rw [evaluateComprehension]
    refine .bind (evaluateFirstIterable_touches caching reach inClauses) fun iterable => ?_
    split
    · exact .pure _
    refine .inScope (node id rfl) fun _ =>
      .bind (evaluateClauses_touches caching reach _ inClauses) fun _ =>
        .bind (evaluate_touches caching reach inElement) fun _ => ?_
    split
    · exact .bind (evaluateOptional_touches caching reach inValue) fun _ => .pure _
    · exact .bind (.pure _) fun _ => .pure _

theorem evaluateFirstIterable_touches (caching : engine.Caching) {sampling : Prop} (reach : Reach) :
    ∀ {clauses : List Clause}, Opens mayOpen (Outline.ofClauses clauses) →
      (engine.evaluateFirstIterable reach clauses).Touches mayOpen sampling
  | [], _ => by
    rw [evaluateFirstIterable]
    exact .pure _
  | .iteration _ iterable _ :: _, opens => by
    simp only [Outline.ofClauses, opens_append] at opens
    rw [evaluateFirstIterable]
    exact evaluate_touches caching reach opens.1.2
  | .condition _ _ :: rest, opens => by
    simp only [Outline.ofClauses, opens_append] at opens
    rw [evaluateFirstIterable]
    exact evaluateFirstIterable_touches caching reach opens.2

theorem evaluateClauses_touches (caching : engine.Caching) (reach : Reach) (known : Option Value) :
    ∀ {clauses : List Clause}, Opens mayOpen (Outline.ofClauses clauses) →
      (engine.evaluateClauses reach known clauses).Touches mayOpen True
  | [], _ => by
    simp only [evaluateClauses]
    exact .pure _
  | .iteration target iterable span :: rest, opens => by
    simp only [Outline.ofClauses, opens_append] at opens
    have evaluated : (engine.evaluate reach iterable).Touches mayOpen True :=
      evaluate_touches caching reach opens.1.2
    have iterated : (engine.iterates reach known iterable).Touches mayOpen True := by
      cases known with
      | some value => exact .pure _
      | none => exact evaluated
    rw [evaluateClauses_iteration]
    exact .bind iterated fun value =>
      .bind (Analysis.bindIterationTarget_touches target value span) fun _ =>
        evaluateClauses_touches caching reach none opens.2
  | .condition test _ :: rest, opens => by
    simp only [Outline.ofClauses, opens_append] at opens
    rw [evaluateClauses]
    exact .bind (evaluate_touches caching reach opens.1) fun _ =>
      evaluateClauses_touches caching reach known opens.2

theorem evaluateOptional_touches (caching : engine.Caching) {sampling : Prop} (reach : Reach) :
    ∀ {expression : Option Expression}, Opens mayOpen (Outline.ofOptional expression) →
      (engine.evaluateOptional reach expression).Touches mayOpen sampling
  | none, _ => by
    rw [evaluateOptional]
    exact .pure _
  | some expression, opens => by
    rw [evaluateOptional]
    exact evaluate_touches caching reach opens

theorem evaluateItems_touches (caching : engine.Caching) {sampling : Prop} (reach : Reach)
    (limit : Nat) : ∀ {items : List Expression}, Opens mayOpen (Outline.ofExpressions items) →
      (engine.evaluateItems reach limit items).Touches mayOpen sampling
  | [], _ => by
    rw [evaluateItems]
    exact .pure _
  | item :: rest, opens => by
    simp only [Outline.ofExpressions, opens_append] at opens
    cases limit with
    | zero =>
      simp only [evaluateItems]
      exact .pure _
    | succ limit =>
      rw [evaluateItems]
      exact .bind (evaluate_touches caching reach opens.1) fun _ =>
        .bind (evaluateItems_touches caching reach limit opens.2) fun _ => .pure _

theorem evaluateTypeHints_touches (caching : engine.Caching) {sampling : Prop} :
    ∀ {hints : List Expression}, Opens mayOpen (Outline.ofExpressions hints) →
      (engine.evaluateTypeHints hints).Touches mayOpen sampling
  | [], _ => by
    rw [evaluateTypeHints]
    exact .pure _
  | hint :: rest, opens => by
    simp only [Outline.ofExpressions, opens_append] at opens
    rw [evaluateTypeHints]
    exact .bind (readTypeHint_touches hint (evaluate_touches caching .everything opens.1)) fun _ =>
      .bind (evaluateTypeHints_touches caching opens.2) fun _ => .pure _

theorem evaluateEntries_touches (caching : engine.Caching) {sampling : Prop} (reach : Reach)
    (limit : Nat) :
    ∀ {entries : List (Expression × Expression)}, Opens mayOpen (Outline.ofEntries entries) →
      (engine.evaluateEntries reach limit entries).Touches mayOpen sampling
  | [], _ => by
    rw [evaluateEntries]
    exact .pure _
  | (key, value) :: rest, opens => by
    simp only [Outline.ofEntries, opens_append] at opens
    cases limit with
    | zero =>
      simp only [evaluateEntries]
      exact .pure _
    | succ limit =>
      rw [evaluateEntries]
      exact .bind (evaluate_touches caching reach opens.1.1) fun _ =>
        .bind (evaluate_touches caching reach opens.1.2) fun _ =>
          .bind (evaluateEntries_touches caching reach limit opens.2) fun _ => .pure _

theorem evaluateArguments_touches (caching : engine.Caching) {sampling : Prop} (reach : Reach) :
    ∀ {arguments : List CallArgument}, Opens mayOpen (Outline.ofArguments arguments) →
      (engine.evaluateArguments reach arguments).Touches mayOpen sampling
  | [], _ => by
    rw [evaluateArguments]
    exact .pure _
  | ⟨passing, argument⟩ :: rest, opens => by
    simp only [Outline.ofArguments, opens_append] at opens
    rw [evaluateArguments]
    exact .bind (evaluate_touches caching reach opens.1) fun _ =>
      .bind (evaluateArguments_touches caching reach opens.2) fun _ => .pure _

end

/-- Where no overload is pending, and the nodes of the comprehensions in an expression are those of
comprehensions that redirect nothing, if they have scopes, the evaluation of the expression changes
variables in the scopes of these comprehensions only, creates scopes for them only, and leaves all
scopes open that were. Of the classes that were there it changes nothing but their finished
specializations, of functions and declared symbols nothing at all, and it reports nothing but
indices that cannot work. All this is so whether it gives a value or fails, and at every depth. -/
theorem evaluate_touches_comprehensions_only (depth : Nat) (environment : Environment)
    (before : Progress) (reach : Reach) (expression : Expression)
    (settled : before.store.NoOverloadIs .pending)
    (unredirected : ∀ id, id.index < before.scopes.all.size →
      (before.scopes.scopeAt id).kind = .comprehension →
        (before.scopes.scopeAt id).globals = [] ∧ (before.scopes.scopeAt id).nonlocals = [])
    (apart : ∀ id, id.index < before.scopes.all.size →
      (before.scopes.scopeAt id).node ∈ Outline.nodes (Outline.ofExpression expression) →
        (before.scopes.scopeAt id).kind = .comprehension) :
    let inside := Outline.nodes (Outline.ofExpression expression)
    let after := ((Engine.atDepth depth).evaluate reach expression).after environment before
    (∀ id, id.index < before.scopes.all.size → id.index < after.scopes.all.size ∧
      (before.scopes.scopeAt id).SameFrame (after.scopes.scopeAt id) ∧
      ((before.scopes.scopeAt id).node ∉ inside →
        (after.scopes.scopeAt id).entries = (before.scopes.scopeAt id).entries)) ∧
    (∀ id, before.scopes.all.size ≤ id.index → id.index < after.scopes.all.size →
      (after.scopes.scopeAt id).kind = .comprehension ∧ (after.scopes.scopeAt id).node ∈ inside) ∧
    after.scopes.stack = before.scopes.stack ∧
    (∀ id, before.store.HasClass id → after.store.HasClass id ∧
      after.store.classAt id = { before.store.classAt id with
        specializations := (after.store.classAt id).specializations }) ∧
    after.store.functions = before.store.functions ∧ after.symbols = before.symbols ∧
    ∃ reports, after.log.entries.toList = before.log.entries.toList ++ reports ∧
      ∀ entry ∈ reports, ∃ found span,
        entry = (environment.options.document, (Lint.badIndexType found).at span) := by
  intro inside after
  have opens : Opens (· ∈ inside) (Outline.ofExpression expression) :=
    Outline.opens_of_nodes fun _ listed => listed
  have hosts : before.scopes.Hosts (· ∈ inside) := fun id present listed =>
    have kind := apart id present listed
    ⟨kind, (unredirected id present kind).1, (unredirected id present kind).2⟩
  have touches : ((Engine.atDepth depth).evaluate reach expression).Touches (· ∈ inside) False :=
    evaluate_touches (atDepth_caching depth) reach opens
  obtain ⟨stores, scopes, -, stack, symbols, log⟩ :=
    touches environment before settled hosts False.elim
  refine ⟨fun id present => ⟨Nat.lt_of_lt_of_le present scopes.grown,
      (scopes.kept id present).1, (scopes.kept id present).2.1⟩,
    fun id old created => ?_, stack, fun id present => ?_, stores.functions, symbols, log⟩
  · obtain ⟨sample, listed⟩ := scopes.fresh id old created
    exact ⟨sample.kind, listed⟩
  · exact ⟨Nat.lt_of_lt_of_le present stores.grown, (stores.all present).kept⟩

/-- A comprehension over an item that no text can select: its target is declared in a scope of its
own, and the index is reported. -/
theorem evaluate_touches_comprehensions_only_index :
    let numbers : Expression := .display .list [.constant (.int 1) .unknown] .unknown
    let selected : Expression := .index numbers (.constant (.str "a") .unknown) .unknown
    let expression : Expression := .comprehension ⟨⟨1⟩, .list, .ofName "item", none,
      [.iteration (.ofName "item") selected .unknown], .unknown⟩
    let before : Progress :=
      { Registry.start with scopes := (Scopes.push {} NodeId.module .module none).2 }
    let after := ((Engine.atDepth 1).evaluate .everything expression).after Registry.environment
      before
    before.store.NoOverloadIs .pending ∧
      (after.scopes.scopeAt ⟨0⟩).entries = (before.scopes.scopeAt ⟨0⟩).entries ∧
      (after.scopes.scopeAt ⟨1⟩).names = ["item"] ∧ after.symbols = before.symbols ∧
      after.log.size = 1 ∧ ∃ reports, after.log.entries.toList = reports ∧
        ∀ entry ∈ reports, ∃ found span, entry = (.unnamed, (Lint.badIndexType found).at span) := by
  intro numbers selected expression before after
  have settled : before.store.NoOverloadIs .pending := by decide +kernel
  have one : before.scopes.all.size = 1 := by decide +kernel
  have only {id : ScopeId} (present : id.index < before.scopes.all.size) : id = ⟨0⟩ :=
    Scopes.eq_of_index (Nat.lt_one_iff.mp (one ▸ present))
  have isModule : (before.scopes.scopeAt ⟨0⟩).kind = .module := by decide +kernel
  obtain ⟨kept, -, -, -, -, symbols, reported⟩ := evaluate_touches_comprehensions_only 1
    Registry.environment before .everything expression settled
    (fun id present sampled => by
      cases only present
      cases isModule.symm.trans sampled)
    (fun id present listed => by
      cases only present
      exact absurd listed (by decide +kernel))
  exact ⟨settled, (kept ⟨0⟩ (by decide +kernel)).2.2 (by decide +kernel), by decide +kernel,
    symbols,
    by decide +kernel, reported⟩

end Engine

end TypeInference
