import TypeInference.Proofs.Phrases
import TypeInference.Proofs.Termination
import TypeInference.Proofs.Walking

/-!
# What a check of an expression reports

A check looks up the names that stand in an expression, from left to right, and between two look-ups
it evaluates operands. Where no overload is pending, such an evaluation declares names in the scopes
of comprehensions only. If these are new ones, no look-up outside of them sees any of that. So a
name is reported exactly if it means nothing before the check, wherever it stands, and as often as
it stands there. -/

namespace TypeInference

open Analysis

namespace Expression

mutual

/-- The names in an expression that are looked up when it is checked, from left to right: all but
those in comprehensions, of which only the first iterable counts. -/
def checkedNames : Expression → List Identifier
  | .constant _ _ => []
  | .name identifier => [identifier]
  | .attribute target _ _ => checkedNames target
  | .index target position _ => checkedNames target ++ checkedNames position
  | .slice lower upper step _ =>
    optionalCheckedNames lower ++ (optionalCheckedNames upper ++ optionalCheckedNames step)
  | .call callee arguments _ => checkedNames callee ++ argumentCheckedNames arguments
  | .display _ items _ => itemCheckedNames items
  | .dict entries _ => entryCheckedNames entries
  | .comprehension ⟨_, _, _, _, clauses, _⟩ => firstCheckedNames clauses
  | .yield value _ => optionalCheckedNames value
  | .unary _ operand _ => checkedNames operand
  | .binary left _ right _ => checkedNames left ++ checkedNames right

/-- The names in the iterable of the first iteration among clauses. -/
def firstCheckedNames : List Clause → List Identifier
  | [] => []
  | .iteration _ iterable _ :: _ => checkedNames iterable
  | .condition _ _ :: rest => firstCheckedNames rest

/-- The names in an expression if it is there. -/
def optionalCheckedNames : Option Expression → List Identifier
  | none => []
  | some expression => checkedNames expression

/-- The names in several expressions. -/
def itemCheckedNames : List Expression → List Identifier
  | [] => []
  | item :: rest => checkedNames item ++ itemCheckedNames rest

/-- The names in keys and values. -/
def entryCheckedNames : List (Expression × Expression) → List Identifier
  | [] => []
  | (key, value) :: rest => checkedNames key ++ (checkedNames value ++ entryCheckedNames rest)

/-- The names in the arguments of a call. -/
def argumentCheckedNames : List CallArgument → List Identifier
  | [] => []
  | ⟨_, value⟩ :: rest => checkedNames value ++ argumentCheckedNames rest

end

end Expression

/-- What a name means, if anything: a variable that can be reached, or else a registered name. -/
def Progress.meaning? (environment : Environment) (progress : Progress) (name : String) :
    Option Value :=
  ((progress.scopes.lookup name .everything).1.map (·.2.value)).or (environment.registry.find? name)

/-- A look-up everywhere gives what a name means. -/
theorem Analysis.lookupName?_everything (environment : Environment) (before : Progress)
    (name : String) : lookupName? name .everything environment before =
      .ok (before.meaning? environment name)
        { before with scopes := (before.scopes.lookup name .everything).2 } := by
  rw [lookupName?_apply, Progress.meaning?]
  cases (before.scopes.lookup name .everything).1 <;> rfl

/-- The entries of a log that say that a name is undefined. -/
def undefinedEntries (entries : List (DocumentId × Diagnostic)) : List (DocumentId × Diagnostic) :=
  entries.filter fun entry => entry.2.code = "undefined-variable"

/-- The report of a name that means nothing. -/
def undefinedReport (environment : Environment) (identifier : Identifier) :
    DocumentId × Diagnostic :=
  (environment.options.document, (Lint.undefinedVariable identifier.name).at identifier.span)

/-- Progress in which names mean what they meant before, where the scopes of some nodes, which were
not there, are the only ones that are different. -/
structure Progress.Views (mayOpen : NodeId → Prop) (origin progress : Progress) : Prop where
  settled : progress.store.NoOverloadIs .pending
  wellFormed : progress.scopes.WellFormed
  hosts : progress.scopes.Hosts mayOpen
  changes : origin.scopes.Changes {place | mayOpen place.1} progress.scopes
  stack : progress.scopes.stack = origin.scopes.stack

/-- An analysis that reports names that mean nothing in some progress, in order, and no other names
as undefined. -/
def Analysis.Reports {α : Type} (mayOpen : NodeId → Prop) (origin : Progress)
    (names : List Identifier) (analysis : Analysis α) : Prop :=
  ∀ (environment : Environment) (before : Progress), origin.Views mayOpen before →
    ∀ result after, analysis environment before = .ok result after →
      origin.Views mayOpen after ∧
        ∃ reports, after.log.entries.toList = before.log.entries.toList ++ reports ∧
          undefinedEntries reports =
            (names.filter fun name => (origin.meaning? environment name.name).isNone).map
              (undefinedReport environment)

namespace Analysis.Reports

variable {α β : Type} {mayOpen : NodeId → Prop} {origin : Progress} {names more : List Identifier}

theorem pure (result : α) : (Pure.pure result : Analysis α).Reports mayOpen origin [] := by
  intro environment before views found after returned
  cases returned
  exact ⟨views, [], (List.append_nil _).symm, rfl⟩

/-- Reports come one after the other. -/
theorem bind {first : Analysis α} {next : α → Analysis β}
    (reports : first.Reports mayOpen origin names)
    (onwards : ∀ result, (next result).Reports mayOpen origin more) :
    (first >>= next).Reports mayOpen origin (names ++ more) := by
  intro environment before views result after returned
  obtain ⟨found, middle, earlier, later⟩ := bind_eq_ok.mp returned
  obtain ⟨viewsMiddle, ahead, logged, isAhead⟩ :=
    reports environment before views found middle earlier
  obtain ⟨viewsAfter, behind, further, isBehind⟩ :=
    onwards found environment middle viewsMiddle result after later
  refine ⟨viewsAfter, ahead ++ behind, by rw [further, logged, List.append_assoc], ?_⟩
  rw [undefinedEntries, List.filter_append, List.filter_append, List.map_append, ← isAhead,
    ← isBehind]
  rfl

theorem reads {next : Store → Analysis α}
    (reports : ∀ store, (next store).Reports mayOpen origin names) :
    (Analysis.store >>= next).Reports mayOpen origin names :=
  fun environment before => reports before.store environment before

/-- What reports nothing but indices reports no name. -/
theorem of_touches {analysis : Analysis α} (touches : analysis.Touches mayOpen False) :
    analysis.Reports mayOpen origin [] := by
  intro environment before views result after returned
  obtain ⟨stores, scopes, wellFormed, stack, -, reports, logged, indices⟩ :=
    touches environment before views.settled views.hosts False.elim
  rw [after_of_ok returned] at stores scopes wellFormed stack logged
  refine ⟨⟨stores.settled views.settled, wellFormed views.wellFormed, views.hosts.touches scopes,
    views.changes.trans scopes.changes, stack.trans views.stack⟩, reports, logged, ?_⟩
  refine List.filter_eq_nil_iff.mpr fun entry listed => ?_
  obtain ⟨found, span, rfl⟩ := indices entry listed
  exact (by decide : ¬decide ("bad-index-type" = "undefined-variable") = true)

end Analysis.Reports

/-- Scopes of which one is open, none of them that of a node that may be opened. -/
structure Scopes.Spares (mayOpen : NodeId → Prop) (scopes : Scopes) : Prop where
  wellFormed : scopes.WellFormed
  opened : scopes.stack ≠ []
  fresh : ∀ id, id.index < scopes.all.size → ¬mayOpen (scopes.scopeAt id).node

/-- A look-up changes no meaning, and neither does a report. -/
theorem Progress.Views.lookup {mayOpen : NodeId → Prop} {origin progress : Progress}
    (views : origin.Views mayOpen progress) (name : String) (reach : Reach) (log : DiagnosticLog) :
    origin.Views mayOpen
      { progress with scopes := (progress.scopes.lookup name reach).2, log } where
  settled := views.settled
  wellFormed := views.wellFormed.edited (Scopes.edited_lookup ..)
  hosts := views.hosts.touches (.lookup ..)
  changes := views.changes.trans (.lookup ..)
  stack := (Scopes.stack_lookup ..).trans views.stack

/-- Whatever else is reported, no name is. -/
theorem Analysis.Reports.report {mayOpen : NodeId → Prop} {origin : Progress} {lint : Lint}
    (other : lint.code ≠ "undefined-variable") (span : Span) :
    (Analysis.report lint span).Reports mayOpen origin [] := by
  intro environment before views result after returned
  cases returned
  refine ⟨{ views with }, [(environment.options.document, lint.at span)], Array.toList_push, ?_⟩
  have kept : ¬decide ((lint.at span).code = "undefined-variable") = true := by
    rwa [decide_eq_true_eq]
  exact List.filter_eq_nil_iff.mpr (List.forall_mem_singleton.mpr kept)

theorem Engine.checkOperands_reports {mayOpen : NodeId → Prop} {origin : Progress}
    (operator : BinaryOperator) (left right : Value) (span : Span) :
    (checkOperands operator left right span).Reports mayOpen origin [] := by
  unfold checkOperands
  refine .reads fun store => ?_
  split
  · exact .report (by simp [Lint.code]) span
  · exact .pure ()

section Checking

variable {mayOpen : NodeId → Prop} {origin : Progress} (spares : origin.scopes.Spares mayOpen)

include spares

theorem Progress.Views.refl (settled : origin.store.NoOverloadIs .pending) :
    origin.Views mayOpen origin :=
  ⟨settled, spares.wellFormed, fun id present opens => absurd opens (spares.fresh id present),
    .refl _, rfl⟩

/-- Names mean what they meant.

Proof: a look-up sees scopes that were there only, and nothing changed in these. -/
theorem Progress.Views.meaning?_eq {progress : Progress} (views : origin.Views mayOpen progress)
    (environment : Environment) (name : String) :
    progress.meaning? environment name = origin.meaning? environment name := by
  obtain ⟨home, current⟩ : ∃ home, origin.scopes.current? = some home := by
    cases stack : origin.scopes.stack with
    | nil => exact absurd stack spares.opened
    | cons home rest => exact ⟨home, by simp [Scopes.current?, stack]⟩
  have present := spares.wellFormed.opened home (List.mem_of_mem_head? current)
  have sees : origin.scopes.Sees {node | ¬mayOpen node} home :=
    ⟨current, fun outer listed =>
      spares.fresh outer (spares.wellFormed.outward_lt present listed),
      fun id found => spares.fresh id (Scopes.moduleScope?_eq_some.mp found).1.1⟩
  have same := sees.lookup spares.wellFormed views.changes views.wellFormed views.stack name
    .everything fun node apart => apart
  rw [meaning?, meaning?, same]

theorem Engine.checkName_reports (identifier : Identifier) :
    (checkName identifier).Reports mayOpen origin [identifier] := by
  intro environment before views result after returned
  rw [checkName, bind_of_ok (lookupName?_everything environment before identifier.name),
    views.meaning?_eq spares] at returned
  cases meaning : origin.meaning? environment identifier.name with
  | some value =>
    rw [meaning] at returned
    cases returned
    exact ⟨views.lookup _ _ _, [], (List.append_nil _).symm, by simp [undefinedEntries, meaning]⟩
  | none =>
    rw [meaning] at returned
    cases returned
    refine ⟨views.lookup _ _ _, [undefinedReport environment identifier], ?_, ?_⟩
    · exact Array.toList_push
    · simp [undefinedEntries, undefinedReport, Lint.at, Lint.code, meaning]

end Checking

namespace Engine

variable {engine : Engine} {mayOpen : NodeId → Prop} {origin : Progress}

theorem evaluate_reports (caching : engine.Caching) {expression : Expression}
    (opens : Opens mayOpen (Outline.ofExpression expression)) :
    (engine.evaluate .everything expression).Reports mayOpen origin [] :=
  .of_touches (evaluate_touches caching .everything opens)

mutual

theorem check_reports (spares : origin.scopes.Spares mayOpen) (caching : engine.Caching) :
    ∀ {expression : Expression},
    Opens mayOpen (Outline.ofExpression expression) →
      (engine.check expression).Reports mayOpen origin expression.checkedNames
  | .constant _ _, _ => by
    rw [check]
    exact .pure ()
  | .name identifier, _ => by
    rw [check]
    exact checkName_reports spares identifier
  | .attribute target _ _, opens => by
    simp only [Outline.ofExpression, opens_cons] at opens
    rw [check]
    have inside := check_reports spares caching opens.2
    exact inside
  | .index target position _, opens => by
    simp only [Outline.ofExpression, opens_cons, opens_append] at opens
    rw [check]
    exact .bind (check_reports spares caching opens.2.1) fun _ =>
      check_reports spares caching opens.2.2
  | .slice lower upper step _, opens => by
    simp only [Outline.ofExpression, opens_cons, opens_append] at opens
    rw [check]
    exact .bind (checkOptional_reports spares caching opens.2.1.1) fun _ =>
      .bind (checkOptional_reports spares caching opens.2.1.2) fun _ =>
        checkOptional_reports spares caching opens.2.2
  | .call callee arguments _, opens => by
    simp only [Outline.ofExpression, opens_cons, opens_append] at opens
    rw [check]
    exact .bind (check_reports spares caching opens.2.1) fun _ =>
      checkArguments_reports spares caching opens.2.2
  | .display _ items _, opens => by
    simp only [Outline.ofExpression, opens_cons] at opens
    rw [check]
    exact checkAll_reports spares caching opens.2
  | .dict entries _, opens => by
    simp only [Outline.ofExpression, opens_cons] at opens
    rw [check]
    exact checkEntries_reports spares caching opens.2
  | .comprehension ⟨_, _, _, _, clauses, _⟩, opens => by
    simp only [Outline.ofExpression, Outline.ofComprehension, opens_cons, opens_append] at opens
    rw [check, checkComprehension]
    exact checkFirstIterable_reports spares caching opens.2.2
  | .yield value _, opens => by
    simp only [Outline.ofExpression, opens_cons] at opens
    rw [check]
    exact checkOptional_reports spares caching opens.2
  | .unary _ operand _, opens => by
    simp only [Outline.ofExpression, opens_cons] at opens
    rw [check]
    have inside := check_reports spares caching opens.2
    exact inside
  | .binary left operator right span, opens => by
    simp only [Outline.ofExpression, opens_cons, opens_append] at opens
    rw [check]
    refine .bind (check_reports spares caching opens.2.1) fun _ => ?_
    have evaluated : (do
        let leftValue ← engine.evaluate .everything left
        let rightValue ← engine.evaluate .everything right
        checkOperands operator leftValue rightValue span).Reports mayOpen origin [] :=
      .bind (evaluate_reports caching opens.2.1) fun _ =>
        .bind (evaluate_reports caching opens.2.2) fun _ => checkOperands_reports _ _ _ _
    exact List.append_nil right.checkedNames ▸
      .bind (check_reports spares caching opens.2.2) fun _ => evaluated

theorem checkFirstIterable_reports (spares : origin.scopes.Spares mayOpen)
    (caching : engine.Caching) :
    ∀ {clauses : List Clause},
    Opens mayOpen (Outline.ofClauses clauses) →
      (engine.checkFirstIterable clauses).Reports mayOpen origin
        (Expression.firstCheckedNames clauses)
  | [], _ => by
    rw [checkFirstIterable]
    exact .pure ()
  | .iteration _ iterable _ :: _, opens => by
    simp only [Outline.ofClauses, opens_append] at opens
    rw [checkFirstIterable]
    exact check_reports spares caching opens.1.2
  | .condition _ _ :: rest, opens => by
    simp only [Outline.ofClauses, opens_append] at opens
    rw [checkFirstIterable]
    have inside := checkFirstIterable_reports spares caching opens.2
    exact inside

theorem checkOptional_reports (spares : origin.scopes.Spares mayOpen) (caching : engine.Caching) :
    ∀ {expression : Option Expression},
    Opens mayOpen (Outline.ofOptional expression) →
      (engine.checkOptional expression).Reports mayOpen origin
        (Expression.optionalCheckedNames expression)
  | none, _ => by
    rw [checkOptional]
    exact .pure ()
  | some _, opens => by
    rw [checkOptional]
    exact check_reports spares caching opens

theorem checkAll_reports (spares : origin.scopes.Spares mayOpen) (caching : engine.Caching) :
    ∀ {items : List Expression},
    Opens mayOpen (Outline.ofExpressions items) →
      (engine.checkAll items).Reports mayOpen origin (Expression.itemCheckedNames items)
  | [], _ => by
    rw [checkAll]
    exact .pure ()
  | _ :: _, opens => by
    simp only [Outline.ofExpressions, opens_append] at opens
    rw [checkAll]
    exact .bind (check_reports spares caching opens.1) fun _ =>
      checkAll_reports spares caching opens.2

theorem checkEntries_reports (spares : origin.scopes.Spares mayOpen) (caching : engine.Caching) :
    ∀ {entries : List (Expression × Expression)},
    Opens mayOpen (Outline.ofEntries entries) →
      (engine.checkEntries entries).Reports mayOpen origin (Expression.entryCheckedNames entries)
  | [], _ => by
    rw [checkEntries]
    exact .pure ()
  | (_, _) :: _, opens => by
    simp only [Outline.ofEntries, opens_append] at opens
    rw [checkEntries]
    exact .bind (check_reports spares caching opens.1.1) fun _ =>
      .bind (check_reports spares caching opens.1.2) fun _ =>
        checkEntries_reports spares caching opens.2

theorem checkArguments_reports (spares : origin.scopes.Spares mayOpen) (caching : engine.Caching) :
    ∀ {arguments : List CallArgument},
    Opens mayOpen (Outline.ofArguments arguments) →
      (engine.checkArguments arguments).Reports mayOpen origin
        (Expression.argumentCheckedNames arguments)
  | [], _ => by
    rw [checkArguments]
    exact .pure ()
  | ⟨_, _⟩ :: _, opens => by
    simp only [Outline.ofArguments, opens_append] at opens
    rw [checkArguments]
    exact .bind (check_reports spares caching opens.1) fun _ =>
      checkArguments_reports spares caching opens.2

end

/-- A check reports undefined names exactly: where a scope is open, no overload is pending and the
nodes of the comprehensions in an expression have no scopes yet, the reports of undefined names are,
in order, those of the names that stand in the expression outside of comprehensions, or in the first
iterables of these, and mean nothing before the check. And a check of sound progress ends: with
enough depth there is a result, and with less there is one or evaluations went too deep.

Proof: by induction on the expression, the names that are looked up are reported one after the other
by what they mean at the start. Where operands are evaluated in between, that reports indices only
and declares names in new scopes of comprehensions, which no look-up from the current scope sees. -/
theorem check_reports_undefined (expression : Expression) (environment : Environment)
    {before : Progress} (settled : before.store.NoOverloadIs .pending)
    (wellFormed : before.scopes.WellFormed) (opened : before.scopes.stack ≠ [])
    (fresh : ∀ node ∈ Outline.nodes (Outline.ofExpression expression), ¬before.scopes.Has node) :
    (∀ nodes known, before.Sound nodes known environment →
      (∃ enough after, ∀ depth, enough ≤ depth →
        (Engine.atDepth depth).check expression environment before = .ok () after) ∧
      ∀ depth,
        (∃ after, (Engine.atDepth depth).check expression environment before = .ok () after) ∨
        ∃ left, (Engine.atDepth depth).check expression environment before =
          .error .tooDeep left) ∧
    ∀ depth after, (Engine.atDepth depth).check expression environment before = .ok () after →
      ∃ reports, after.log.entries.toList = before.log.entries.toList ++ reports ∧
        undefinedEntries reports =
          (expression.checkedNames.filter fun name =>
            (before.meaning? environment name.name).isNone).map (undefinedReport environment) := by
  constructor
  · intro nodes known sound
    have holds : (Logic.convergence nodes (before.remaining nodes)).Holds known fun depth =>
        (Engine.atDepth depth).check expression :=
      check_holds (shallower nodes _ known) fun _ _ _ _ => trivial
    obtain ⟨_, result, after, converged, -⟩ := holds environment before sound le_rfl
    obtain ⟨enough, returned⟩ := converged.stable.enough
    exact ⟨⟨enough, after, returned⟩, fun depth =>
      (converged.stable.otherwise depth).imp_left fun returned => ⟨after, returned⟩⟩
  · intro depth after returned
    have spares : before.scopes.Spares (· ∈ Outline.nodes (Outline.ofExpression expression)) :=
      ⟨wellFormed, opened, fun id present listed => fresh _ listed ⟨id, present, rfl⟩⟩
    have opens : Opens (· ∈ Outline.nodes (Outline.ofExpression expression))
        (Outline.ofExpression expression) :=
      Outline.opens_of_nodes fun _ listed => listed
    have reports := check_reports spares (atDepth_caching depth) opens
    exact (reports environment before (.refl spares settled) () after returned).2

/-- Two names that mean nothing, one of them in the first iterable of a comprehension. The target of
the comprehension means nothing outside of it and is not looked up. -/
theorem check_reports_undefined_sum :
    let numbers : Expression := .comprehension ⟨⟨1⟩, .list, .ofName "item", none,
      [.iteration (.ofName "item") (.ofName "absent") .unknown], .unknown⟩
    let expression : Expression := .binary (.ofName "missing") .add numbers .unknown
    let environment := Registry.environment
    let before : Progress :=
      { store := Registry.standard.store, scopes := (Scopes.push {} .module .module none).2 }
    ∃ enough after, (∀ depth, enough ≤ depth →
        (Engine.atDepth depth).check expression environment before = .ok () after) ∧
      undefinedEntries after.log.entries.toList =
        [undefinedReport environment (.ofName "missing"),
          undefinedReport environment (.ofName "absent")] := by
  intro numbers expression environment before
  obtain ⟨ends, exact⟩ := check_reports_undefined expression environment
    (show before.store.NoOverloadIs .pending by decide +kernel)
    (show before.scopes.WellFormed by decide +kernel)
    (show before.scopes.stack ≠ [] by decide +kernel)
    fun node listed => Scopes.scopeOf?_eq_none.mp <| by
      cases List.mem_singleton.mp listed
      decide +kernel
  obtain ⟨⟨enough, after, returned⟩, -⟩ := ends [] _ (Progress.sound_fresh [] {})
  refine ⟨enough, after, returned, ?_⟩
  obtain ⟨reports, appended, undefined⟩ := exact enough after (returned enough le_rfl)
  rw [appended]
  refine undefined.trans ?_
  decide +kernel

end Engine

end TypeInference
