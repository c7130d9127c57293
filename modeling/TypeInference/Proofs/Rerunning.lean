import TypeInference.Proofs.Comprehensions
import TypeInference.Proofs.Reapplying
import TypeInference.Proofs.Seeing

/-!
# Analyses that are run again

An analysis that declares variables may have read them before, and then it need not give its result
again. So what is said of an analysis names the places where it changes values and the places that
it reads. If it is run again after changes elsewhere, whatever they are, it gives its result and
changes no value. Of two analyses in a row this holds if the second one changes nothing that the
first one reads.

The targets of an iteration are declared one by one, with values that do not depend on what was
declared before.
-/

namespace TypeInference

open Analysis Store

namespace Progress

variable {environment : Environment} {before middle after : Progress}

/-- Progress stays at rest where the store is the same. -/
theorem AtRest.restsTo_of_store (rest : before.AtRest environment)
    (grounded : after.Grounded environment) (same : after.store = before.store) :
    before.RestsTo environment after where
  start := rest
  rest := ⟨grounded, same ▸ rest.settled, same ▸ rest.ordered⟩
  lasts := same ▸ .refl _
  spares := same ▸ .refl _
  course := ⟨[], same ▸ .still, nofun⟩

/-- The value of a name in a scope. -/
def valueAt? (progress : Progress) (id : ScopeId) (name : String) : Option Value :=
  (progress.scopes.scopeAt id).valueOf? name

/-- Progress at rest that other progress at rest leads to, with the same scopes open, while values
change at some places only. -/
structure Leads (environment : Environment) (places : Set (NodeId × String))
    (before after : Progress) : Prop where
  rests : before.RestsTo environment after
  scopes : before.scopes.Changes places after.scopes
  wellFormed : after.scopes.WellFormed
  stack : after.scopes.stack = before.scopes.stack

namespace Leads

variable {places more : Set (NodeId × String)}

theorem refl (rest : before.AtRest environment) (wellFormed : before.scopes.WellFormed) :
    before.Leads environment places before :=
  ⟨.refl rest, .refl _, wellFormed, rfl⟩

theorem trans (one : before.Leads environment places middle)
    (other : middle.Leads environment places after) : before.Leads environment places after :=
  ⟨one.rests.trans other.rests, one.scopes.trans other.scopes, other.wellFormed,
    other.stack.trans one.stack⟩

theorem mono (leads : before.Leads environment places after) (wider : places ⊆ more) :
    before.Leads environment more after :=
  { leads with scopes := leads.scopes.mono wider }

/-- What changes in a row changes at the places of both. -/
theorem append (one : before.Leads environment places middle)
    (other : middle.Leads environment more after) :
    before.Leads environment (places ∪ more) after :=
  (one.mono Set.subset_union_left).trans (other.mono Set.subset_union_right)

/-- The scope that is open first is so afterwards. -/
theorem current? (leads : before.Leads environment places after) :
    after.scopes.current? = before.scopes.current? := by
  rw [Scopes.current?, Scopes.current?, leads.stack]

/-- Values that are as they were in a scope did not change there. -/
theorem restrict (leads : before.Leads environment (places ∪ more) after) {id : ScopeId}
    (present : id.index < before.scopes.all.size)
    (within : ∀ place ∈ more, place.1 = (before.scopes.scopeAt id).node)
    (same : ∀ name, ((before.scopes.scopeAt id).node, name) ∉ places →
      after.valueAt? id name = before.valueAt? id name) :
    before.Leads environment places after :=
  { leads with scopes := leads.scopes.restrict leads.wellFormed present within same }

/-- A value is what it was, if it did not change where it is. -/
theorem valueAt? (leads : before.Leads environment places after) {id : ScopeId}
    (present : id.index < before.scopes.all.size) {name : String}
    (outside : ((before.scopes.scopeAt id).node, name) ∉ places) :
    after.valueAt? id name = before.valueAt? id name :=
  leads.scopes.valueOf? present outside

/-- A name that has a value keeps having one. -/
theorem valueAt?_none (leads : before.Leads environment places after) {id : ScopeId}
    (present : id.index < before.scopes.all.size) {name : String}
    (none : after.valueAt? id name = none) : before.valueAt? id name = .none := by
  rw [← Option.not_isSome_iff_eq_none]
  intro valued
  have still := ((leads.scopes.kept id present).2 name).2 valued
  rw [← Progress.valueAt?, none] at still
  cases still

/-- Nothing but scopes is different. -/
theorem changeScopes (rest : before.AtRest environment) {scopes : Scopes}
    (visible : Within rest.grounded.references scopes)
    (changes : before.scopes.Changes places scopes) (wellFormed : scopes.WellFormed)
    (stack : scopes.stack = before.scopes.stack) :
    before.Leads environment places { before with scopes } :=
  ⟨rest.restsTo_of_store (rest.grounded.changeScopes visible) rfl, changes, wellFormed, stack⟩

section Opening

variable {node : NodeId} {last later : Progress}

/-- Nothing but scopes is different when one was opened. -/
theorem opens (rest : before.AtRest environment) (node : NodeId) :
    before.RestsTo environment
      { before with scopes := (before.scopes.push node .comprehension none).2 } :=
  rest.restsTo_of_store (rest.grounded.changeScopes (within_push rest.grounded.visible node _ none))
    rfl

/-- Nor is anything else when it is closed. -/
theorem closes (rest : last.AtRest environment) (depth : Nat) :
    last.RestsTo environment { last with scopes := last.scopes.truncate depth } :=
  rest.restsTo_of_store (rest.grounded.changeScopes (within_truncate rest.grounded.visible _)) rfl

/-- What happens while the scope of a comprehension is open, and what its opening changes. -/
theorem bracket (rest : before.AtRest environment)
    (opening : before.scopes.Changes places (before.scopes.push node .comprehension none).2)
    (leads : Leads environment places
      { before with scopes := (before.scopes.push node .comprehension none).2 } last) :
    before.Leads environment places
      { last with scopes := last.scopes.truncate before.scopes.depth } where
  rests := (opens rest node).trans leads.rests |>.trans (closes leads.rests.rest _)
  scopes :=
    have changes := opening.trans leads.scopes
    ⟨changes.grown, changes.kept, changes.fresh⟩
  wellFormed := leads.wellFormed.truncate _
  stack := Scopes.truncate_of_suffix last.scopes [_] before.scopes.stack
    (leads.stack.trans (before.scopes.stack_push node .comprehension none))

/-- The scope of a comprehension that was closed is opened again, and what has changed meanwhile has
changed since it was closed. -/
theorem reopens (opened : Leads environment places
      { before with scopes := (before.scopes.push node .comprehension none).2 } last)
    (onward : Leads environment more
      { last with scopes := last.scopes.truncate before.scopes.depth } later) :
    (later.scopes.push node .comprehension none).1 =
        (before.scopes.push node .comprehension none).1 ∧
      later.scopes.Changes ∅ (later.scopes.push node .comprehension none).2 ∧
      last.Leads environment more
        { later with scopes := (later.scopes.push node .comprehension none).2 } := by
  obtain ⟨present, isNode⟩ := before.scopes.node_opened node .comprehension none
  have there := Nat.lt_of_lt_of_le present opened.scopes.grown
  have known : later.scopes.scopeOf? node = some (before.scopes.push node .comprehension none).1 :=
    onward.wellFormed.scopeOf?_eq_some.mpr ⟨Nat.lt_of_lt_of_le there onward.scopes.grown,
      (onward.scopes.frame there).node.trans ((opened.scopes.frame present).node.trans isNode)⟩
  have pushed := Scopes.push_of_known known .comprehension none
  have rests := (closes opened.rests.rest before.scopes.depth).trans onward.rests |>.trans
    (opens onward.rests.rest node)
  have wellFormed : (later.scopes.push node .comprehension none).2.WellFormed :=
    onward.wellFormed.push _ _ trivial
  rw [pushed] at rests wellFormed ⊢
  have same : (last.scopes.truncate before.scopes.depth).stack = before.scopes.stack :=
    Scopes.truncate_of_suffix last.scopes [_] before.scopes.stack
      (opened.stack.trans (before.scopes.stack_push node .comprehension none))
  refine ⟨rfl, ?_, rests, ⟨onward.scopes.grown, onward.scopes.kept, onward.scopes.fresh⟩,
    wellFormed, ?_⟩
  · exact ⟨Nat.le_refl _, (Scopes.Changes.refl later.scopes).kept, (Scopes.Changes.refl _).fresh⟩
  · rw [opened.stack, before.scopes.stack_push]
    exact congrArg _ (onward.stack.trans same)

end Opening

end Leads

end Progress

/-- An analysis that changes values at some places only and, run again after changes that are not at
the places that it reads, gives its result again and changes no value. -/
def Analysis.Reruns {α : Type} [Refers α] (environment : Environment)
    (writes reads : Set (NodeId × String)) (before : Progress) (analysis : Analysis α) : Prop :=
  ∀ result after, analysis environment before = .ok result after →
    (∃ leads : before.Leads environment writes after,
      Within leads.rests.rest.grounded.references result) ∧
    ∀ others later, Disjoint others reads → after.Leads environment others later →
      ∃ last, analysis environment later = .ok result last ∧ later.Leads environment ∅ last

namespace Analysis.Reruns

variable {α β : Type} [Refers α] [Refers β] {environment : Environment}
  {writes reads more others : Set (NodeId × String)} {before : Progress}

theorem mono {analysis : Analysis α} (reruns : analysis.Reruns environment writes reads before)
    (wider : writes ⊆ more) (further : reads ⊆ others) :
    analysis.Reruns environment more others before := by
  intro result after returned
  obtain ⟨⟨leads, within⟩, again⟩ := reruns result after returned
  exact ⟨⟨leads.mono wider, within⟩, fun changed later apart onward =>
    again changed later (apart.mono_right further) onward⟩

/-- An analysis that leaves scopes as they are reads none, if it gives its result again. -/
theorem of_repeats {analysis : Analysis α} (rest : before.AtRest environment)
    (wellFormed : before.scopes.WellFormed) (caches : analysis.Caches none)
    (grounds : Grounds environment none before fun _ : Unit => analysis)
    (repeats : analysis.Repeats environment before) :
    analysis.Reruns environment writes reads before := by
  intro result after returned
  obtain ⟨rests, again⟩ := repeats result after returned
  obtain ⟨_, within⟩ := grounds.within_of_ok returned
  have scopes := (caches.of_ok rest.settled returned).scopes
  exact ⟨⟨⟨rests, scopes ▸ .refl _, scopes ▸ wellFormed, congrArg Scopes.stack scopes⟩, within⟩,
    fun _ later _ onward =>
      ⟨later, again later onward.rests, .refl onward.rests.rest onward.wellFormed⟩⟩

theorem pure (rest : before.AtRest environment) (wellFormed : before.scopes.WellFormed) {result : α}
    (within : Within rest.grounded.references result) :
    (Pure.pure result : Analysis α).Reruns environment writes reads before :=
  .of_repeats rest wellFormed (.pure result) (.pure rest.grounded within) (.pure rest result)

/-- The second analysis changes nothing that the first one reads. -/
theorem bind {first : Analysis α} {next : α → Analysis β}
    (begins : first.Reruns environment writes reads before)
    (continues : ∀ result middle (leads : before.Leads environment writes middle),
      Within leads.rests.rest.grounded.references result →
        (next result).Reruns environment more others middle) (apart : Disjoint more reads) :
    (first >>= next).Reruns environment (writes ∪ more) (reads ∪ others) before := by
  intro result after returned
  obtain ⟨found, middle, earlier, continued⟩ := bind_eq_ok.mp returned
  obtain ⟨⟨leads, given⟩, again⟩ := begins found middle earlier
  obtain ⟨⟨onward, within⟩, further⟩ := continues found middle leads given result after continued
  refine ⟨⟨leads.append onward, within⟩, fun changed later elsewhere later' => ?_⟩
  rw [Set.disjoint_union_right] at elsewhere
  obtain ⟨last, repeated, still⟩ := again (more ∪ changed) later
    (Set.disjoint_union_left.mpr ⟨apart, elsewhere.1⟩) (onward.append later')
  obtain ⟨final, ended, unchanged⟩ := further changed last elsewhere.2
    (later'.trans (still.mono (Set.empty_subset _)))
  exact ⟨final, by rw [bind_of_ok repeated, ended], still.trans unchanged⟩

/-- What comes of an analysis is what the next one is done with, which reads no scopes. -/
theorem followed {first : Analysis α} {next : α → Analysis β}
    (begins : first.Reruns environment writes reads before)
    (continues : ∀ result middle (leads : before.Leads environment writes middle),
      Within leads.rests.rest.grounded.references result →
        (next result).Reruns environment ∅ ∅ middle) :
    (first >>= next).Reruns environment writes reads before := by
  have both := bind begins continues (Set.empty_disjoint _)
  rwa [Set.union_empty, Set.union_empty] at both

/-- A result is made of the one that was found. -/
theorem map {first : Analysis α} {result : α → β}
    (begins : first.Reruns environment writes reads before)
    (within : ∀ (known : References) found, Within known found → Within known (result found)) :
    (do
      let found ← first
      return result found : Analysis β).Reruns environment writes reads before :=
  .followed begins fun found _ leads given =>
    .pure leads.rests.rest leads.wellFormed (within _ found given)

/-- The store is read, and the analysis goes on as another one wherever this may lead. -/
theorem of_reads {next other : Store → Analysis α} (rest : before.AtRest environment)
    (same : ∀ later : Progress, before.RestsTo environment later →
      next later.store = other later.store)
    (reruns : (Analysis.store >>= other).Reruns environment writes reads before) :
    (Analysis.store >>= next).Reruns environment writes reads before := by
  intro result after returned
  change next before.store environment before = _ at returned
  rw [same before (.refl rest)] at returned
  obtain ⟨⟨leads, within⟩, again⟩ := reruns result after returned
  refine ⟨⟨leads, within⟩, fun changed later apart onward => ?_⟩
  change ∃ last, next later.store environment later = _ ∧ _
  rw [same later (leads.rests.trans onward.rests)]
  exact again changed later apart onward

/-- The store is read, and the analysis goes on as it would have gone on before. -/
theorem readsStore {next : Store → Analysis α} (rest : before.AtRest environment)
    (same : ∀ later : Progress, before.RestsTo environment later →
      next later.store = next before.store)
    (continues : (next before.store).Reruns environment writes reads before) :
    (Analysis.store >>= next).Reruns environment writes reads before :=
  .of_reads rest same
    (show (Analysis.store >>= fun _ => next before.store).Reruns _ _ _ _ from continues)

theorem options {next : Options → Analysis α}
    (continues : (next environment.options).Reruns environment writes reads before) :
    (Analysis.options >>= next).Reruns environment writes reads before :=
  continues

/-- A name is looked up in the scopes that are seen. -/
theorem lookupName? (rest : before.AtRest environment) (wellFormed : before.scopes.WellFormed)
    {seen : Set NodeId} {home : ScopeId} (sees : before.scopes.Sees seen home) (name : String)
    (reach : Reach) (read : ∀ node ∈ seen, (node, name) ∈ reads) :
    (Analysis.lookupName? name reach).Reruns environment writes reads before := by
  have still {progress : Progress} (rest : progress.AtRest environment)
      (wellFormed : progress.scopes.WellFormed) {places : Set (NodeId × String)} :
      progress.Leads environment places
        { progress with scopes := (progress.scopes.lookup name reach).2 } :=
    .changeScopes rest (within_lookup rest.grounded.visible name reach).2 (.lookup _ name reach)
      (wellFormed.edited (Scopes.edited_lookup _ name reach)) (Scopes.stack_lookup ..)
  intro result after returned
  rw [lookupName?_apply] at returned
  cases returned
  refine ⟨⟨still rest wellFormed, ?_⟩, fun changed later apart onward => ?_⟩
  · split
    · next found given =>
      exact (within_some _).mpr ((within_lookup rest.grounded.visible name reach).1 _ given)
    · exact within_ite (OrderedTable.within_find? rest.grounded.registered name) within_none
  · have leads : before.Leads environment changed later := (still rest wellFormed).trans onward
    refine ⟨_, ?_, still onward.rests.rest onward.wellFormed⟩
    have same := sees.lookup wellFormed leads.scopes leads.wellFormed leads.stack name reach
      fun node isSeen inside => Set.disjoint_left.mp apart inside (read node isSeen)
    rw [lookupName?_apply]
    cases found : (before.scopes.lookup name reach).1 with
    | none =>
      rw [found, Option.map_none, Option.map_eq_none_iff] at same
      rw [same]
    | some pair =>
      rw [found] at same
      obtain ⟨other, isOther, value⟩ := Option.map_eq_some_iff.mp same
      rw [isOther]
      exact congrArg (fun value => EStateM.Result.ok (some value) _) value

/-- Something is reported, which may be worded in another way again. -/
theorem report (rest : before.AtRest environment) (wellFormed : before.scopes.WellFormed)
    (lint : Store → Lint) (span : Span) {result : α}
    (within : Within rest.grounded.references result) :
    (do
      let store ← Analysis.store
      Analysis.report (lint store) span
      return result : Analysis α).Reruns environment writes reads before := by
  have logged {progress : Progress} (rest : progress.AtRest environment)
      (wellFormed : progress.scopes.WellFormed) {places : Set (NodeId × String)}
      (log : DiagnosticLog) : progress.Leads environment places { progress with log } :=
    ⟨rest.restsTo_of_store (rest.grounded.changeLog log) rfl, .refl _, wellFormed, rfl⟩
  intro found after returned
  cases returned
  exact ⟨⟨logged rest wellFormed _, within⟩, fun _ later _ onward =>
    ⟨_, rfl, logged onward.rests.rest onward.wellFormed _⟩⟩

end Analysis.Reruns

section Declarations

/-- The value of a name after some declarations, in order. -/
def Value.afterAll (name : String) : List (String × Value) → Option Value → Option Value
  | [], before => before
  | (declared, value) :: rest, before =>
    afterAll name rest (if declared = name then some (value.after before) else before)

/-- Whatever a name means, declarations either leave that or do not depend on it. -/
theorem Value.afterAll_some (name : String) (entries : List (String × Value)) (known : Value) :
    afterAll name entries (some known) = some known ∨
      ∀ before, afterAll name entries (some known) = afterAll name entries before := by
  induction entries generalizing known with
  | nil => exact .inl rfl
  | cons entry rest inductionHypothesis =>
    obtain ⟨declared, value⟩ := entry
    simp only [afterAll]
    by_cases here : declared = name
    · simp only [if_pos here]
      cases unknown : value.isUnknown with
      | true =>
        rw [show value.after (some known) = known by simp [Value.after, unknown]]
        rcases inductionHypothesis known with kept | set
        · exact .inl kept
        · exact .inr fun before => set _
      | false =>
        have fixed (before : Option Value) : value.after before = value := by
          simp [Value.after, unknown]
        exact .inr fun before => by rw [fixed, fixed]
    · simp only [if_neg here]
      exact inductionHypothesis known

/-- A name that means nothing after declarations is not declared. -/
theorem Value.afterAll_none {name : String} {entries : List (String × Value)}
    {before : Option Value} (none : afterAll name entries before = .none) : before = .none := by
  induction entries generalizing before with
  | nil => exact none
  | cons entry rest inductionHypothesis =>
    have earlier := inductionHypothesis none
    split at earlier
    · cases earlier
    · exact earlier

/-- Declared again where it has the value that it had afterwards, or the one that it had before, a
name gets the first of these or the one that it got the first time. -/
theorem Value.afterAll_again {name : String} {entries : List (String × Value)}
    {before middle after now : Option Value} (declared : middle = afterAll name entries before)
    (kept : after = none → middle = none) (alike : now = after ∨ now = before) :
    afterAll name entries now = after ∨ afterAll name entries now = middle := by
  rcases alike with rfl | rfl
  · cases now with
    | none =>
      have unset : before = none := afterAll_none (declared.symm.trans (kept rfl))
      exact .inr (by rw [declared, unset])
    | some value =>
      exact (afterAll_some name entries value).imp_right fun set => (set _).trans declared.symm
  · exact .inr declared.symm

/-- A target that is taken apart is a list or a tuple. -/
theorem Expression.display_of_targetsOf? {target : Expression} {items : List Expression}
    (listed : targetsOf? target = some items) :
    ∃ span, target = .display .list items span ∨ target = .display .tuple items span := by
  unfold targetsOf? at listed
  split at listed
  · cases listed
    exact ⟨_, .inl rfl⟩
  · cases listed
    exact ⟨_, .inr rfl⟩
  · cases listed

/-- The names in a tuple or list of targets are those in its items. -/
theorem Expression.targetNames_of_targetsOf? {target : Expression} {items : List Expression}
    (listed : targetsOf? target = some items) : target.targetNames = namesOfTargets items := by
  obtain ⟨_, rfl | rfl⟩ := display_of_targetsOf? listed
  · rfl
  · rfl

/-- Names are declared in order with given values. -/
def Analysis.declareAll (span : Span) : List (String × Value) → Analysis Unit
  | [] => return
  | (name, value) :: rest => do
    declare name value .local none span
    declareAll span rest

theorem Analysis.declareAll_append (span : Span) (first second : List (String × Value)) :
    declareAll span (first ++ second) = (do
      declareAll span first
      declareAll span second) := by
  induction first with
  | nil => rfl
  | cons entry rest inductionHypothesis =>
    rw [List.cons_append, declareAll, inductionHypothesis, declareAll, bind_assoc]

/-- An analysis that declares nothing but some names, with values that do not depend on the scopes
and refer to nothing that a given thing does not refer to. -/
def Analysis.Declares {α : Type} [Refers α] (span : Span) (names : List String) (given : α)
    (analysis : Analysis Unit) : Prop :=
  ∃ entries, analysis = declareAll span entries ∧ (∀ entry ∈ entries, entry.1 ∈ names) ∧
    ∀ known : References, Within known given → Within known entries

namespace Analysis.Declares

variable {α β : Type} [Refers α] [Refers β] {span : Span} {names more : List String} {given : α}
  {other : β}

theorem nothing : (Pure.pure () : Analysis Unit).Declares span names given :=
  ⟨[], rfl, List.forall_mem_nil _, fun _ _ => within_nil⟩

theorem append {first second : Analysis Unit} (one : first.Declares span names given)
    (two : second.Declares span more given) :
    (do
      first
      second : Analysis Unit).Declares span (names ++ more) given := by
  obtain ⟨entries, rfl, among, within⟩ := one
  obtain ⟨others, rfl, amongOthers, withinOthers⟩ := two
  refine ⟨entries ++ others, (declareAll_append span entries others).symm,
    List.forall_mem_append.mpr ⟨fun entry listed => List.mem_append_left _ (among entry listed),
      fun entry listed => List.mem_append_right _ (amongOthers entry listed)⟩,
    fun known stands => List.forall_mem_append.mpr ⟨within known stands, withinOthers known stands⟩⟩

/-- What refers to nothing else may be given. -/
theorem of_within {analysis : Analysis Unit} (declares : analysis.Declares span names other)
    (inside : ∀ known : References, Within known given → Within known other) :
    analysis.Declares span names given := by
  obtain ⟨entries, same, among, within⟩ := declares
  exact ⟨entries, same, among, fun known stands => within known (inside known stands)⟩

theorem bindName (target : Expression) (value : Value) :
    (Analysis.bindName target value span).Declares span target.targetNames value := by
  unfold Analysis.bindName
  split
  · next identifier =>
    refine ⟨[(identifier.name, value)], ?_, ?_, fun known stands => ?_⟩
    · simp only [declareAll]
      exact (bind_pure _).symm
    · simp [Expression.targetNames]
    · exact (within_cons _ _).mpr ⟨⟨trivial, stands⟩, within_nil⟩
  · exact nothing

theorem unpack (targets : List Expression) (elements : Option Elements) :
    (Analysis.unpack span targets elements).Declares span (Expression.namesOfTargets targets)
      elements := by
  induction targets, elements using Analysis.unpack.induct with
  | case1 elements =>
    rw [Analysis.unpack]
    exact nothing
  | case2 items _ rest elements element others found inner after =>
    simp only [Analysis.unpack, found, Expression.namesOfTargets, Expression.targetNames]
    refine (inner.of_within fun known given => ?_).append (after.of_within fun known given => ?_)
    · exact (found ▸ given.nextOf).1.iterate
    · exact (found ▸ given.nextOf).2
  | case3 items _ rest elements element others found inner after =>
    simp only [Analysis.unpack, found, Expression.namesOfTargets, Expression.targetNames]
    refine (inner.of_within fun known given => ?_).append (after.of_within fun known given => ?_)
    · exact (found ▸ given.nextOf).1.iterate
    · exact (found ▸ given.nextOf).2
  | case4 target rest elements notList notTuple element others found after =>
    rw [Analysis.unpack]
    · simp only [found, Expression.namesOfTargets]
      refine ((bindName target element).of_within fun known given => ?_).append
        (after.of_within fun known given => ?_)
      · exact (found ▸ given.nextOf).1
      · exact (found ▸ given.nextOf).2
    · exact notList
    · exact notTuple

theorem bindNames (targets : List Expression) : ∀ values : List Value,
    (Analysis.bindNames span targets values).Declares span (Expression.namesOfTargets targets)
      values := by
  induction targets with
  | nil => exact fun _ => nothing
  | cons target rest inductionHypothesis =>
    intro values
    exact ((bindName target _).of_within fun known given => given.head?.getD within_unknown).append
      ((inductionHypothesis _).of_within fun known given => given.tail)

/-- The targets of an iteration are declared with values that depend on the iterable only. -/
theorem bindIterationTarget (target : Expression) (iterable : Value) :
    (Analysis.bindIterationTarget target iterable span).Declares span target.targetNames
      iterable := by
  unfold Analysis.bindIterationTarget
  dsimp only
  split
  · next items listed =>
    rw [Expression.targetNames_of_targetsOf? listed]
    split
    · next mapping found =>
      refine (bindNames items _).of_within fun known given => ?_
      have entries := given.mapping found
      exact (within_cons _ _).mpr ⟨entries.keys.head?.getD within_unknown,
        (within_cons _ _).mpr ⟨entries.values.head?.getD within_unknown, within_nil⟩⟩
    · exact (unpack items _).of_within fun known given =>
        (given.firstElement?.getD within_unknown).iterate
  · exact (bindName target _).of_within fun known given => given.firstElement?.getD within_unknown

end Analysis.Declares

section Samples

variable {environment : Environment} {before : Progress} {home : ScopeId}

/-- A name is declared in the scope of a comprehension, and nothing else is different. -/
theorem Analysis.declare_leads (rest : before.AtRest environment)
    (wellFormed : before.scopes.WellFormed) (current : before.scopes.current? = some home)
    (sample : (before.scopes.scopeAt home).IsSample) (name : String) {value : Value}
    (given : Within rest.grounded.references value) (span : Span) :
    ∃ after, declare name value .local none span environment before = .ok () after ∧
      before.Leads environment {((before.scopes.scopeAt home).node, name)} after ∧
      ∀ other, after.valueAt? home other =
        if name = other then some (value.after (before.valueAt? home other))
        else before.valueAt? home other := by
  have declared := Scopes.declare_of_current current name value .local none span
  rw [show before.scopes.redirect home name .local = (home, .local) by
    simp [Scopes.redirect, sample.globals, sample.nonlocals]] at declared
  have edited := Scopes.edited_declare declared
  refine ⟨_, changeScopes_of_ok environment declared,
    .changeScopes rest (within_declare rest.grounded.visible given declared)
      (.insert before.scopes rfl) (wellFormed.edited edited) edited.sameShape.stack, fun other =>
        ?_⟩
  have present := wellFormed.opened home (List.mem_of_mem_head? current)
  rw [Progress.valueAt?, Scopes.scopeAt_modifyScope, if_pos ⟨rfl, present⟩, Scope.valueOf?_insert]
  rfl

/-- Names are declared one after the other. -/
theorem Analysis.declareAll_leads (span : Span) (entries : List (String × Value)) :
    ∀ {before : Progress} (rest : before.AtRest environment), before.scopes.WellFormed →
      before.scopes.current? = some home → (before.scopes.scopeAt home).IsSample →
        Within rest.grounded.references entries →
          ∃ after, declareAll span entries environment before = .ok () after ∧
            before.Leads environment {place | place.1 = (before.scopes.scopeAt home).node ∧
              place.2 ∈ entries.map Prod.fst} after ∧
            ∀ name, after.valueAt? home name =
              Value.afterAll name entries (before.valueAt? home name) := by
  induction entries with
  | nil => exact fun rest wellFormed _ _ _ => ⟨_, rfl, .refl rest wellFormed, fun _ => rfl⟩
  | cons entry others inductionHypothesis =>
    obtain ⟨name, value⟩ := entry
    intro before rest wellFormed current sample within
    rw [within_cons] at within
    obtain ⟨middle, declared, leads, first⟩ :=
      declare_leads rest wellFormed current sample name within.1.2 span
    have same := leads.scopes.frame (wellFormed.opened home (List.mem_of_mem_head? current))
    obtain ⟨after, continued, onward, values⟩ := inductionHypothesis leads.rests.rest
      leads.wellFormed (leads.current?.trans current) (sample.of_sameFrame same)
      (leads.rests.within within.2)
    refine ⟨after, by rw [declareAll, bind_of_ok declared, continued],
      (leads.mono ?_).trans (onward.mono ?_), fun other => by rw [values, first]; rfl⟩
    · rintro place rfl
      exact ⟨rfl, List.mem_cons_self⟩
    · rintro place ⟨isNode, listed⟩
      exact ⟨isNode.trans same.node, List.mem_cons_of_mem _ listed⟩

end Samples

end Declarations

namespace Engine

variable {environment : Environment} {writes reads : Set (NodeId × String)} {before : Progress}
  {depth : Nat} (rest : before.AtRest environment) (wellFormed : before.scopes.WellFormed)

include rest wellFormed

/-- An item is what it was, and an index that cannot work is reported again. -/
theorem itemAt_reruns {container position : Value}
    (contained : Within rest.grounded.references container)
    (given : Within rest.grounded.references position) (positionSpan span : Span) :
    ((Engine.atDepth depth).itemAt container position positionSpan span).Reruns environment writes
      reads before := by
  have nature {later : Progress} (rests : before.RestsTo environment later) :=
    rests.builtinOf? contained
  have isPosition {later : Progress} (rests : before.RestsTo environment later) :=
    rests.isPosition given
  unfold itemAt
  cases tracked : if ((before.store.builtin? (before.store.typeOf container)).map
      Builtin.isSequence).getD false then container.asSequence? else none with
  | some content =>
    have items : Within rest.grounded.references content.items := by
      split at tracked
      · exact contained.sequence tracked
      · cases tracked
    cases placed : before.store.isPosition position with
    | true =>
      refine .readsStore rest (fun later rests => ?_) ?_
      · simp only [nature rests, isPosition rests, tracked, placed, if_true]
      · simp only [tracked, placed, if_true]
        exact .pure rest wellFormed (within_selectItem items position)
    | false =>
      refine .of_reads rest (fun later rests => ?_) (.report rest wellFormed
        (fun store => .badIndexType (store.typeName (store.typeOf position))) positionSpan
        (items.head?.getD within_unknown))
      simp only [nature rests, isPosition rests, tracked, placed, Bool.false_eq_true, if_false]
      rfl
  | none =>
    refine .readsStore rest (fun later rests => ?_) ?_
    · simp only [nature rests, tracked]
    · simp only [tracked]
      cases found : container.asMapping? with
      | some content =>
        exact .pure rest wellFormed (within_selectValue (contained.mapping found) position)
      | none =>
        exact .of_repeats rest wellFormed
          (itemByMethod_holds (atDepth_caching depth) (within_every container)
            (within_every position) span)
          (itemByMethod_holds (areGrounded_atDepth depth _) contained given span environment before
            rest.grounded fun _ has => has)
          (itemByMethod_repeats rest contained given span)

/-- An attribute is found again. -/
theorem attributeOf_reruns (name : String) {value : Value}
    (given : Within rest.grounded.references value) :
    ((Engine.atDepth depth).attributeOf name value).Reruns environment writes reads before :=
  .of_repeats rest wellFormed (attributeOf_holds (atDepth_caching depth) name (within_every value))
    (attributeOf_holds (areGrounded_atDepth depth _) name given environment before rest.grounded
      fun _ has => has)
    (attributeOf_repeats name rest given)

/-- A class is specialized to the same arguments again. -/
theorem specialize_reruns {id : ClassId} {arguments : Arguments}
    (present : before.store.HasClass id) (given : Within rest.grounded.references arguments) :
    ((Engine.atDepth depth).specialize id arguments).Reruns environment writes reads before :=
  .of_repeats rest wellFormed (specialize_caches depth id arguments)
    ((areGrounded_atDepth depth rest.grounded.references).specialize present given environment
      before
      rest.grounded fun _ has => has)
    (specialize_repeats depth rest present given)

/-- A call is made again. -/
theorem callValue_reruns {target : Option Value} {positional : List Value}
    {keywords : List (String × Value)} {callee : Value}
    (found : Within rest.grounded.references target)
    (placed : Within rest.grounded.references positional)
    (named : Within rest.grounded.references keywords) (span : Span)
    (given : Within rest.grounded.references callee) :
    ((Engine.atDepth depth).callValue target positional keywords span callee).Reruns environment
      writes reads before :=
  .of_repeats rest wellFormed
    (callValue_holds (atDepth_caching depth) (within_every _) (within_every _) (within_every _) span
      (within_every _))
    (callValue_holds (areGrounded_atDepth depth _) found placed named span given environment before
      rest.grounded fun _ has => has)
    (callValue_repeats rest found placed named span given)

/-- An operator is applied again. -/
theorem applyUnary_reruns (operator : UnaryOperator) {operand : Value}
    (given : Within rest.grounded.references operand) (span : Span) :
    ((Engine.atDepth depth).applyUnary operator operand span).Reruns environment writes reads
      before :=
  .of_repeats rest wellFormed
    (applyUnary_holds (atDepth_caching depth) operator (within_every operand) span)
    (applyUnary_holds (areGrounded_atDepth depth _) operator given span environment before
      rest.grounded fun _ has => has)
    (applyUnary_repeats rest operator given span)

theorem applyBinary_reruns (operator : BinaryOperator) {left right : Value}
    (first : Within rest.grounded.references left) (second : Within rest.grounded.references right)
    (span : Span) :
    ((Engine.atDepth depth).applyBinary operator left right span).Reruns environment writes reads
      before :=
  .of_repeats rest wellFormed
    (applyBinary_holds (atDepth_caching depth) operator (within_every left)
      (within_every right) span)
    (applyBinary_holds (areGrounded_atDepth depth _) operator first second span environment before
      rest.grounded fun _ has => has)
    (applyBinary_repeats rest operator first second span)

end Engine

end TypeInference
