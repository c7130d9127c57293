import TypeInference.Proofs.Rerunning

/-!
# Expressions that are evaluated again

The scope of a comprehension is kept, and opened again with what an earlier evaluation left in it.
So a comprehension that is evaluated again finds its own targets declared, all of them from the
start. If no clause reads a name that it binds itself or that a later one binds, this makes no
difference: every target has the value that it had by the time that it is read, and in the end all
have the values that they had. Otherwise the second evaluation may give another value than the first
one.
-/

namespace TypeInference

open Analysis Store

/-- The places of the scopes of comprehensions. -/
def placesOf (samples : List (NodeId × Comprehension)) : Set (NodeId × String) :=
  {place | ∃ sample ∈ samples, sample.2.id = place.1}

/-- The places of names in the scopes of some nodes, and of the scopes of comprehensions. -/
def reading (seen : Set NodeId) (names : List String) (samples : List (NodeId × Comprehension)) :
    Set (NodeId × String) :=
  {place | place.1 ∈ seen ∧ place.2 ∈ names} ∪ placesOf samples

@[simp] theorem placesOf_append (first second : List (NodeId × Comprehension)) :
    placesOf (first ++ second) = placesOf first ∪ placesOf second := by
  ext place
  simp only [placesOf, List.mem_append, or_and_right, exists_or, Set.mem_ofPred_eq, Set.mem_union]

theorem placesOf_cons (sample : NodeId × Comprehension) (samples : List (NodeId × Comprehension)) :
    placesOf (sample :: samples) = {place | place.1 = sample.2.id} ∪ placesOf samples := by
  ext place
  simp only [placesOf, List.mem_cons, exists_eq_or_imp, Set.mem_ofPred_eq, Set.mem_union,
    eq_comm (a := sample.2.id)]

/-- What is read for two things is read for either. -/
theorem reading_append (seen : Set NodeId) (names more : List String)
    (samples others : List (NodeId × Comprehension)) :
    reading seen names samples ∪ reading seen more others =
      reading seen (names ++ more) (samples ++ others) := by
  ext place
  simp only [reading, placesOf_append, Set.mem_union, Set.mem_ofPred_eq, List.mem_append]
  tauto

theorem reading_mono {seen more : Set NodeId} {names others : List String}
    {samples : List (NodeId × Comprehension)} (wider : seen ⊆ more) (further : names ⊆ others) :
    reading seen names samples ⊆ reading more others samples :=
  Set.union_subset_union_left _ fun _ inside => ⟨wider inside.1, further inside.2⟩

/-- Comprehensions that have a scope already have it inside of that of the node where they are
evaluated. -/
def Scopes.Lodges (samples : List (NodeId × Comprehension)) (scopes : Scopes) : Prop :=
  ∀ id, id.index < scopes.all.size → ∀ sample ∈ samples, (scopes.scopeAt id).node = sample.2.id →
    (scopes.scopeAt id).IsSample ∧ ∃ outer, (scopes.scopeAt id).parent = some outer ∧
      (scopes.scopeAt outer).node = sample.1

/-- So they have after changes elsewhere. -/
theorem Scopes.Lodges.changes {samples : List (NodeId × Comprehension)}
    {places : Set (NodeId × String)} {before after : Scopes} (lodges : before.Lodges samples)
    (wellFormed : before.WellFormed) (changes : before.Changes places after)
    (elsewhere : ∀ sample ∈ samples, (sample.2.id, "") ∉ places) : after.Lodges samples := by
  intro id inside sample listed isNode
  by_cases present : id.index < before.all.size
  · have same := changes.frame present
    obtain ⟨isSample, outer, parent, around⟩ :=
      lodges id present sample listed (same.node.symm.trans isNode)
    have further : outer.index < before.all.size :=
      Nat.lt_trans (wellFormed.outward id outer parent) present
    exact ⟨isSample.of_sameFrame same, outer, same.parent.trans parent,
      (changes.frame further).node.trans around⟩
  · obtain ⟨-, created⟩ := changes.fresh id (Nat.not_lt.mp present) inside
    exact absurd (isNode ▸ created "") (elsewhere sample listed)

/-- Progress in which comprehensions can be evaluated, some of them in the current scope, which is
that of a node, and the others inside of them. The scopes that the current one sees are those of
some nodes, none of which is that of a comprehension to be evaluated. -/
structure Progress.Ready (environment : Environment) (seen : Set NodeId) (node : NodeId)
    (samples : List (NodeId × Comprehension)) (progress : Progress) : Prop where
  rest : progress.AtRest environment
  wellFormed : progress.scopes.WellFormed
  sees : ∃ home, progress.scopes.Sees seen home ∧ (progress.scopes.scopeAt home).node = node
  distinct : (samples.map fun sample => sample.2.id).Nodup
  unseen : ∀ sample ∈ samples, sample.2.id ∉ seen
  lodged : progress.scopes.Lodges samples
  ordered : ∀ sample ∈ samples, sample.2.InOrder

namespace Progress.Ready

variable {environment : Environment} {seen : Set NodeId} {node : NodeId}
  {samples others : List (NodeId × Comprehension)} {before after : Progress}

/-- Fewer comprehensions can be evaluated. -/
theorem sublist (ready : before.Ready environment seen node samples)
    (fewer : others.Sublist samples) : before.Ready environment seen node others :=
  { ready with
    distinct := ready.distinct.sublist (fewer.map _)
    unseen := fun sample listed => ready.unseen sample (fewer.subset listed)
    lodged := fun id present sample listed => ready.lodged id present sample (fewer.subset listed)
    ordered := fun sample listed => ready.ordered sample (fewer.subset listed) }

theorem first (ready : before.Ready environment seen node (samples ++ others)) :
    before.Ready environment seen node samples :=
  ready.sublist (List.sublist_append_left _ _)

theorem second (ready : before.Ready environment seen node (samples ++ others)) :
    before.Ready environment seen node others :=
  ready.sublist (List.sublist_append_right _ _)

/-- The places of comprehensions are not among those that others read. -/
theorem apart (ready : before.Ready environment seen node (samples ++ others))
    (names : List String) :
    Disjoint (placesOf others) (reading seen names samples) := by
  rw [Set.disjoint_left]
  rintro place ⟨other, listed, isPlace⟩ (⟨isSeen, -⟩ | ⟨sample, among, same⟩)
  · exact ready.unseen other (List.mem_append_right _ listed) (isPlace ▸ isSeen)
  · have distinct := ready.distinct
    rw [List.map_append, List.nodup_append] at distinct
    exact distinct.2.2 _ (List.mem_map_of_mem among) _ (List.mem_map_of_mem listed)
      (same.trans isPlace.symm)

/-- Comprehensions can be evaluated after changes elsewhere. -/
theorem leads {places : Set (NodeId × String)} (ready : before.Ready environment seen node samples)
    (leads : before.Leads environment places after)
    (elsewhere : ∀ sample ∈ samples, ∀ name, (sample.2.id, name) ∉ places) :
    after.Ready environment seen node samples where
  rest := leads.rests.rest
  wellFormed := leads.wellFormed
  sees := by
    obtain ⟨home, sees, here⟩ := ready.sees
    have present := ready.wellFormed.opened home (List.mem_of_mem_head? sees.current)
    exact ⟨home, sees.changes ready.wellFormed leads.scopes leads.wellFormed leads.stack,
      (leads.scopes.frame present).node.trans here⟩
  distinct := ready.distinct
  unseen := ready.unseen
  lodged := ready.lodged.changes ready.wellFormed leads.scopes fun sample listed =>
    elsewhere sample listed ""
  ordered := ready.ordered

/-- So it is after the evaluation of others. -/
theorem onward (ready : before.Ready environment seen node (samples ++ others))
    (leads : before.Leads environment (placesOf samples) after) :
    after.Ready environment seen node others := by
  refine ready.second.leads leads fun other listed name inside => ?_
  exact Set.disjoint_left.mp (ready.apart []) ⟨other, listed, rfl⟩ (.inr inside)

/-- The scope of a comprehension that is opened is inside of the current one. -/
theorem opened {comprehension : Comprehension} {home : ScopeId}
    (ready : before.Ready environment seen node ((node, comprehension) :: samples))
    (current : before.scopes.current? = some home)
    (here : (before.scopes.scopeAt home).node = node) :
    let pushed := before.scopes.push comprehension.id .comprehension none
    (pushed.2.scopeAt pushed.1).IsSample ∧ (pushed.2.scopeAt pushed.1).parent = some home := by
  intro pushed
  cases known : before.scopes.scopeOf? comprehension.id with
  | some id =>
    obtain ⟨present, isNode⟩ := Scopes.of_scopeOf? known
    obtain ⟨isSample, outer, parent, around⟩ := ready.lodged id present _ List.mem_cons_self isNode
    have further : outer.index < before.scopes.all.size :=
      Nat.lt_trans (ready.wellFormed.outward id outer parent) present
    cases ready.wellFormed.distinct outer home further
      (ready.wellFormed.opened home (List.mem_of_mem_head? current)) (around.trans here.symm)
    have same : pushed = (id, { before.scopes with stack := id :: before.scopes.stack }) :=
      Scopes.push_of_known known .comprehension none
    rw [same]
    exact ⟨isSample, parent⟩
  | none =>
    have same : pushed = _ := Scopes.push_of_new known .comprehension none
    rw [same]
    dsimp only
    rw [Scopes.scopeAt_create, if_pos rfl]
    exact ⟨⟨rfl, rfl, rfl⟩, current⟩

/-- In the scope of a comprehension those inside of it can be evaluated. -/
theorem push {comprehension : Comprehension}
    (ready : before.Ready environment seen node ((node, comprehension) :: samples)) :
    Progress.Ready environment (insert comprehension.id seen) comprehension.id samples
      { before with scopes := (before.scopes.push comprehension.id .comprehension none).2 } := by
  obtain ⟨home, sees, here⟩ := ready.sees
  have old : before.Ready environment seen node samples :=
    ready.sublist (List.sublist_cons_self _ _)
  have other : ∀ sample ∈ samples, sample.2.id ≠ comprehension.id := by
    intro sample listed same
    refine (List.nodup_cons.mp ready.distinct).1 (List.mem_map.mpr ⟨sample, listed, same⟩)
  have changes : before.scopes.Changes {place | place.1 = comprehension.id}
      (before.scopes.push comprehension.id .comprehension none).2 :=
    .push before.scopes fun _ => rfl
  have grounded := ready.rest.grounded.changeScopes
    (within_push ready.rest.grounded.visible comprehension.id .comprehension none)
  exact {
    rest := (ready.rest.restsTo_of_store grounded rfl).rest
    wellFormed := ready.wellFormed.push _ _ trivial
    sees := ⟨_, sees.push ready.wellFormed (ready.opened sees.current here).2,
      (before.scopes.node_opened comprehension.id .comprehension none).2⟩
    distinct := old.distinct
    unseen := fun sample listed inside =>
      inside.elim (other sample listed) (old.unseen sample listed)
    lodged := old.lodged.changes ready.wellFormed changes other
    ordered := old.ordered }

end Progress.Ready

/-- An analysis that reads names in scopes that are seen, evaluates comprehensions, and runs
again. -/
abbrev Analysis.Recurs {α : Type} [Refers α] (environment : Environment) (seen : Set NodeId)
    (names : List String) (samples : List (NodeId × Comprehension)) (before : Progress)
    (analysis : Analysis α) : Prop :=
  analysis.Reruns environment (placesOf samples) (reading seen names samples) before

namespace Analysis.Recurs

variable {α β : Type} [Refers α] [Refers β] {environment : Environment} {seen : Set NodeId}
  {node : NodeId} {names more : List String} {samples others : List (NodeId × Comprehension)}
  {before : Progress}

/-- More names may be read. -/
theorem mono {analysis : Analysis α}
    (recurs : analysis.Recurs environment seen names samples before)
    (wider : names ⊆ more) : analysis.Recurs environment seen more samples before :=
  Reruns.mono recurs subset_rfl (reading_mono subset_rfl wider)

/-- What comes of one analysis is the start of the next one, in which other comprehensions are
evaluated. -/
theorem append {first : Analysis α} {next : α → Analysis β}
    (ready : before.Ready environment seen node (samples ++ others))
    (begins : first.Recurs environment seen names samples before)
    (continues : ∀ result middle (leads : before.Leads environment (placesOf samples) middle),
      middle.Ready environment seen node others →
        Within leads.rests.rest.grounded.references result →
        (next result).Recurs environment seen more others middle) :
    (first >>= next).Recurs environment seen (names ++ more) (samples ++ others) before := by
  have both := Reruns.bind begins
    (fun result middle leads within => continues result middle leads (ready.onward leads) within)
    (ready.apart names)
  rwa [reading_append, ← placesOf_append] at both

/-- In the scope of a comprehension, which is opened again when this is done again. -/
theorem inScope {comprehension : Comprehension} {body : ScopeId → Analysis α}
    (ready : before.Ready environment seen node ((node, comprehension) :: samples))
    (inside : ∀ home middle, before.RestsTo environment middle →
      middle.Ready environment (insert comprehension.id seen) comprehension.id samples →
        middle.scopes.current? = some home → (middle.scopes.scopeAt home).IsSample →
          (body home).Reruns environment (placesOf ((node, comprehension) :: samples))
            (reading seen names ((node, comprehension) :: samples)) middle) :
    (Analysis.inScope comprehension.id .comprehension none body).Recurs environment seen names
      ((node, comprehension) :: samples) before := by
  obtain ⟨home, sees, here⟩ := ready.sees
  have stack := before.scopes.stack_push comprehension.id .comprehension none
  have reruns := inside _ _ (Progress.Leads.opens ready.rest comprehension.id) ready.push
    (by rw [Scopes.current?, stack]; rfl) (ready.opened sees.current here).1
  intro result after returned
  rw [inScope_apply] at returned
  obtain ⟨last, done, rfl⟩ := withCleanup_eq_ok.mp returned
  obtain ⟨⟨leads, within⟩, again⟩ := reruns result last done
  refine ⟨⟨.bracket ready.rest (.push before.scopes fun _ => ⟨_, List.mem_cons_self, rfl⟩) leads,
    (Progress.Leads.closes leads.rests.rest before.scopes.depth).within within⟩,
    fun others later apart onward => ?_⟩
  obtain ⟨same, still, reopened⟩ := leads.reopens onward
  obtain ⟨final, repeated, unchanged⟩ := again others _ apart reopened
  refine ⟨_, ?_, .bracket onward.rests.rest still unchanged⟩
  rw [inScope_apply, same]
  exact withCleanup_of_ok repeated _

end Analysis.Recurs

/-- The places of names in the scope of a node, and some places elsewhere. -/
def declaring (node : NodeId) (names : List String) (places : Set (NodeId × String)) :
    Set (NodeId × String) :=
  {place | place.1 = node ∧ place.2 ∈ names} ∪ {place | place ∈ places ∧ place.1 ≠ node}

/-- In the scope of a node only those names changed whose values are different. -/
theorem Progress.Leads.declaring_of_same {environment : Environment} {node : NodeId}
    {home : ScopeId} {names : List String} {places : Set (NodeId × String)}
    {before after : Progress}
    (leads : before.Leads environment ({place | place.1 = node ∧ place.2 ∈ names} ∪ places) after)
    (present : home.index < before.scopes.all.size)
    (here : (before.scopes.scopeAt home).node = node)
    (same : ∀ name, name ∉ names → after.valueAt? home name = before.valueAt? home name) :
    before.Leads environment (declaring node names places) after := by
  have wide : before.Leads environment
      (declaring node names places ∪ {place | place.1 = node}) after := by
    refine leads.mono fun place inside => ?_
    by_cases isNode : place.1 = node
    · exact .inr isNode
    · exact .inl (inside.imp_right fun among => ⟨among, isNode⟩)
  refine wide.restrict present (fun _ isNode => isNode.trans here.symm) fun name outside => ?_
  exact same name fun listed => outside (.inl ⟨here, listed⟩)

/-- Clauses of a comprehension, which declare names in its scope. Each name has the value there that
it has afterwards, or that it had before, when they are evaluated again, and whatever they read
elsewhere is as it was: then all names have the values again that they had afterwards. -/
def Analysis.Restores (environment : Environment) (seen : Set NodeId) (node : NodeId)
    (home : ScopeId) (bound names : List String) (samples : List (NodeId × Comprehension))
    (before : Progress) (analysis : Analysis Unit) : Prop :=
  ∀ after, analysis environment before = .ok () after →
    before.Leads environment ({place | place.1 = node ∧ place.2 ∈ bound} ∪ placesOf samples) after ∧
    ∀ others later, Disjoint others (reading (seen \ {node}) names samples) →
      after.Leads environment others later →
        (∀ name, later.valueAt? home name = after.valueAt? home name ∨
          later.valueAt? home name = before.valueAt? home name) →
          ∃ last, analysis environment later = .ok () last ∧
            later.Leads environment {place | place.1 = node ∧ place.2 ∈ bound} last ∧
            ∀ name, last.valueAt? home name = after.valueAt? home name

namespace Progress.Ready

variable {environment : Environment} {seen : Set NodeId} {node : NodeId} {home : ScopeId}
  {samples : List (NodeId × Comprehension)} {before : Progress}
  (ready : before.Ready environment seen node samples)

include ready

theorem present (current : before.scopes.current? = some home) :
    home.index < before.scopes.all.size :=
  ready.wellFormed.opened home (List.mem_of_mem_head? current)

theorem here (current : before.scopes.current? = some home) :
    (before.scopes.scopeAt home).node = node := by
  obtain ⟨found, sees, here⟩ := ready.sees
  cases sees.current.symm.trans current
  exact here

theorem node_mem : node ∈ seen := by
  obtain ⟨home, sees, rfl⟩ := ready.sees
  exact sees.outward home List.mem_cons_self

/-- The current scope is not that of a comprehension to be evaluated. -/
theorem outside (name : String) : (node, name) ∉ placesOf samples := by
  rintro ⟨sample, listed, same⟩
  exact ready.unseen sample listed (same ▸ ready.node_mem)

end Progress.Ready

/-- What is evaluated first reads no name that is declared afterwards, and nothing of what changes
elsewhere then. -/
theorem Progress.Ready.unread {environment : Environment} {seen : Set NodeId} {node : NodeId}
    {samples others : List (NodeId × Comprehension)} {names bound : List String} {before : Progress}
    {changed : Set (NodeId × String)}
    (ready : before.Ready environment seen node (samples ++ others))
    (ordered : ∀ name ∈ names, name ∉ bound)
    (apart : Disjoint changed (reading (seen \ {node}) names samples)) :
    Disjoint (declaring node bound (placesOf others ∪ changed)) (reading seen names samples) := by
  rw [Set.disjoint_left]
  rintro place (⟨isNode, declared⟩ | ⟨among | among, isElsewhere⟩) isRead
  · rcases isRead with ⟨-, listed⟩ | sampled
    · exact ordered _ listed declared
    · exact ready.first.outside place.2 (isNode ▸ sampled)
  · exact Set.disjoint_left.mp (ready.apart names) among isRead
  · exact Set.disjoint_left.mp apart among (isRead.imp_left fun both =>
      ⟨⟨both.1, isElsewhere⟩, both.2⟩)

namespace Analysis.Restores

variable {α : Type} [Refers α] {environment : Environment} {seen : Set NodeId} {node : NodeId}
  {home : ScopeId} {bound names more : List String} {samples others : List (NodeId × Comprehension)}
  {before : Progress}

theorem nothing (ready : before.Ready environment seen node samples) :
    (Pure.pure () : Analysis Unit).Restores environment seen node home bound names samples
      before := by
  intro after returned
  cases returned
  refine ⟨.refl ready.rest ready.wellFormed, fun _ later _ onward alike => ⟨later, rfl,
    .refl onward.rests.rest onward.wellFormed, fun name => (alike name).elim id id⟩⟩

/-- Something is evaluated first, which reads no name that is declared afterwards. -/
theorem evaluated {first : Analysis α} {next : α → Analysis Unit}
    (ready : before.Ready environment seen node (samples ++ others))
    (current : before.scopes.current? = some home)
    (begins : first.Recurs environment seen names samples before)
    (continues : ∀ result middle (leads : before.Leads environment (placesOf samples) middle),
      middle.Ready environment seen node others →
        Within leads.rests.rest.grounded.references result →
        (next result).Restores environment seen node home bound more others middle)
    (ordered : ∀ name ∈ names, name ∉ bound) :
    (first >>= next).Restores environment seen node home bound (names ++ more) (samples ++ others)
      before := by
  have present := ready.present current
  have here := ready.here current
  intro after returned
  obtain ⟨found, middle, earlier, continued⟩ := bind_eq_ok.mp returned
  obtain ⟨⟨leads, given⟩, again⟩ := begins found middle earlier
  have readyNext := ready.onward leads
  obtain ⟨onward, further⟩ := continues found middle leads readyNext given after continued
  have still := Nat.lt_of_lt_of_le present leads.scopes.grown
  have hereNext := (leads.scopes.frame present).node.trans here
  have first (name : String) : middle.valueAt? home name = before.valueAt? home name :=
    leads.valueAt? present (here ▸ ready.first.outside name)
  refine ⟨(leads.append onward).mono ?_, fun changed later apart reached alike => ?_⟩
  · rw [placesOf_append, Set.union_left_comm]
  rw [← reading_append, Set.disjoint_union_right] at apart
  -- Since the first part nothing changed but what is declared afterwards, and places elsewhere.
  have since :
      middle.Leads environment (declaring node bound (placesOf others ∪ changed)) later := by
    refine .declaring_of_same ((onward.append reached).mono (Set.union_assoc ..).subset) still
      hereNext fun name undeclared => ?_
    have settled : after.valueAt? home name = middle.valueAt? home name :=
      onward.valueAt? still fun inside => by
        rw [hereNext] at inside
        exact inside.elim (fun declared => undeclared declared.2) (readyNext.outside name)
    exact (alike name).elim (·.trans settled) (·.trans (first name).symm)
  obtain ⟨last, repeated, unchanged⟩ := again _ later (ready.unread ordered apart.1) since
  have same (name : String) : last.valueAt? home name = later.valueAt? home name :=
    unchanged.valueAt? (Nat.lt_of_lt_of_le still since.scopes.grown) (Set.notMem_empty _)
  obtain ⟨final, ended, restoring, values⟩ := further changed last apart.2
    (reached.trans (unchanged.mono (Set.empty_subset _)))
    fun name => by
      rw [same, first]
      exact alike name
  exact ⟨final, by rw [bind_of_ok repeated, ended],
    (unchanged.mono (Set.empty_subset _)).trans restoring, values⟩

/-- Names are declared first, with values that do not depend on what was declared before. Where a
name is declared again with the value that it has afterwards, it keeps this value or gets one that
does not depend on it. -/
theorem declared {β : Type} [Refers β] {given : β} {declares next : Analysis Unit} {span : Span}
    (ready : before.Ready environment seen node samples)
    (current : before.scopes.current? = some home)
    (sample : (before.scopes.scopeAt home).IsSample)
    (within : Within ready.rest.grounded.references given)
    (declared : declares.Declares span bound given)
    (continues : ∀ middle, before.Leads environment {place | place.1 = node} middle →
      next.Restores environment seen node home more names samples middle) :
    (declares >>= fun _ => next).Restores environment seen node home (bound ++ more) names samples
      before := by
  obtain ⟨entries, rfl, among, mentions⟩ := declared
  have present := ready.present current
  have here := ready.here current
  -- The names that are declared are among those that may be.
  have inside {progress : Progress} (isNode : (progress.scopes.scopeAt home).node = node) :
      {place : NodeId × String | place.1 = (progress.scopes.scopeAt home).node ∧
        place.2 ∈ entries.map Prod.fst} ⊆ {place | place.1 = node ∧ place.2 ∈ bound} := by
    rintro place ⟨same, listed⟩
    obtain ⟨entry, isEntry, isName⟩ := List.mem_map.mp listed
    exact ⟨same.trans isNode, isName ▸ among entry isEntry⟩
  have wider {names : List String} (fewer : names ⊆ bound ++ more) :
      {place : NodeId × String | place.1 = node ∧ place.2 ∈ names} ⊆
        {place | place.1 = node ∧ place.2 ∈ bound ++ more} :=
    fun _ both => ⟨both.1, fewer both.2⟩
  intro after returned
  obtain ⟨_, middle, earlier, continued⟩ := bind_eq_ok.mp returned
  obtain ⟨_, done, leads, values⟩ :=
    declareAll_leads span entries ready.rest ready.wellFormed current sample (mentions _ within)
  cases done.symm.trans earlier
  have leads := leads.mono (inside here)
  obtain ⟨onward, further⟩ := continues middle (leads.mono fun _ both => both.1) after continued
  refine ⟨(leads.mono (wider (List.subset_append_left ..)) |>.mono Set.subset_union_left).trans
    (onward.mono (Set.union_subset_union_left _ (wider (List.subset_append_right ..)))),
    fun changed later apart reached alike => ?_⟩
  have whole := leads.append onward |>.append reached
  have hereLater := (whole.scopes.frame present).node.trans here
  obtain ⟨last, repeated, still, again⟩ := declareAll_leads span entries reached.rests.rest
    reached.wellFormed (whole.current?.trans current)
    (sample.of_sameFrame (whole.scopes.frame present)) (whole.rests.within (mentions _ within))
  have still := still.mono (inside hereLater)
  have unread : Disjoint {place : NodeId × String | place.1 = node ∧ place.2 ∈ bound}
      (reading (seen \ {node}) names samples) := by
    rw [Set.disjoint_left]
    rintro place ⟨isNode, -⟩ (⟨⟨-, isOther⟩, -⟩ | sampled)
    · exact isOther isNode
    · exact ready.outside place.2 (isNode ▸ sampled)
  have alikeNext (name : String) : last.valueAt? home name = after.valueAt? home name ∨
      last.valueAt? home name = middle.valueAt? home name := by
    rw [again]
    exact Value.afterAll_again (values name)
      (onward.valueAt?_none (Nat.lt_of_lt_of_le present leads.scopes.grown)) (alike name)
  obtain ⟨final, ended, restoring, restored⟩ := further _ last
    (Set.disjoint_union_left.mpr ⟨apart, unread⟩) (reached.append still) alikeNext
  exact ⟨final, by rw [bind_of_ok repeated, ended],
    (still.mono (wider (List.subset_append_left ..))).trans
      (restoring.mono (wider (List.subset_append_right ..))), restored⟩

/-- As a whole the clauses change values in their scope only, and leave them as they find them when
they are evaluated again and find them as they left them. -/
theorem reruns {clauses : Analysis Unit} (ready : before.Ready environment seen node samples)
    (current : before.scopes.current? = some home)
    (restores : clauses.Restores environment seen node home bound names samples before) :
    clauses.Reruns environment ({place | place.1 = node} ∪ placesOf samples)
      ({place | place.1 = node} ∪ reading seen names samples) before := by
  intro _ after returned
  obtain ⟨leads, again⟩ := restores after returned
  have own : {place : NodeId × String | place.1 = node ∧ place.2 ∈ bound} ⊆
      {place | place.1 = node} := fun _ both => both.1
  refine ⟨⟨leads.mono (Set.union_subset_union_left _ own), trivial⟩,
    fun others later apart onward => ?_⟩
  rw [Set.disjoint_union_right] at apart
  have present := ready.present current
  have there := Nat.lt_of_lt_of_le present leads.scopes.grown
  have here := (leads.scopes.frame present).node.trans (ready.here current)
  have same (name : String) : later.valueAt? home name = after.valueAt? home name :=
    onward.valueAt? there fun inside => Set.disjoint_left.mp apart.1 inside here
  obtain ⟨last, repeated, changes, restored⟩ := again others later
    (apart.2.mono_right (reading_mono Set.sdiff_subset (List.Subset.refl _))) onward
    fun name => .inl (same name)
  refine ⟨last, repeated, Progress.Leads.restrict (changes.mono Set.subset_union_right)
    (Nat.lt_of_lt_of_le there onward.scopes.grown) (fun place inside => ?_) fun name _ => ?_⟩
  · exact inside.1.trans ((onward.scopes.frame there).node.trans here).symm
  · rw [restored, same]

/-- Then something is evaluated with the names that were declared. All of this is what is evaluated
in the scope of a comprehension. -/
theorem followed {β : Type} [Refers β] {around : NodeId} {comprehension : Comprehension}
    {outer : Set NodeId} {clauses : Analysis Unit} {next : Analysis β}
    (ready : before.Ready environment (insert comprehension.id outer) comprehension.id
      (samples ++ others))
    (current : before.scopes.current? = some home)
    (restores : clauses.Restores environment (insert comprehension.id outer) comprehension.id home
      bound names samples before)
    (continues : ∀ middle, middle.Ready environment (insert comprehension.id outer) comprehension.id
      others → next.Recurs environment (insert comprehension.id outer) more others middle) :
    (clauses >>= fun _ => next).Reruns environment
      (placesOf ((around, comprehension) :: (samples ++ others)))
      (reading outer (names ++ more) ((around, comprehension) :: (samples ++ others))) before := by
  refine Reruns.mono (Reruns.bind (restores.reruns ready.first current)
    (fun _ middle leads _ => continues middle (ready.second.leads leads ?_)) ?_) ?_ ?_
  · rintro sample listed name (isOwn | sampled)
    · exact ready.second.outside name ⟨sample, listed, isOwn⟩
    · exact Set.disjoint_left.mp (ready.apart []) ⟨sample, listed, rfl⟩ (.inr sampled)
  · refine Set.disjoint_union_right.mpr ⟨Set.disjoint_left.mpr fun place inside isOwn => ?_,
      ready.apart names⟩
    exact ready.second.outside place.2 (show (comprehension.id, place.2) ∈ _ from isOwn ▸ inside)
  · rw [placesOf_cons, placesOf_append, Set.union_assoc]
  · rw [Set.union_assoc, reading_append]
    rintro place (isOwn | ⟨isOwn | isSeen, listed⟩ | sampled)
    · exact .inr (placesOf_cons _ _ ▸ .inl isOwn)
    · exact .inr (placesOf_cons _ _ ▸ .inl isOwn)
    · exact .inl ⟨isSeen, listed⟩
    · exact .inr (placesOf_cons _ _ ▸ .inr sampled)

end Analysis.Restores

namespace Engine

variable {environment : Environment} {depth : Nat}

/-- A name is looked up again. -/
theorem lookupName?_recurs {seen : Set NodeId} {node : NodeId} {names : List String}
    {samples : List (NodeId × Comprehension)} {before : Progress}
    (ready : before.Ready environment seen node samples) {name : String} (listed : name ∈ names)
    (reach : Reach) :
    (Analysis.lookupName? name reach).Recurs environment seen names samples before := by
  obtain ⟨_, sees, _⟩ := ready.sees
  exact .lookupName? ready.rest ready.wellFormed sees name reach
    fun _ isSeen => .inl ⟨isSeen, listed⟩

/-- A type hint is read again. -/
theorem readTypeHint_recurs {seen : Set NodeId} {node : NodeId} {names : List String}
    {samples : List (NodeId × Comprehension)} {before : Progress}
    (ready : before.Ready environment seen node samples) (hint : Expression)
    {evaluated : Analysis Value} (recurs : evaluated.Recurs environment seen names samples before) :
    (readTypeHint hint evaluated).Recurs environment seen (names ++ hint.textName) samples
      before := by
  have read : (evaluated >>= readType).Recurs environment seen (names ++ hint.textName) samples
      before := by
    refine .mono (.followed recurs fun value middle leads given => ?_) (List.subset_append_left ..)
    unfold readType
    split
    · exact .pure leads.rests.rest leads.wellFormed (Ty.Stands.mentions given)
    · exact .pure leads.rests.rest leads.wellFormed (within_builtinType _)
    · exact .pure leads.rests.rest leads.wellFormed within_unknownType
  have named {text : String} (listed : Blank.trim text ∈ names ++ hint.textName) :
      (Analysis.lookupName? (Blank.trim text) .everything >>= readNamed).Recurs environment seen
        (names ++ hint.textName) samples before := by
    refine .followed (lookupName?_recurs ready listed .everything)
      fun found middle leads given => ?_
    unfold readNamed
    split
    · exact .pure leads.rests.rest leads.wellFormed (Ty.Stands.mentions (given _ rfl))
    · exact .pure leads.rests.rest leads.wellFormed within_unknownType
  cases hint with
  | constant value span =>
    cases value with
    | str text => exact named (by simp [Expression.textName])
    | none => exact .pure ready.rest ready.wellFormed (within_builtinType _)
    | _ => exact .pure ready.rest ready.wellFormed within_unknownType
  | _ => exact read

mutual

/-- An expression is evaluated again as it was. -/
theorem evaluate_recurs (reach : Reach) : ∀ {expression : Expression} {seen : Set NodeId}
    {node : NodeId} {before : Progress},
      before.Ready environment seen node (expression.samples node) →
        ((Engine.atDepth depth).evaluate reach expression).Recurs environment seen expression.reads
          (expression.samples node) before
  | .constant value _, _, _, _, ready => by
    rw [evaluate]
    exact .pure ready.rest ready.wellFormed (within_constantObject value)
  | .name identifier, _, _, _, ready => by
    rw [evaluate]
    exact .map (lookupName?_recurs ready (by simp [Expression.reads]) reach) fun _ _ given =>
      given.getD within_unknown
  | .attribute target name _, _, _, _, ready => by
    simp only [Expression.samples] at ready
    simp only [evaluate, Expression.reads, Expression.samples]
    exact .followed (evaluate_recurs reach ready) fun value _ leads given =>
      attributeOf_reruns leads.rests.rest leads.wellFormed _ given
  | .index target position span, seen, node, _, ready => by
    simp only [Expression.samples] at ready
    simp only [evaluate_index, Expression.reads, Expression.samples]
    refine .append ready (evaluate_recurs reach ready.first)
      fun container middle _ ready given => ?_
    have single := evaluate_recurs reach ready
    have hinted := evaluate_recurs .everything ready
    -- Items of an index are taken apart here: the recursion has to see that they are smaller.
    have listed : ((Engine.atDepth depth).indexValues reach position).Recurs environment seen
          position.reads (position.samples node) middle ∧
        ((Engine.atDepth depth).indexTypes position).Recurs environment seen
          (position.reads ++ position.textNames) (position.samples node) middle := by
      have one : (do
            let value ← (Engine.atDepth depth).evaluate reach position
            return [value]).Recurs environment seen position.reads (position.samples node) middle ∧
          (do
            let ty ← readTypeHint position ((Engine.atDepth depth).evaluate .everything position)
            return [ty]).Recurs environment seen (position.reads ++ position.textName)
              (position.samples node) middle :=
        ⟨.map single fun _ _ given => (within_cons _ _).mpr ⟨given, within_nil⟩,
          .map (readTypeHint_recurs ready position hinted) fun _ _ given =>
            (within_cons _ _).mpr ⟨given, within_nil⟩⟩
      match position with
      | .display .tuple items _ =>
        simp only [Expression.samples] at ready
        exact ⟨evaluateItems_recurs reach items.length ready, evaluateTypeHints_recurs ready⟩
      | .display .list _ _ | .display .set _ _ | .constant _ _ | .name _ | .attribute _ _ _
      | .index _ _ _ | .slice _ _ _ _ | .call _ _ _ | .dict _ _ | .comprehension _ | .yield _ _
      | .unary _ _ _ | .binary _ _ _ _ => exact one
    split
    · exact .pure ready.rest ready.wellFormed within_unknown
    refine .readsStore ready.rest (fun later rests => by rw [rests.typeIndex given]) ?_
    cases indexed : typeIndex middle.store container with
    | parameters =>
      exact Recurs.mono (.map listed.1 fun _ _ _ => trivial) (List.subset_append_left ..)
    | arguments generic =>
      have present : middle.store.HasClass generic := within_typeIndex given indexed
      refine .followed listed.2 fun types last leads hinted => ?_
      exact .map (specialize_reruns leads.rests.rest leads.wellFormed
        (leads.rests.lasts.leads.hasClass present) (within_ofTypes hinted span)) fun _ _ isKnown =>
          isKnown
    | other =>
      dsimp only
      split
      · exact .pure ready.rest ready.wellFormed given
      · refine Recurs.mono (.followed single fun place last leads placed => ?_)
          (List.subset_append_left ..)
        exact itemAt_reruns leads.rests.rest leads.wellFormed (leads.rests.within given) placed _ _
  | .slice _ _ _ _, _, _, _, ready => by
    rw [evaluate]
    exact .pure ready.rest ready.wellFormed within_unknown
  | .call callee arguments span, seen, node, before, ready => by
    simp only [Expression.samples] at ready
    simp only [evaluate_call, Expression.reads, Expression.samples]
    -- The same for the object of a method that is called.
    have called : ((Engine.atDepth depth).calledValue reach callee).Recurs environment seen
        callee.reads (callee.samples node) before := by
      have ready := ready.first
      have plain : (do
          let function ← (Engine.atDepth depth).evaluate reach callee
          return (function, none) : Analysis (Value × Option Value)).Recurs environment seen
            callee.reads (callee.samples node) before :=
        .map (evaluate_recurs reach ready) fun _ _ given => ⟨given, within_none⟩
      match callee with
      | .attribute object name _ =>
        simp only [Expression.samples] at ready
        refine .followed (evaluate_recurs reach ready) fun target _ leads found => ?_
        refine .followed (attributeOf_reruns leads.rests.rest leads.wellFormed _ found)
          fun function _ onward given => .pure onward.rests.rest onward.wellFormed
            ⟨given, (within_some _).mpr (onward.rests.within found)⟩
      | .display _ _ _ | .constant _ _ | .name _ | .index _ _ _ | .slice _ _ _ _ | .call _ _ _
      | .dict _ _ | .comprehension _ | .yield _ _ | .unary _ _ _ | .binary _ _ _ _ => exact plain
    refine .append ready called fun found _ _ ready given => ?_
    refine .followed (evaluateArguments_recurs reach ready) fun values _ leads among => ?_
    exact callValue_reruns leads.rests.rest leads.wellFormed (leads.rests.within given.2) among.1
      among.2 span (leads.rests.within given.1)
  | .display kind items _, _, _, _, ready => by
    simp only [Expression.samples] at ready
    simp only [evaluate, Expression.reads, Expression.samples]
    exact .options (.map (evaluateItems_recurs reach _ ready) fun _ _ given =>
      (within_sequence _ _ _).mpr ⟨within_builtinType _, given⟩)
  | .dict entries _, _, _, _, ready => by
    simp only [Expression.samples] at ready
    simp only [evaluate, Expression.reads, Expression.samples]
    exact .options (.map (evaluateEntries_recurs reach _ ready) fun _ _ given =>
      (within_mapping _ _ _).mpr ⟨within_builtinType _, Refers.Within.foldl within_nil
        fun _ entry listed before => within_addEntry before (given entry listed)⟩)
  | .comprehension comprehension, _, _, _, ready => by
    simp only [Expression.samples] at ready
    simp only [evaluate, Expression.reads, Expression.samples]
    exact evaluateComprehension_recurs reach ready
  | .yield _ _, _, _, _, ready => by
    rw [evaluate]
    exact .pure ready.rest ready.wellFormed within_unknown
  | .unary operator operand span, _, _, _, ready => by
    simp only [Expression.samples] at ready
    simp only [evaluate, Expression.reads, Expression.samples]
    exact .followed (evaluate_recurs reach ready) fun _ _ leads given =>
      applyUnary_reruns leads.rests.rest leads.wellFormed operator given span
  | .binary left operator right span, _, _, _, ready => by
    simp only [Expression.samples] at ready
    simp only [evaluate, Expression.reads, Expression.samples]
    refine .append ready (evaluate_recurs reach ready.first)
      fun leftValue middle _ ready first => ?_
    exact .followed (evaluate_recurs reach ready) fun rightValue _ leads second =>
      applyBinary_reruns leads.rests.rest leads.wellFormed operator (leads.rests.within first)
        second
        span

/-- A comprehension is evaluated again as it was. -/
theorem evaluateComprehension_recurs (reach : Reach) : ∀ {comprehension : Comprehension}
    {seen : Set NodeId} {node : NodeId} {before : Progress},
      before.Ready environment seen node (Expression.comprehensionSamples node comprehension) →
        ((Engine.atDepth depth).evaluateComprehension reach comprehension).Recurs environment seen
          (Expression.comprehensionReads comprehension)
          (Expression.comprehensionSamples node comprehension) before
  | ⟨id, kind, element, value, clauses, span⟩, seen, node, before, ready => by
    simp only [Expression.comprehensionSamples] at ready
    simp only [evaluateComprehension, Expression.comprehensionReads,
      Expression.comprehensionSamples]
    refine .append ready (evaluateFirstIterable_recurs reach ready.first)
      fun iterable middle _ ready given => ?_
    by_cases generator : kind = .generator
    · simp only [if_pos generator]
      exact .pure ready.rest ready.wellFormed given
    simp only [if_neg generator] at ready ⊢
    refine .inScope ready fun home inner rests inside current sample => ?_
    have known := (within_some _).mpr (rests.within given)
    refine Restores.followed inside current
      (evaluateClauses_restores reach inside.first current sample known
        (ready.ordered _ List.mem_cons_self)) fun last ready => ?_
    refine .append ready (evaluate_recurs reach ready.first)
      fun elementValue _ _ ready sampledElement => ?_
    -- The value of an entry is evaluated only if there are entries.
    split
    · exact .followed (evaluateOptional_recurs reach ready) fun entryValue _ leads sampledValue =>
        .pure leads.rests.rest leads.wellFormed
          (within_sampled kind (leads.rests.within sampledElement) sampledValue)
    · exact .followed (.pure ready.rest ready.wellFormed within_unknown) fun entryValue _ leads
        sampledValue => .pure leads.rests.rest leads.wellFormed
          (within_sampled kind (leads.rests.within sampledElement) sampledValue)

theorem evaluateFirstIterable_recurs (reach : Reach) : ∀ {clauses : List Clause}
    {seen : Set NodeId} {node : NodeId} {before : Progress},
      before.Ready environment seen node (Expression.firstSamples node clauses) →
        ((Engine.atDepth depth).evaluateFirstIterable reach clauses).Recurs environment seen
          (Expression.firstReads clauses) (Expression.firstSamples node clauses) before
  | [], _, _, _, ready => by
    rw [evaluateFirstIterable]
    exact .pure ready.rest ready.wellFormed within_unknown
  | .iteration _ iterable _ :: _, _, _, _, ready => by
    simp only [Expression.firstSamples] at ready
    simp only [evaluateFirstIterable, Expression.firstReads, Expression.firstSamples]
    exact evaluate_recurs reach ready
  | .condition _ _ :: rest, _, _, _, ready => by
    simp only [Expression.firstSamples] at ready
    simp only [evaluateFirstIterable, Expression.firstReads, Expression.firstSamples]
    exact evaluateFirstIterable_recurs reach ready

/-- Clauses that are in order are evaluated again as they were. -/
theorem evaluateClauses_restores (reach : Reach) : ∀ {known : Option Value} {clauses : List Clause}
    {seen : Set NodeId} {node : NodeId} {home : ScopeId} {before : Progress}
    (ready : before.Ready environment seen node
      (Expression.clauseSamples node known.isNone clauses)),
      before.scopes.current? = some home → (before.scopes.scopeAt home).IsSample →
        Within ready.rest.grounded.references known → Clause.InOrder known.isNone clauses →
          ((Engine.atDepth depth).evaluateClauses reach known clauses).Restores environment seen
            node home (Clause.names clauses) (Expression.clauseReads known.isNone clauses)
            (Expression.clauseSamples node known.isNone clauses) before
  | known, [], _, _, _, _, ready, _, _, _, _ => by
    simp only [evaluateClauses]
    exact .nothing ready
  | known, .iteration target iterable span :: rest, seen, node, _, before, ready, current, sample,
      given, ordered => by
    simp only [Expression.clauseSamples] at ready
    simp only [evaluateClauses_iteration, Expression.clauseReads, Expression.clauseSamples,
      Clause.names]
    have iterated : ((Engine.atDepth depth).iterates reach known iterable).Recurs environment seen
        (if known.isNone = true then iterable.reads else [])
        (if known.isNone = true then iterable.samples node else []) before := by
      cases known with
      | some value => exact .pure ready.rest ready.wellFormed (given value rfl)
      | none => exact evaluate_recurs reach ready.first
    have present := ready.present current
    refine .evaluated ready current iterated (fun value middle leads ready given => ?_) ?_
    · have sample := sample.of_sameFrame (leads.scopes.frame present)
      have current := leads.current?.trans current
      have present := ready.present current
      refine .declared ready current sample given (.bindIterationTarget target value)
        fun last onward => ?_
      have still : last.Ready environment seen node
          (Expression.clauseSamples node (none : Option Value).isNone rest) :=
        ready.leads onward fun sampled listed _ isNode => ready.outside "" ⟨sampled, listed, isNode⟩
      exact evaluateClauses_restores reach still (onward.current?.trans current)
        (sample.of_sameFrame (onward.scopes.frame present)) within_none ordered.2
    · intro name listed
      split at listed
      · next unknown => exact ordered.1 unknown name listed
      · cases listed
  | known, .condition test _ :: rest, _, _, _, _, ready, current, sample, given, ordered => by
    simp only [Expression.clauseSamples] at ready
    simp only [evaluateClauses, Expression.clauseReads, Expression.clauseSamples, Clause.names]
    have present := ready.present current
    refine .evaluated ready current (evaluate_recurs reach ready.first)
      (fun _ _ leads ready _ => evaluateClauses_restores reach ready (leads.current?.trans current)
        (sample.of_sameFrame (leads.scopes.frame present)) (leads.rests.within given) ordered.2)
      ordered.1

theorem evaluateOptional_recurs (reach : Reach) : ∀ {expression : Option Expression}
    {seen : Set NodeId} {node : NodeId} {before : Progress},
      before.Ready environment seen node (Expression.optionalSamples node expression) →
        ((Engine.atDepth depth).evaluateOptional reach expression).Recurs environment seen
          (Expression.optionalReads expression) (Expression.optionalSamples node expression) before
  | none, _, _, _, ready => by
    rw [evaluateOptional]
    exact .pure ready.rest ready.wellFormed within_unknown
  | some expression, _, _, _, ready => by
    simp only [Expression.optionalSamples] at ready
    simp only [evaluateOptional, Expression.optionalReads, Expression.optionalSamples]
    exact evaluate_recurs reach ready

theorem evaluateItems_recurs (reach : Reach) (limit : Nat) : ∀ {items : List Expression}
    {seen : Set NodeId} {node : NodeId} {before : Progress},
      before.Ready environment seen node (Expression.itemSamples node items) →
        ((Engine.atDepth depth).evaluateItems reach limit items).Recurs environment seen
          (Expression.itemReads items) (Expression.itemSamples node items) before
  | [], _, _, _, ready => by
    rw [evaluateItems]
    exact .pure ready.rest ready.wellFormed within_nil
  | item :: rest, _, _, _, ready => by
    simp only [Expression.itemSamples] at ready
    simp only [Expression.itemReads, Expression.itemSamples]
    cases limit with
    | zero =>
      simp only [evaluateItems]
      exact .pure ready.rest ready.wellFormed within_nil
    | succ limit =>
      rw [evaluateItems]
      refine .append ready (evaluate_recurs reach ready.first) fun first middle _ ready given => ?_
      exact .followed (evaluateItems_recurs reach limit ready) fun others _ leads listed =>
        .pure leads.rests.rest leads.wellFormed
          ((within_cons _ _).mpr ⟨leads.rests.within given, listed⟩)

theorem evaluateTypeHints_recurs : ∀ {hints : List Expression} {seen : Set NodeId} {node : NodeId}
    {before : Progress}, before.Ready environment seen node (Expression.itemSamples node hints) →
      ((Engine.atDepth depth).evaluateTypeHints hints).Recurs environment seen
        (Expression.itemReads hints ++ hints.flatMap Expression.textName)
        (Expression.itemSamples node hints) before
  | [], _, _, _, ready => by
    rw [evaluateTypeHints]
    exact .pure ready.rest ready.wellFormed within_nil
  | hint :: rest, _, _, _, ready => by
    simp only [Expression.itemSamples] at ready
    simp only [Expression.itemReads, Expression.itemSamples, List.flatMap_cons]
    rw [evaluateTypeHints]
    refine .mono (.append ready (readTypeHint_recurs ready.first hint
      (evaluate_recurs .everything ready.first)) fun first middle _ ready given =>
        .followed (evaluateTypeHints_recurs ready) fun others _ leads listed =>
          .pure leads.rests.rest leads.wellFormed
            ((within_cons _ _).mpr ⟨leads.rests.within given, listed⟩)) fun name listed => ?_
    simp only [List.mem_append] at listed ⊢
    tauto

theorem evaluateEntries_recurs (reach : Reach) (limit : Nat) :
    ∀ {entries : List (Expression × Expression)} {seen : Set NodeId} {node : NodeId}
      {before : Progress},
      before.Ready environment seen node (Expression.entrySamples node entries) →
        ((Engine.atDepth depth).evaluateEntries reach limit entries).Recurs environment seen
          (Expression.entryReads entries) (Expression.entrySamples node entries) before
  | [], _, _, _, ready => by
    rw [evaluateEntries]
    exact .pure ready.rest ready.wellFormed within_nil
  | (key, value) :: rest, _, _, _, ready => by
    simp only [Expression.entrySamples] at ready
    simp only [Expression.entryReads, Expression.entrySamples]
    cases limit with
    | zero =>
      simp only [evaluateEntries]
      exact .pure ready.rest ready.wellFormed within_nil
    | succ limit =>
      rw [evaluateEntries]
      refine .append ready (evaluate_recurs reach ready.first) fun keyValue _ _ ready first => ?_
      refine .append ready (evaluate_recurs reach ready.first)
        fun entryValue _ onward ready given => ?_
      have first := onward.rests.within first
      exact .followed (evaluateEntries_recurs reach limit ready) fun others _ leads listed =>
        .pure leads.rests.rest leads.wellFormed ((within_cons _ _).mpr
          ⟨⟨leads.rests.within first, leads.rests.within given⟩, listed⟩)

theorem evaluateArguments_recurs (reach : Reach) : ∀ {arguments : List CallArgument}
    {seen : Set NodeId} {node : NodeId} {before : Progress},
      before.Ready environment seen node (Expression.argumentSamples node arguments) →
        ((Engine.atDepth depth).evaluateArguments reach arguments).Recurs environment seen
          (Expression.argumentReads arguments) (Expression.argumentSamples node arguments) before
  | [], _, _, _, ready => by
    rw [evaluateArguments]
    exact .pure ready.rest ready.wellFormed ⟨within_nil, within_nil⟩
  | ⟨passing, argument⟩ :: rest, _, _, _, ready => by
    simp only [Expression.argumentSamples] at ready
    simp only [evaluateArguments, Expression.argumentReads, Expression.argumentSamples]
    refine .append ready (evaluate_recurs reach ready.first) fun value _ _ ready given => ?_
    exact .followed (evaluateArguments_recurs reach ready) fun others _ leads evaluated =>
      .pure leads.rests.rest leads.wellFormed
        (within_add evaluated passing (leads.rests.within given))

end

/-- An expression that was evaluated gives the same value when it is evaluated again, and every
variable keeps the value that it has then, if no clause of a comprehension in it reads a name that
it binds itself or that a later clause binds. Comprehensions that are nested in any way may have
been evaluated before, if each of them is a node of its own and has its scope, if any, inside of the
scope that it is evaluated in.

Proof: of two analyses in a row the second one changes nothing that the first one reads, since what
changes are values in the scopes of comprehensions, and these are distinct. In the scope of a
comprehension itself, by induction on its clauses, each name has the value that it had at this time
or the one that it had in the end (`Analysis.Restores`), and these are the same for all names that
are read. -/
theorem evaluate_again_in_order (depth : Nat) {environment : Environment} {before after : Progress}
    {home : ScopeId} (reach : Reach) (expression : Expression) {value : Value}
    (rest : before.AtRest environment) (wellFormed : before.scopes.WellFormed)
    (current : before.scopes.current? = some home)
    (distinct : ((expression.samples (before.scopes.scopeAt home).node).map
      fun sample => sample.2.id).Nodup)
    (unseen : ∀ sample ∈ expression.samples (before.scopes.scopeAt home).node, ∀ outer,
      outer ∈ home :: before.scopes.around home ∨ before.scopes.moduleScope? = some outer →
        (before.scopes.scopeAt outer).node ≠ sample.2.id)
    (lodged : before.scopes.Lodges (expression.samples (before.scopes.scopeAt home).node))
    (ordered : ∀ sample ∈ expression.samples (before.scopes.scopeAt home).node, sample.2.InOrder)
    (returned : (Engine.atDepth depth).evaluate reach expression environment before =
      .ok value after) :
    ∃ last, (Engine.atDepth depth).evaluate reach expression environment after = .ok value last ∧
      last.scopes.all.size = after.scopes.all.size ∧
      ∀ id, id.index < after.scopes.all.size → ∀ name,
        last.valueAt? id name = after.valueAt? id name := by
  let seen : Set NodeId := {node | ∃ outer, (outer ∈ home :: before.scopes.around home ∨
    before.scopes.moduleScope? = some outer) ∧ (before.scopes.scopeAt outer).node = node}
  have ready : before.Ready environment seen (before.scopes.scopeAt home).node
      (expression.samples (before.scopes.scopeAt home).node) := {
    rest, wellFormed, distinct, lodged, ordered
    sees := ⟨home, ⟨current, fun outer listed => ⟨outer, .inl listed, rfl⟩,
      fun id found => ⟨id, .inr found, rfl⟩⟩, rfl⟩
    unseen := fun sample listed ⟨outer, isOuter, same⟩ => unseen sample listed outer isOuter same }
  obtain ⟨⟨leads, -⟩, again⟩ := evaluate_recurs reach ready value after returned
  obtain ⟨last, repeated, still⟩ := again ∅ after (Set.empty_disjoint _)
    (.refl leads.rests.rest leads.wellFormed)
  exact ⟨last, repeated, still.scopes.size_eq,
    fun id present name => still.valueAt? present (Set.notMem_empty _)⟩

end Engine

namespace Analyzer

/-- The progress of a fresh analyzer in the scope of a module. -/
def inModule : Progress :=
  { Registry.start with scopes := (Scopes.push {} NodeId.module .module none).2 }

theorem grounded_inModule : inModule.Grounded Registry.environment :=
  (Progress.Grounded.initial {}).changeScopes
    (within_push (Progress.Grounded.initial {}).visible NodeId.module .module none)

/-- A list of samples of one name. Each clause takes a name from a list of one item. -/
def sampling (element : String) (clauses : List (String × Expression)) : Comprehension :=
  ⟨⟨1⟩, .list, .ofName element, none, clauses.map fun clause =>
    .iteration (.ofName clause.1) (.display .list [clause.2] .unknown) .unknown, .unknown⟩

/-- The classes in what a comprehension gives, and in what it gives when it is evaluated again. What
is unknown has none. -/
def classesTwice (comprehension : Comprehension) :
    Analysis (List (Option ClassId) × List (Option ClassId)) := do
  let once ← (Engine.atDepth 1).evaluate .everything (.comprehension comprehension)
  let twice ← (Engine.atDepth 1).evaluate .everything (.comprehension comprehension)
  return (once.allTypes.map Ty.asClass?, twice.allTypes.map Ty.asClass?)

/-- A clause that reads the name of an earlier one: the samples are integers both times. -/
theorem evaluate_again_in_order_earlier :
    let comprehension := sampling "y" [("x", .constant (.int 1) .unknown), ("y", .ofName "x")]
    inModule.store.NoOverloadIs .pending ∧ comprehension.InOrder ∧ ∃ value after last,
      (Engine.atDepth 1).evaluate .everything (.comprehension comprehension) Registry.environment
          inModule = .ok value after ∧
        value.allTypes.map Ty.asClass? = [some (builtinClass .list), some (builtinClass .int)] ∧
        (Engine.atDepth 1).evaluate .everything (.comprehension comprehension) Registry.environment
          after = .ok value last := by
  intro comprehension
  have rest : inModule.AtRest Registry.environment :=
    ⟨grounded_inModule, by decide +kernel, by decide +kernel⟩
  have wellFormed : inModule.scopes.WellFormed :=
    Scopes.wellFormed_empty.push NodeId.module .module trivial
  have current : inModule.scopes.current? = some ⟨0⟩ := by decide +kernel
  have node : (inModule.scopes.scopeAt ⟨0⟩).node = NodeId.module := by decide +kernel
  have only {id : ScopeId} (present : id.index < inModule.scopes.all.size) : id = ⟨0⟩ :=
    Scopes.eq_of_index (Nat.lt_one_iff.mp
      ((show inModule.scopes.all.size = 1 by decide +kernel) ▸ present))
  have evaluated : (Expression.comprehension comprehension).samples NodeId.module =
      [(NodeId.module, comprehension)] := rfl
  have ordered : comprehension.InOrder := by decide +kernel
  have computed : (classesTwice comprehension).yields Registry.environment inModule
      ([some (builtinClass .list), some (builtinClass .int)],
        [some (builtinClass .list), some (builtinClass .int)]) = true := by
    decide +kernel
  obtain ⟨value, after, returned, continued⟩ := bind_eq_ok.mp (ok_of_yields computed)
  obtain ⟨_, _, _, ending⟩ := bind_eq_ok.mp continued
  injection ending with classes _
  obtain ⟨last, again, -⟩ := Engine.evaluate_again_in_order 1 .everything
    (.comprehension comprehension) rest wellFormed current
    (by rw [node, evaluated]; exact List.nodup_singleton _)
    (fun sample listed outer isOuter => by
      rw [node, evaluated, List.mem_singleton] at listed
      have present : outer.index < inModule.scopes.all.size := isOuter.elim
        (wellFormed.outward_lt (wellFormed.opened _ (List.mem_of_mem_head? current)))
        fun found => (Scopes.moduleScope?_eq_some.mp found).1.1
      rw [only present, node, listed]
      decide +kernel)
    (fun id present sample listed isNode => by
      rw [node, evaluated, List.mem_singleton] at listed
      rw [only present, listed] at isNode
      exact absurd (node.symm.trans isNode) (by decide +kernel))
    (fun sample listed => by
      rw [node, evaluated, List.mem_singleton] at listed
      exact listed ▸ ordered) returned
  exact ⟨rest.settled, ordered, value, after, last, returned, (Prod.mk.inj classes).1, again⟩

/-- A clause that reads the name of a later one: at first the name means nothing and the sample is
unknown, and the second time the name is declared from the start and the sample is a text. -/
theorem evaluate_again_differs :
    let comprehension := sampling "z" [("x", .constant (.int 1) .unknown), ("z", .ofName "y"),
      ("y", .constant (.str "s") .unknown)]
    inModule.store.NoOverloadIs .pending ∧ inModule.scopes.current? = some ⟨0⟩ ∧
      ¬comprehension.InOrder ∧ ∃ once middle twice after,
        (Engine.atDepth 1).evaluate .everything (.comprehension comprehension) Registry.environment
            inModule = .ok once middle ∧
          (Engine.atDepth 1).evaluate .everything (.comprehension comprehension)
            Registry.environment middle = .ok twice after ∧
          once.allTypes.map Ty.asClass? = [some (builtinClass .list)] ∧
          twice.allTypes.map Ty.asClass? = [some (builtinClass .list), some (builtinClass .str)] ∧
          twice ≠ once := by
  intro comprehension
  have computed : (classesTwice comprehension).yields Registry.environment inModule
      ([some (builtinClass .list)],
        [some (builtinClass .list), some (builtinClass .str)]) = true := by
    decide +kernel
  obtain ⟨once, middle, first, continued⟩ := bind_eq_ok.mp (ok_of_yields computed)
  obtain ⟨twice, after, second, ending⟩ := bind_eq_ok.mp continued
  injection ending with classes _
  obtain ⟨onceClasses, twiceClasses⟩ := Prod.mk.inj classes
  refine ⟨by decide +kernel, by decide +kernel, by decide +kernel, once, middle, twice, after,
    first,
    second, onceClasses, twiceClasses, fun same => ?_⟩
  rw [same, onceClasses] at twiceClasses
  cases twiceClasses

end Analyzer

end TypeInference
