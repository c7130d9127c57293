import Mathlib.Data.List.Nodup
import TypeInference.Proofs.Redirections

/-!
# What look-ups see

A look-up takes what the current scope has, if it may look there, and otherwise goes outward and
takes the first variable of the name that is visible from inside. So what it finds outside of the
current scope is in a scope around it, and no scope in front of that one has the name and can be
seen; a class can be seen for the name of its cell only. A name that is redirected to the module is
found there or nowhere.

A look-up that may see more finds the name in the same scope or in a nearer one. And all that a
look-up changes is that a name found in a function around is recorded in the current scope.
-/

namespace TypeInference

/-- Whatever one reach permits, the other permits as well. -/
structure Reach.Within (narrow wide : Reach) : Prop where
  current : narrow.current = true → wide.current = true
  enclosing : narrow.enclosing = true → wide.enclosing = true
  module : narrow.module = true → wide.module = true
  builtins : narrow.builtins = true → wide.builtins = true

/-- The kinds of scopes whose variables can be seen from the scopes inside of them. -/
def Reach.Shows (reach : Reach) : ScopeKind → Prop
  | .module => reach.module = true
  | .functionBody | .comprehension => reach.enclosing = true
  | .classBody => False

/-- What is recorded as free is listed once, and makes the scope a closure. -/
theorem Scope.Distinct.markFree {scope : Scope} (distinct : scope.Distinct) (name : String) :
    (scope.markFree name).freeVariables.count name = 1 ∧
      (scope.markFree name).isClosure = true := by
  have listed : name ∈ (scope.markFree name).freeVariables := by
    unfold Scope.markFree
    split
    · next known => exact List.contains_iff_mem.mp known
    · exact List.mem_append_right _ (List.mem_singleton_self name)
  have once := scope.nodup_freeVariables_markFree name distinct.free
  refine ⟨List.count_eq_one_of_mem once listed, ?_⟩
  rw [Scope.isClosure, Bool.not_eq_true', List.isEmpty_eq_false_iff]
  exact List.ne_nil_of_mem listed

namespace Scopes

variable {scopes : Scopes} {id : ScopeId} {name : String} {reach wide : Reach}
  {found : ScopeId × Variable}

/-- What can be seen from inside, and for which name. -/
theorem visibleInside_iff {kind : ScopeKind} : visibleInside reach name kind = true ↔
    reach.Shows kind ∨ kind = .classBody ∧ name = classCell ∧ reach.enclosing = true := by
  cases kind <;> simp [visibleInside, Reach.Shows]

/-- What can be seen can be seen by whoever may see more. -/
theorem visibleInside_of_within (within : reach.Within wide) {kind : ScopeKind}
    (visible : visibleInside reach name kind = true) : visibleInside wide name kind = true := by
  rw [visibleInside_iff] at visible ⊢
  rcases visible with shown | ⟨isClass, cell, permitted⟩
  · left
    cases kind with
    | module => exact within.module shown
    | functionBody | comprehension => exact within.enclosing shown
    | classBody => exact shown
  · exact .inr ⟨isClass, cell, within.enclosing permitted⟩

/-- Around a scope, the first variable of a name is found that can be seen. -/
theorem findAround?_eq_some : scopes.findAround? id name reach = some found ↔
    ∃ nearer beyond, scopes.around id = nearer ++ found.1 :: beyond ∧
      visibleInside reach name (scopes.scopeAt found.1).kind = true ∧
      (scopes.scopeAt found.1).find? name = some found.2 ∧
      ∀ other ∈ nearer, visibleInside reach name (scopes.scopeAt other).kind = true →
        (scopes.scopeAt other).find? name = none := by
  have seen {outer : ScopeId} {variableThere : ScopeId × Variable} :
      (if visibleInside reach name (scopes.scopeAt outer).kind then scopes.variableIn? name outer
        else none) = some variableThere ↔
      visibleInside reach name (scopes.scopeAt outer).kind = true ∧ variableThere.1 = outer ∧
        (scopes.scopeAt outer).find? name = some variableThere.2 := by
    rw [Option.ite_none_right_eq_some, variableIn?_eq_some]
  have unseen {outer : ScopeId} :
      (if visibleInside reach name (scopes.scopeAt outer).kind then scopes.variableIn? name outer
        else none) = none ↔
      (visibleInside reach name (scopes.scopeAt outer).kind = true →
        (scopes.scopeAt outer).find? name = none) := by
    rw [ite_eq_right_iff, variableIn?, Option.map_eq_none_iff]
  unfold findAround?
  rw [List.findSome?_eq_some_iff]
  constructor
  · rintro ⟨nearer, outer, beyond, path, there, before⟩
    obtain ⟨visible, rfl, declared⟩ := seen.mp there
    exact ⟨nearer, beyond, path, visible, declared, fun other listed =>
      unseen.mp (before other listed)⟩
  · rintro ⟨nearer, beyond, path, visible, declared, before⟩
    exact ⟨nearer, found.1, beyond, path, seen.mpr ⟨visible, rfl, declared⟩, fun other listed =>
      unseen.mpr (before other listed)⟩

/-- Without a look around, a name is found in the current scope, or in that of the module if it is
redirected there. -/
theorem findHere?_eq_some (here : scopes.findHere? id name reach = some found) :
    (scopes.scopeAt found.1).find? name = some found.2 ∧
      if name ∈ (scopes.scopeAt id).globals then
        reach.module = true ∧ scopes.moduleScope? = some found.1
      else found.1 = id := by
  unfold findHere? at here
  simp only [List.contains_iff_mem] at here
  split at here
  · next redirected =>
    rw [Option.ite_none_right_eq_some] at here
    obtain ⟨permitted, inModule⟩ := here
    obtain ⟨module, isModule, declared⟩ := Option.bind_eq_some_iff.mp inModule
    obtain ⟨rfl, there⟩ := variableIn?_eq_some.mp declared
    exact ⟨there, by rw [if_pos redirected]; exact ⟨permitted, isModule⟩⟩
  · next other =>
    rw [Option.ite_none_right_eq_some] at here
    obtain ⟨same, there⟩ := variableIn?_eq_some.mp here.2
    rw [same, if_neg other]
    exact ⟨there, rfl⟩

/-- What is found without a look around is found so by whoever may see more. -/
theorem findHere?_of_within (within : reach.Within wide)
    (here : scopes.findHere? id name reach = some found) :
    scopes.findHere? id name wide = some found := by
  unfold findHere? at here ⊢
  dsimp only at here ⊢
  split at here
  · next redirected =>
    rw [Option.ite_none_right_eq_some] at here
    rw [if_pos redirected, if_pos (within.module here.1)]
    exact here.2
  · next other =>
    rw [Option.ite_none_right_eq_some, Bool.and_eq_true, Bool.or_eq_true, Bool.and_eq_true] at here
    obtain ⟨⟨permitted, own⟩, there⟩ := here
    rw [if_neg other, if_pos ?_]
    · exact there
    · rw [Bool.and_eq_true, Bool.or_eq_true, Bool.and_eq_true]
      exact ⟨permitted.imp within.current fun both => ⟨both.1, within.module both.2⟩, own⟩

/-- Where a look-up in the current scope ends. -/
theorem lookup_cases (current : scopes.current? = some id) (name : String) (reach : Reach) :
    (∃ found, scopes.findHere? id name reach = some found ∧
        scopes.lookup name reach = (some found, scopes)) ∨
      (∃ found, scopes.findHere? id name reach = none ∧ name ∉ (scopes.scopeAt id).globals ∧
        scopes.findAround? id name reach = some found ∧
        scopes.lookup name reach = (some found, scopes.recordFree id name found.1)) ∨
      scopes.lookup name reach = (none, scopes) := by
  unfold lookup
  rw [current]
  dsimp only
  cases here : scopes.findHere? id name reach with
  | some found => exact .inl ⟨found, rfl, rfl⟩
  | none =>
    dsimp only
    split
    · exact .inr (.inr rfl)
    · next other =>
      cases around : scopes.findAround? id name reach with
      | none => exact .inr (.inr rfl)
      | some found =>
        refine .inr (.inl ⟨found, rfl, fun listed => other ?_, rfl, rfl⟩)
        exact List.contains_iff_mem.mpr listed

/-- Without an open scope there is nothing to be found. -/
theorem lookup_of_closed (closed : scopes.current? = none) (name : String) (reach : Reach) :
    scopes.lookup name reach = (none, scopes) := by
  unfold lookup
  rw [closed]

/-- What is found is a variable of the scope that it is found in. Outside of the current scope, that
scope is around the current one, or it is the module to which the name is redirected; it is a class
for the name of the cell only; and unless the name is redirected there, no scope in front of it
shows the name. -/
theorem lookup_sees (current : scopes.current? = some id)
    (looked : (scopes.lookup name reach).1 = some found) :
    (scopes.scopeAt found.1).find? name = some found.2 ∧ (found.1 ≠ id →
      (found.1 ∈ scopes.around id ∨
        name ∈ (scopes.scopeAt id).globals ∧ scopes.moduleScope? = some found.1) ∧
      ((scopes.scopeAt found.1).kind = .classBody → name = classCell) ∧
      (name ∉ (scopes.scopeAt id).globals →
        ∃ nearer beyond, scopes.around id = nearer ++ found.1 :: beyond ∧
          ∀ other ∈ nearer, reach.Shows (scopes.scopeAt other).kind →
            (scopes.scopeAt other).find? name = none)) := by
  rcases lookup_cases current name reach with
    ⟨there, here, same⟩ | ⟨there, -, -, around, same⟩ | none
  · rw [same] at looked
    cases looked
    obtain ⟨declared, place⟩ := findHere?_eq_some here
    refine ⟨declared, fun apart => ?_⟩
    split at place
    · next redirected =>
      refine ⟨.inr ⟨redirected, place.2⟩, fun isClass => ?_, fun other => absurd redirected other⟩
      cases (moduleScope?_eq_some.mp place.2).1.2.symm.trans isClass
    · exact absurd place apart
  · rw [same] at looked
    cases looked
    obtain ⟨nearer, beyond, path, visible, declared, before⟩ := findAround?_eq_some.mp around
    refine ⟨declared, fun apart => ⟨.inl ?_, fun isClass => ?_, fun _ => ?_⟩⟩
    · rw [path]
      exact List.mem_append_right _ List.mem_cons_self
    · rw [visibleInside_iff, isClass] at visible
      exact visible.elim False.elim fun cell => cell.2.1
    · exact ⟨nearer, beyond, path, fun other listed shown =>
        before other listed (visibleInside_iff.mpr (.inl shown))⟩
  · rw [none] at looked
    cases looked

/-- A look-up that may see more finds the name as well, in the same scope or in one that is nearer
on the way outward. -/
theorem lookup_of_within (within : reach.Within wide) (current : scopes.current? = some id)
    (looked : (scopes.lookup name reach).1 = some found) :
    ∃ wider, (scopes.lookup name wide).1 = some wider ∧ (wider.1 = found.1 ∨
      ∃ nearer beyond,
        id :: scopes.around id = nearer ++ found.1 :: beyond ∧ wider.1 ∈ nearer) := by
  rcases lookup_cases current name reach with ⟨there, here, same⟩ |
    ⟨there, -, other, around, same⟩ | none
  · rw [same] at looked
    cases looked
    refine ⟨found, ?_, .inl rfl⟩
    rw [lookup_of_current current, findHere?_of_within within here]
    rfl
  · rw [same] at looked
    cases looked
    obtain ⟨nearer, beyond, path, visible, declared, before⟩ := findAround?_eq_some.mp around
    have along : id :: scopes.around id = (id :: nearer) ++ found.1 :: beyond :=
      congrArg (id :: ·) path
    rw [lookup_of_current current]
    cases here : scopes.findHere? id name wide with
    | some wider =>
      have place := (findHere?_eq_some here).2
      rw [if_neg other] at place
      exact ⟨wider, rfl, .inr ⟨_, beyond, along, place ▸ List.mem_cons_self⟩⟩
    | none =>
      -- The scopes in front of the first hit are asked first, and now perhaps seen.
      have unredirected : ((scopes.scopeAt id).globals.contains name) = false := by
        simpa using other
      have first : scopes.findAround? id name wide = _ := congrArg (List.findSome? _) path
      rw [unredirected, Option.none_or, if_neg Bool.false_ne_true, first, List.findSome?_append,
        List.findSome?_cons, if_pos (visibleInside_of_within within visible),
        variableIn?_eq_some.mpr ⟨rfl, declared⟩]
      cases earlier : nearer.findSome? fun outer =>
        if visibleInside wide name (scopes.scopeAt outer).kind then scopes.variableIn? name outer
        else none with
      | none => exact ⟨found, rfl, .inl rfl⟩
      | some wider =>
        obtain ⟨outer, listed, there⟩ := List.exists_of_findSome?_eq_some earlier
        rw [Option.ite_none_right_eq_some] at there
        have place := (variableIn?_eq_some.mp there.2).1
        exact ⟨wider, rfl, .inr ⟨_, beyond, along, place ▸ List.mem_cons_of_mem _ listed⟩⟩
  · rw [none] at looked
    cases looked

/-- Recording a name changes one scope. -/
theorem scopeAt_recordFree (present : id.index < scopes.all.size) (name : String)
    (hit other : ScopeId) : (scopes.recordFree id name hit).scopeAt other =
      if other = id ∧ (scopes.scopeAt hit).kind = .functionBody then
        (scopes.scopeAt other).markFree name
      else scopes.scopeAt other := by
  unfold recordFree
  by_cases isFunction : (scopes.scopeAt hit).kind = .functionBody
  · rw [if_pos isFunction, scopeAt_modifyScope]
    by_cases same : other = id
    · subst same
      rw [if_pos ⟨rfl, present⟩, if_pos ⟨rfl, isFunction⟩]
    · rw [if_neg fun both => same both.1, if_neg fun both => same both.1]
  · rw [if_neg isFunction, if_neg fun both => isFunction both.2]

/-- A look-up opens, closes and creates no scope, and changes the current one only, and only if the
name is found in a function around: it is recorded as free then. -/
theorem WellFormed.lookup_records (wellFormed : scopes.WellFormed) (name : String)
    (reach : Reach) (other : ScopeId) :
    (scopes.lookup name reach).2.scopeAt other =
      if scopes.current? = some other ∧ ∃ found, (scopes.lookup name reach).1 = some found ∧
          found.1 ≠ other ∧ (scopes.scopeAt found.1).kind = .functionBody then
        (scopes.scopeAt other).markFree name
      else scopes.scopeAt other := by
  cases current : scopes.current? with
  | none =>
    rw [lookup_of_closed current, if_neg fun both => Option.some_ne_none other both.1.symm]
  | some id =>
    have present := wellFormed.opened id (List.mem_of_mem_head? current)
    rcases lookup_cases current name reach with ⟨found, here, same⟩ |
      ⟨found, -, -, around, same⟩ | none
    · rw [same, if_neg ?_]
      rintro ⟨isCurrent, hit, looked, apart, isFunction⟩
      cases isCurrent
      cases looked
      have place := (findHere?_eq_some here).2
      split at place
      · cases (moduleScope?_eq_some.mp place.2).1.2.symm.trans isFunction
      · exact apart place
    · obtain ⟨nearer, beyond, path, -⟩ := findAround?_eq_some.mp around
      have outside : found.1 ≠ id := fun itself => wellFormed.not_mem_around id <| by
        rw [path, itself]
        exact List.mem_append_right _ List.mem_cons_self
      rw [same, scopeAt_recordFree present]
      refine if_congr ⟨?_, ?_⟩ rfl rfl
      · rintro ⟨rfl, isFunction⟩
        exact ⟨rfl, found, rfl, outside, isFunction⟩
      · rintro ⟨isCurrent, hit, looked, -, isFunction⟩
        cases looked
        exact ⟨(Option.some.inj isCurrent).symm, isFunction⟩
    · rw [none, if_neg fun both => ?_]
      obtain ⟨-, found, impossible, -⟩ := both
      cases impossible

/-- Look-ups respect what may be seen: what is found is the nearest that is visible, seeing more
finds the same or something nearer, and nothing changes but that a name of a function around is
recorded in the current scope, once.

Proof: a look-up takes the first variable of the name along the way outward among those that are
visible. With more to be seen, whatever was found is seen still, and only scopes in front of it can
come before. -/
theorem lookup_respects_visibility {operations : List ScopeOperation}
    (admitted : Scopes.empty.AdmitsAll operations) (name : String) {reach wide : Reach}
    (within : reach.Within wide) :
    let scopes := reached operations
    let after := (scopes.lookup name reach).2
    (∀ id found, scopes.current? = some id → (scopes.lookup name reach).1 = some found →
      (scopes.scopeAt found.1).find? name = some found.2 ∧
      (found.1 ≠ id →
        (found.1 ∈ scopes.around id ∨
          name ∈ (scopes.scopeAt id).globals ∧ scopes.moduleScope? = some found.1) ∧
        ((scopes.scopeAt found.1).kind = .classBody → name = classCell) ∧
        (name ∉ (scopes.scopeAt id).globals →
          ∃ nearer beyond, scopes.around id = nearer ++ found.1 :: beyond ∧
            ∀ other ∈ nearer, reach.Shows (scopes.scopeAt other).kind →
              (scopes.scopeAt other).find? name = none)) ∧
      ∃ wider, (scopes.lookup name wide).1 = some wider ∧ (wider.1 = found.1 ∨
        ∃ nearer beyond, id :: scopes.around id = nearer ++ found.1 :: beyond ∧
          wider.1 ∈ nearer)) ∧
    after.stack = scopes.stack ∧ after.all.size = scopes.all.size ∧
    ∀ other : ScopeId,
      if scopes.current? = some other ∧ ∃ found, (scopes.lookup name reach).1 = some found ∧
          found.1 ≠ other ∧ (scopes.scopeAt found.1).kind = .functionBody then
        after.scopeAt other = { scopes.scopeAt other with
          freeVariables := if name ∈ (scopes.scopeAt other).freeVariables
            then (scopes.scopeAt other).freeVariables
            else (scopes.scopeAt other).freeVariables ++ [name] } ∧
        (after.scopeAt other).freeVariables.count name = 1 ∧
        (after.scopeAt other).isClosure = true
      else after.scopeAt other = scopes.scopeAt other := by
  intro scopes after
  have wellFormed : scopes.WellFormed := wellFormed_reached admitted
  refine ⟨fun id found current looked => ?_, stack_lookup .., ?_, fun other => ?_⟩
  · obtain ⟨declared, outside⟩ := lookup_sees current looked
    exact ⟨declared, outside, lookup_of_within within current looked⟩
  · exact (edited_lookup scopes name reach).sameShape.size
  · have recorded := wellFormed.lookup_records name reach other
    split
    · next free =>
      rw [if_pos free] at recorded
      obtain ⟨once, closes⟩ := (wellFormed.contents other).markFree name
      refine ⟨recorded.trans ?_, recorded ▸ once, recorded ▸ closes⟩
      unfold Scope.markFree
      simp only [List.contains_iff_mem]
      split <;> rfl
    · next kept =>
      rw [if_neg kept] at recorded
      exact recorded

/-- In a function inside of a class inside of a function, a look-up that may see functions finds the
variable of the outer one behind that of the class, and one that may see everything the same. -/
theorem lookup_respects_visibility_nested :
    let operations : List ScopeOperation := [.push ⟨0⟩ .module none,
      .declare "total" (Store.constantObject (.int 1)) .local none default,
      .push ⟨1⟩ .functionBody none,
      .declare "total" (Store.constantObject (.str "s")) .local none default,
      .push ⟨2⟩ .classBody none,
      .declare "total" (Store.constantObject .none) .local none default,
      .push ⟨3⟩ .functionBody none]
    let scopes := reached operations
    let narrow : Reach := { enclosing := true, module := true }
    narrow.Within .everything ∧ (∃ found, (scopes.lookup "total" narrow).1 = some found ∧
      found.1 = ⟨1⟩ ∧ ⟨1⟩ ∈ scopes.around ⟨3⟩ ∧
      ∃ wider, (scopes.lookup "total" .everything).1 = some wider ∧ wider.1 = ⟨1⟩) ∧
      ((scopes.lookup "total" narrow).2.scopeAt ⟨3⟩).freeVariables = ["total"] := by
  intro operations scopes narrow
  have admitted : Scopes.empty.AdmitsAll operations := by decide +kernel
  have within : narrow.Within .everything :=
    ⟨fun _ => rfl, fun _ => rfl, fun _ => rfl, fun _ => rfl⟩
  have current : scopes.current? = some ⟨3⟩ := by decide +kernel
  have hit : ((scopes.lookup "total" narrow).1.map (·.1)) = some ⟨1⟩ := by decide +kernel
  obtain ⟨found, looked, place⟩ := Option.map_eq_some_iff.mp hit
  have apart : found.1 ≠ ⟨3⟩ := by
    rw [place]
    decide
  obtain ⟨finds, -, -, records⟩ := lookup_respects_visibility admitted "total" within
  obtain ⟨-, outside, wider, widely, -⟩ := finds ⟨3⟩ found current looked
  have wideHit : ((scopes.lookup "total" .everything).1.map (·.1)) = some ⟨1⟩ := by decide +kernel
  refine ⟨within, ⟨found, looked, place, ?_, wider, widely, ?_⟩, ?_⟩
  · exact place ▸ (outside apart).1.resolve_right fun both => absurd both.1 (by decide +kernel)
  · rw [show (scopes.lookup "total" .everything).1 = some wider from widely] at wideHit
    exact Option.some.inj wideHit
  · have recorded := records ⟨3⟩
    rw [if_pos ⟨current, found, looked, apart, place ▸ by decide +kernel⟩] at recorded
    rw [show ((scopes.lookup "total" narrow).2.scopeAt ⟨3⟩) = _ from recorded.1]
    decide +kernel

end Scopes

end TypeInference
