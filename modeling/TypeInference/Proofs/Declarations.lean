import TypeInference.Proofs.Redirections
import TypeInference.Proofs.Rerunning
import TypeInference.Proofs.ScopeTables

/-!
# Names declared in order

Where a name is declared from within a scope does not depend on what was declared before. So after
several declarations each name has the variable that it had there, or the first one that was
declared, with the value that all of them leave; and every scope lists its names as before and then
the new ones in order.

Declared all at one place, names make the same of the scopes as declared where they stand, one of
them left out, exactly if that one has the value anyway which the others leave it with, and each of
the others has a variable already or stands at that place.
-/

namespace TypeInference

/-- A name at a place together with a value that it gets. -/
abbrev Named := Identifier × Value

/-- A name that counts as standing at another place. -/
def Named.placed (span : Span) (entry : Named) : Named :=
  ({ entry.1 with span }, entry.2)

/-- Scopes whose variables have the same distinct names in the same order have the same variables,
if these are found by their names. -/
theorem Scope.entries_eq {scope other : Scope} (names : scope.names = other.names)
    (distinct : scope.names.Nodup) (found : ∀ name, scope.find? name = other.find? name) :
    scope.entries = other.entries := by
  have otherDistinct : other.names.Nodup := names ▸ distinct
  have length : scope.entries.length = other.entries.length := by
    simpa [Scope.names] using congrArg List.length names
  refine List.ext_getElem length fun position inside insideOther => ?_
  have here := List.getElem?_eq_getElem inside
  have there := List.getElem?_eq_getElem insideOther
  have named : scope.entries[position].name = other.entries[position].name := by
    have both := congrArg (fun names => names[position]?) names
    simpa [Scope.names, here, there] using both
  have both := found scope.entries[position].name
  unfold Scope.find? at both
  rw [find?_of_place distinct here, named, find?_of_place otherDistinct there] at both
  exact Option.some.inj both

/-- A name that has a value keeps having one. -/
theorem Value.exists_afterAll (name : String) (entries : List (String × Value)) (value : Value) :
    ∃ final, afterAll name entries (some value) = some final := by
  cases left : afterAll name entries (some value) with
  | some final => exact ⟨final, rfl⟩
  | none => cases afterAll_none left

/-- A name that is not declared keeps its value. -/
theorem Value.afterAll_of_absent (name : String) (entries : List (String × Value))
    (before : Option Value) (absent : ∀ entry ∈ entries, entry.1 ≠ name) :
    afterAll name entries before = before := by
  induction entries with
  | nil => rfl
  | cons entry rest inductionHypothesis =>
    have both := List.forall_mem_cons.mp absent
    rw [afterAll, if_neg both.1]
    exact inductionHypothesis both.2

/-- What a variable is after it is declared again. -/
theorem Variable.refine_eq (existing again : Variable) : existing.refine again =
    { existing with
      value := again.value.after (some existing.value), node := again.node.or existing.node } := by
  unfold refine Value.after
  congr 1
  cases unknown : again.value.isUnknown with
  | false => simp
  | true =>
    cases already : existing.value.isUnknown with
    | false => simp
    | true =>
      have both {value : Value} (none : value.isUnknown = true) : value = .unknown := by
        cases value <;> first | rfl | cases none
      simp [both unknown, both already]

/-- What a name is found with after one more declaration. -/
theorem Scope.find?_insert (scope : Scope) (declared : Variable) (name : String) :
    (scope.insert declared).find? name =
      if declared.name = name then
        some (((scope.find? name).map fun known => known.refine declared).getD declared)
      else scope.find? name := by
  have inVariables (entries : List Variable) :
      ((declareIn declared entries).find? fun known => known.name = name) =
        if declared.name = name then
          some (((entries.find? fun known => known.name = name).map
            fun known => known.refine declared).getD declared)
        else entries.find? fun known => known.name = name := by
    induction entries with
    | nil => by_cases here : declared.name = name <;> simp [declareIn, here]
    | cons known rest inductionHypothesis =>
      rw [declareIn]
      by_cases same : known.name = declared.name
      · by_cases here : declared.name = name <;>
          simp [same, here]
      · by_cases first : known.name = name
        · have other : declared.name ≠ name := fun here => same (first.trans here.symm)
          rw [if_neg same, if_neg other, List.find?_cons_of_pos (by simpa using first),
            List.find?_cons_of_pos (by simpa using first)]
        · rw [if_neg same, List.find?_cons_of_neg (by simpa using first),
            List.find?_cons_of_neg (by simpa using first)]
          exact inductionHypothesis
  exact inVariables scope.entries

/-- The variable that a name makes where it is declared first. -/
def Named.declared (kind : VariableKind) (entry : Named) : Variable :=
  { name := entry.1.name, value := entry.2, kind, node := none, span := entry.1.span }

/-- A name with its value. -/
def Named.valued (entry : Named) : String × Value :=
  (entry.1.name, entry.2)

namespace Scopes

/-- A name is declared from within a scope, where it stands. -/
def declareName (id : ScopeId) (scopes : Scopes) (entry : Named) : Scopes :=
  let target := scopes.redirect id entry.1.name .local
  scopes.modifyScope target.1 (·.insert (entry.declared target.2))

/-- Names are declared from within a scope in order. -/
def declareNames (scopes : Scopes) (id : ScopeId) (entries : List Named) : Scopes :=
  entries.foldl (declareName id) scopes

/-- The variable that a declaration of a name from within a scope refines. -/
def variableFrom? (scopes : Scopes) (id : ScopeId) (name : String) : Option Variable :=
  (scopes.scopeAt (scopes.redirect id name .local).1).find? name

variable {scopes : Scopes} {id : ScopeId}

theorem declare_eq_declareName (current : scopes.current? = some id) (entry : Named) :
    scopes.declare entry.1.name entry.2 .local none entry.1.span =
      .ok (scopes.declareName id entry) :=
  declare_of_current current ..

theorem sameShape_declareName (id : ScopeId) (scopes : Scopes) (entry : Named) :
    scopes.SameShape (scopes.declareName id entry) :=
  sameShape_declared ..

/-- A declaration redirects nothing. -/
theorem redirections_declareName (entry : Named) (place : ScopeId) :
    ((scopes.declareName id entry).scopeAt place).globals = (scopes.scopeAt place).globals ∧
      ((scopes.declareName id entry).scopeAt place).nonlocals =
        (scopes.scopeAt place).nonlocals :=
  redirections_declared ..

theorem current?_declareName (entry : Named) :
    (scopes.declareName id entry).current? = scopes.current? :=
  congrArg List.head? (sameShape_declareName id scopes entry).stack

/-- What is chosen first stays chosen when nothing else than it starts to be wanted. -/
theorem find?_or_head?_of_wanted {α : Type} {wanted now : α → Bool} {items : List α} {chosen : α}
    (first : (items.find? wanted).or items.head? = some chosen) (hit : now chosen = true)
    (same : ∀ item, item ≠ chosen → now item = wanted item) :
    (items.find? now).or items.head? = some chosen := by
  rcases Option.or_eq_some_iff.mp first with found | ⟨-, head⟩
  · obtain ⟨hitBefore, front, rear, rfl, unwanted⟩ := List.find?_eq_some_iff_append.mp found
    refine Option.or_eq_some_iff.mpr (.inl (List.find?_eq_some_iff_append.mpr
      ⟨hit, front, rear, rfl, fun item listed => ?_⟩))
    have apart : item ≠ chosen := by
      rintro rfl
      simpa [hitBefore] using unwanted item listed
    rw [same item apart]
    exact unwanted item listed
  · obtain ⟨rest, rfl⟩ := List.head?_eq_some_iff.mp head
    rw [List.find?_cons_of_pos hit]
    rfl

/-- What a name is found with in a scope after a declaration. -/
theorem find?_declareName (entry : Named) (place : ScopeId) (name : String) :
    ((scopes.declareName id entry).scopeAt place).find? name =
      if (place = (scopes.redirect id entry.1.name .local).1 ∧ place.index < scopes.all.size) ∧
          entry.1.name = name then
        some ((((scopes.scopeAt place).find? name).map fun known =>
          known.refine (entry.declared (scopes.redirect id entry.1.name .local).2)).getD
            (entry.declared (scopes.redirect id entry.1.name .local).2))
      else (scopes.scopeAt place).find? name := by
  rw [declareName, scopeAt_modifyScope, ite_and _ (_ = name)]
  split
  · exact Scope.find?_insert _ (entry.declared _) name
  · rfl

/-- Which function a name is redirected to does not depend on what was declared before. -/
theorem enclosingFunction?_declareName (wellFormed : scopes.WellFormed)
    (present : id.index < scopes.all.size) (entry : Named) {name : String}
    (here : name ∉ (scopes.scopeAt id).globals) (passed : name ∈ (scopes.scopeAt id).nonlocals) :
    (scopes.declareName id entry).enclosingFunction? id name =
      scopes.enclosingFunction? id name := by
  have shape := sameShape_declareName id scopes entry
  unfold enclosingFunction?
  simp only [shape.around, shape.kind]
  cases first : scopes.enclosingFunction? id name with
  | none =>
    unfold enclosingFunction? at first
    obtain ⟨-, none⟩ := Option.or_eq_none_iff.mp first
    rw [List.head?_eq_none_iff.mp none]
    rfl
  | some function =>
    have target : (scopes.redirect id name .local).1 = function := by
      rw [redirect_fst, if_neg here, if_pos passed, first]
      rfl
    have inside : function.index < scopes.all.size :=
      target ▸ wellFormed.redirect_lt present name .local
    unfold enclosingFunction? at first
    rw [first]
    by_cases same : entry.1.name = name
    · refine find?_or_head?_of_wanted first ?_ fun item apart => ?_
      · simp [find?_declareName, same, target, inside]
      · simp [find?_declareName, same, target, apart]
    · simpa [find?_declareName, same] using first

/-- Where a name is declared does not depend on what was declared before. -/
theorem redirect_declareName (wellFormed : scopes.WellFormed) (present : id.index < scopes.all.size)
    (entry : Named) (name : String) :
    (scopes.declareName id entry).redirect id name .local = scopes.redirect id name .local := by
  have shape := sameShape_declareName id scopes entry
  obtain ⟨globals, nonlocals⟩ := @redirections_declareName scopes id entry id
  unfold redirect
  dsimp only
  rw [globals, nonlocals, shape.moduleScope?]
  split
  · rfl
  · next here =>
    split
    · next passed =>
      rw [enclosingFunction?_declareName wellFormed present entry
        (by simpa using here) (by simpa using passed)]
    · rfl

/-- The names of a scope after a declaration. -/
theorem names_declareName (entry : Named) {place : ScopeId}
    (present : place.index < scopes.all.size) :
    ((scopes.declareName id entry).scopeAt place).names =
      if place = (scopes.redirect id entry.1.name .local).1 ∧
          entry.1.name ∉ (scopes.scopeAt place).names then
        (scopes.scopeAt place).names ++ [entry.1.name]
      else (scopes.scopeAt place).names := by
  rw [declareName, scopeAt_modifyScope]
  by_cases here : place = (scopes.redirect id entry.1.name .local).1
  · rw [if_pos ⟨here, present⟩, Scope.names_insert]
    by_cases listed : entry.1.name ∈ (scopes.scopeAt place).names <;>
      simp [Named.declared, listed, ← here]
  · rw [if_neg fun both => here both.1, if_neg fun both => here both.1]

/-- Declared from within a scope that redirects nothing, names become variables of that scope. -/
theorem mem_names_declareNames (present : id.index < scopes.all.size)
    (globals : (scopes.scopeAt id).globals = []) (nonlocals : (scopes.scopeAt id).nonlocals = [])
    (entries : List Named) (name : String) :
    name ∈ ((scopes.declareNames id entries).scopeAt id).names ↔
      name ∈ (scopes.scopeAt id).names ∨ ∃ entry ∈ entries, entry.1.name = name := by
  induction entries generalizing scopes with
  | nil => simp [declareNames]
  | cons entry rest inductionHypothesis =>
    have here : (scopes.redirect id entry.1.name .local).1 = id := by
      simp [redirect, globals, nonlocals]
    have still := @redirections_declareName scopes id entry id
    refine (inductionHypothesis ((sameShape_declareName id scopes entry).size ▸ present)
      (still.1.trans globals) (still.2.trans nonlocals)).trans ?_
    have first : name ∈ ((scopes.declareName id entry).scopeAt id).names ↔
        name ∈ (scopes.scopeAt id).names ∨ entry.1.name = name := by
      rw [names_declareName entry present, here]
      by_cases listed : entry.1.name ∈ (scopes.scopeAt id).names
      · rw [if_neg fun both => both.2 listed]
        exact ⟨.inl, fun either => either.elim (fun already => already) fun same => same ▸ listed⟩
      · rw [if_pos ⟨rfl, listed⟩, List.mem_append, List.mem_singleton, eq_comm (a := name)]
    rw [first, or_assoc, List.exists_mem_cons_iff]

/-- Scopes that differ in the variables of names at most, each where it is declared from within one
of them. -/
structure Refilled (id : ScopeId) (scopes after : Scopes) : Prop where
  wellFormed : after.WellFormed
  stack : after.stack = scopes.stack
  size : after.all.size = scopes.all.size
  scopeAt : ∀ place, after.scopeAt place =
    { scopes.scopeAt place with entries := (after.scopeAt place).entries }
  redirect : ∀ name, after.redirect id name .local = scopes.redirect id name .local
  elsewhere : ∀ place name, place ≠ (scopes.redirect id name .local).1 →
    (after.scopeAt place).find? name = (scopes.scopeAt place).find? name

/-- Declarations in order, one more. -/
theorem declareNames_cons (entry : Named) (rest : List Named) :
    scopes.declareNames id (entry :: rest) = (scopes.declareName id entry).declareNames id rest :=
  rfl

theorem declareNames_append (first second : List Named) :
    scopes.declareNames id (first ++ second) =
      (scopes.declareNames id first).declareNames id second :=
  List.foldl_append

/-- Declarations open and close no scope. -/
theorem current?_declareNames (scopes : Scopes) (entries : List Named) :
    (scopes.declareNames id entries).current? = scopes.current? := by
  induction entries generalizing scopes with
  | nil => rfl
  | cons entry rest inductionHypothesis =>
    exact (inductionHypothesis _).trans (current?_declareName entry)

section Several

variable (wellFormed : scopes.WellFormed) (present : id.index < scopes.all.size)

include wellFormed present

theorem refilled_declareName (entry : Named) :
    Refilled id scopes (scopes.declareName id entry) where
  wellFormed := by
    have edited : scopes.Edited False (scopes.declareName id entry) :=
      .edit _ (.insert (entry.declared _)) nofun
    exact wellFormed.edited edited
  stack := rfl
  size := size_modifyScope ..
  scopeAt place := by
    rw [declareName, scopeAt_modifyScope]
    split <;> rfl
  redirect := redirect_declareName wellFormed present entry
  elsewhere place name apart := by
    rw [find?_declareName, if_neg]
    rintro ⟨⟨here, -⟩, rfl⟩
    exact apart here

theorem refilled_declareNames (entries : List Named) :
    Refilled id scopes (scopes.declareNames id entries) := by
  induction entries generalizing scopes with
  | nil => exact ⟨wellFormed, rfl, rfl, fun _ => rfl, fun _ => rfl, fun _ _ _ => rfl⟩
  | cons entry rest inductionHypothesis =>
    have first := refilled_declareName wellFormed present entry
    have others := inductionHypothesis first.wellFormed (first.size ▸ present)
    exact ⟨others.wellFormed, others.stack.trans first.stack, others.size.trans first.size,
      fun place => (others.scopeAt place).trans (by rw [first.scopeAt]; rfl),
      fun name => (others.redirect name).trans (first.redirect name), fun place name apart =>
        (others.elsewhere place name (first.redirect name ▸ apart)).trans
          (first.elsewhere place name apart)⟩

/-- A declaration refines the variable of its name, or makes it. -/
theorem variableFrom?_declareName (entry : Named) (name : String) :
    (scopes.declareName id entry).variableFrom? id name =
      if entry.1.name = name then
        some (((scopes.variableFrom? id name).map fun known =>
          known.refine (entry.declared (scopes.redirect id name .local).2)).getD
            (entry.declared (scopes.redirect id name .local).2))
      else scopes.variableFrom? id name := by
  unfold variableFrom?
  rw [redirect_declareName wellFormed present, find?_declareName]
  by_cases same : entry.1.name = name
  · subst same
    rw [if_pos ⟨⟨rfl, wellFormed.redirect_lt present ..⟩, rfl⟩, if_pos rfl]
  · rw [if_neg fun both => same both.2, if_neg same]

/-- The variable of a name after declarations in order. One that was there, or else the first that
is declared, has the value that these leave. -/
theorem variableFrom?_declareNames (entries : List Named) (name : String) :
    (scopes.declareNames id entries).variableFrom? id name =
      ((scopes.variableFrom? id name).or
        ((entries.find? fun entry => entry.1.name = name).map
          (Named.declared (scopes.redirect id name .local).2))).map fun found =>
        { found with
          value := (Value.afterAll name (entries.map Named.valued)
            ((scopes.variableFrom? id name).map (·.value))).getD found.value } := by
  induction entries generalizing scopes with
  | nil =>
    change scopes.variableFrom? id name = _
    cases found : scopes.variableFrom? id name <;> simp [Value.afterAll]
  | cons entry rest inductionHypothesis =>
    have first := refilled_declareName wellFormed present entry
    rw [declareNames_cons, inductionHypothesis first.wellFormed (first.size ▸ present),
      first.redirect, variableFrom?_declareName wellFormed present]
    simp only [List.map_cons, Value.afterAll, Named.valued]
    by_cases same : entry.1.name = name
    · cases found : scopes.variableFrom? id name with
      | none => simp [same, Named.declared, Value.after]
      | some known =>
        obtain ⟨final, left⟩ := Value.exists_afterAll name (rest.map Named.valued)
          (entry.2.after (some known.value))
        simp [same, Variable.refine_eq, Named.declared, left]
    · simp [same]

/-- The names of a scope after declarations in order. -/
theorem names_declareNames (entries : List Named) {place : ScopeId}
    (inside : place.index < scopes.all.size) :
    ((scopes.declareNames id entries).scopeAt place).names =
      (entries.filter fun entry => place = (scopes.redirect id entry.1.name .local).1).foldl
        (fun names entry => if entry.1.name ∈ names then names else names ++ [entry.1.name])
        (scopes.scopeAt place).names := by
  induction entries generalizing scopes with
  | nil => rfl
  | cons entry rest inductionHypothesis =>
    have first := refilled_declareName wellFormed present entry
    refine (inductionHypothesis first.wellFormed (first.size ▸ present)
      (first.size ▸ inside)).trans ?_
    simp only [first.redirect, names_declareName entry inside]
    by_cases here : place = (scopes.redirect id entry.1.name .local).1
    · simp [here]
    · simp [here]

end Several

/-- Scopes that were refilled from the same ones are equal if their names stand in the same order
and have the same variables where they are declared.

Proof: the names of a scope are distinct, so the variable at some place is the one that is found by
its name. Where that name is not declared, both have the variable that was there before. -/
theorem Refilled.eq {after other : Scopes} (one : Refilled id scopes after)
    (two : Refilled id scopes other)
    (names : ∀ place, (after.scopeAt place).names = (other.scopeAt place).names)
    (same : ∀ name, after.variableFrom? id name = other.variableFrom? id name) : after = other := by
  have found (place : ScopeId) (name : String) :
      (after.scopeAt place).find? name = (other.scopeAt place).find? name := by
    by_cases here : place = (scopes.redirect id name .local).1
    · have both := same name
      unfold variableFrom? at both
      rwa [one.redirect, two.redirect, ← here] at both
    · rw [one.elsewhere place name here, two.elsewhere place name here]
  refine ext_scopeAt (one.stack.trans two.stack.symm) (one.size.trans two.size.symm)
    fun place => ?_
  have entries : (after.scopeAt place).entries = (other.scopeAt place).entries :=
    Scope.entries_eq (names place) (one.wellFormed.contents place).names (found place)
  rw [one.scopeAt, two.scopeAt, entries]

/-- The names but one, if there is one to be left out. -/
def others (spared : Option String) (entries : List Named) : List Named :=
  entries.filter fun entry => spared ≠ some entry.1.name

theorem others_append (spared : Option String) (first second : List Named) :
    others spared (first ++ second) = others spared first ++ others spared second :=
  List.filter_append ..

theorem find?_placed (span : Span) (entries : List Named) (name : String) :
    (entries.map (Named.placed span)).find? (fun entry => entry.1.name = name) =
      (entries.find? fun entry => entry.1.name = name).map (Named.placed span) := by
  rw [List.find?_map]
  rfl

theorem valued_placed (span : Span) (entries : List Named) :
    (entries.map (Named.placed span)).map Named.valued = entries.map Named.valued := by
  rw [List.map_map]
  rfl

theorem find?_others (spared : Option String) (entries : List Named) (name : String) :
    (others spared entries).find? (fun entry => entry.1.name = name) =
      if spared = some name then none else entries.find? fun entry => entry.1.name = name := by
  unfold others
  rw [List.find?_filter]
  split
  · next left =>
    refine List.find?_eq_none.mpr fun entry _ => ?_
    by_cases here : entry.1.name = name <;> simp [here, left]
  · next kept =>
    congr 1
    funext entry
    by_cases here : entry.1.name = name <;> simp [here, kept]

theorem afterAll_others (spared : Option String) (entries : List Named) (name : String)
    (before : Option Value) :
    Value.afterAll name ((others spared entries).map Named.valued) before =
      if spared = some name then before
      else Value.afterAll name (entries.map Named.valued) before := by
  induction entries generalizing before with
  | nil => simp [others, Value.afterAll]
  | cons entry rest inductionHypothesis =>
    unfold others at inductionHypothesis ⊢
    by_cases left : spared = some entry.1.name
    · rw [List.filter_cons_of_neg (by simpa using left), inductionHypothesis]
      split
      · rfl
      · next kept =>
        have apart : entry.1.name ≠ name := fun same => kept (same ▸ left)
        simp [Value.afterAll, Named.valued, apart]
    · rw [List.filter_cons_of_pos (by simpa using left), List.map_cons, List.map_cons,
        Value.afterAll, Value.afterAll, inductionHypothesis]
      split
      · next same =>
        have apart : entry.1.name ≠ name := fun here => left (here ▸ same)
        simp [Named.valued, apart]
      · rfl

variable (scopes id) in
/-- Declarations leave the variable of a name as it is: the name is not among them, or it has a
value already, which is the one that they leave. -/
def Unmoved (entries : List Named) (name : String) : Prop :=
  (∃ entry ∈ entries, entry.1.name = name) → ∃ known, scopes.variableFrom? id name = some known ∧
    Value.afterAll name (entries.map Named.valued) (some known.value) = some known.value

variable (scopes id) in
/-- A name is declared at some place: there is a variable of the name already, or the first of its
declarations stands there. -/
def StandsAt (entries : List Named) (span : Span) (name : String) : Prop :=
  scopes.variableFrom? id name = none →
    ∀ first, (entries.find? fun entry => entry.1.name = name) = some first → first.1.span = span

section Placed

variable (wellFormed : scopes.WellFormed) (present : id.index < scopes.all.size)

include wellFormed present

/-- Declared at one place, a name that nothing spares has the variable that it has declared where it
stands, exactly if it stands at that place. -/
theorem variableFrom?_placed_iff (entries : List Named) (span : Span) {spared : Option String}
    {name : String} (kept : spared ≠ some name) :
    (scopes.declareNames id (entries.map (Named.placed span))).variableFrom? id name =
        (scopes.declareNames id (others spared entries)).variableFrom? id name ↔
      scopes.StandsAt id entries span name := by
  rw [variableFrom?_declareNames wellFormed present, variableFrom?_declareNames wellFormed present,
    find?_placed, valued_placed, find?_others, afterAll_others, if_neg kept, if_neg kept]
  unfold StandsAt
  cases found : scopes.variableFrom? id name with
  | some known => simp
  | none =>
    cases first : entries.find? fun entry => entry.1.name = name with
    | none => simp
    | some first => simp [Named.declared, Named.placed, eq_comm]

/-- A name that is spared has the variable that it would have if it were declared, exactly if
declarations do not move it. -/
theorem variableFrom?_spared_iff (entries : List Named) (span : Span) (name : String) :
    (scopes.declareNames id (entries.map (Named.placed span))).variableFrom? id name =
        (scopes.declareNames id (others (some name) entries)).variableFrom? id name ↔
      scopes.Unmoved id entries name := by
  rw [variableFrom?_declareNames wellFormed present, variableFrom?_declareNames wellFormed present,
    find?_placed, valued_placed, find?_others, afterAll_others, if_pos rfl, if_pos rfl]
  unfold Unmoved
  cases found : scopes.variableFrom? id name with
  | none =>
    cases first : entries.find? fun entry => entry.1.name = name with
    | none => simpa using first
    | some entry =>
      have named : entry.1.name = name := by simpa using List.find?_some first
      have listed : ∃ entry ∈ entries, entry.1.name = name :=
        ⟨entry, List.mem_of_find?_eq_some first, named⟩
      simp [listed]
  | some known =>
    obtain ⟨final, left⟩ := Value.exists_afterAll name (entries.map Named.valued) known.value
    have unmoved (absent : ¬∃ entry ∈ entries, entry.1.name = name) : final = known.value := by
      have kept := Value.afterAll_of_absent name (entries.map Named.valued) (some known.value)
        fun entry listed => by
          obtain ⟨given, isGiven, rfl⟩ := List.mem_map.mp listed
          exact fun same => absent ⟨given, isGiven, same⟩
      exact Option.some.inj (left.symm.trans kept)
    simp only [Option.map_some, Option.some_or, Option.getD_some, left, Option.some.injEq]
    constructor
    · intro same _
      exact ⟨known, rfl, left.trans (congrArg (fun found => some found.value) same)⟩
    · intro spares
      have same : final = known.value := by
        by_cases listed : ∃ entry ∈ entries, entry.1.name = name
        · obtain ⟨_, rfl, kept⟩ := spares listed
          exact Option.some.inj (left.symm.trans kept)
        · exact unmoved listed
      rw [same]

/-- Sparing a name that has a variable changes the order of no names. -/
theorem names_placed_eq (entries : List Named) (span : Span) {spared : Option String}
    (known : ∀ entry ∈ entries, spared = some entry.1.name →
      (scopes.variableFrom? id entry.1.name).isSome) (place : ScopeId) :
    ((scopes.declareNames id (entries.map (Named.placed span))).scopeAt place).names =
      ((scopes.declareNames id (others spared entries)).scopeAt place).names := by
  by_cases inside : place.index < scopes.all.size
  · rw [names_declareNames wellFormed present _ inside,
      names_declareNames wellFormed present _ inside]
    have listed : ∀ entry ∈ entries, spared = some entry.1.name →
        place = (scopes.redirect id entry.1.name .local).1 →
          entry.1.name ∈ (scopes.scopeAt place).names := by
      intro entry given isSpared here
      obtain ⟨found, there⟩ := Option.isSome_iff_exists.mp (known entry given isSpared)
      unfold variableFrom? at there
      rw [← here] at there
      have named : found.name = entry.1.name := by simpa using List.find?_some there
      exact List.mem_map.mpr ⟨found, List.mem_of_find?_eq_some there, named⟩
    clear known
    generalize (scopes.scopeAt place).names = names at listed
    induction entries generalizing names with
    | nil => rfl
    | cons entry rest inductionHypothesis =>
      obtain ⟨first, later⟩ := List.forall_mem_cons.mp listed
      by_cases here : place = (scopes.redirect id entry.1.name .local).1
      · by_cases isSpared : spared = some entry.1.name
        · have step := inductionHypothesis names later
          have known : entry.1.name ∈ names := first isSpared here
          simpa [others, isSpared, here, Named.placed, known] using step
        · have step := inductionHypothesis
            (if entry.1.name ∈ names then names else names ++ [entry.1.name])
            fun other listed isSpared there => by
              have known := later other listed isSpared there
              split
              · exact known
              · exact List.mem_append_left _ known
          simpa [others, isSpared, here, Named.placed] using step
      · have step := inductionHypothesis names later
        by_cases isSpared : spared = some entry.1.name <;>
          simpa [others, isSpared, here, Named.placed] using step
  · have outside := Nat.le_of_not_lt inside
    rw [scopeAt_of_size_le _ _ ((refilled_declareNames wellFormed present _).size ▸ outside),
      scopeAt_of_size_le _ _ ((refilled_declareNames wellFormed present _).size ▸ outside)]

/-- Declarations at one place make the same of the scopes as declarations where the names stand,
from which one name is left out, exactly if they do not move the variable of that name and every
other one is there already or stands at that place. -/
theorem declareNames_placed_iff (entries : List Named) (span : Span) (spared : Option String) :
    scopes.declareNames id (entries.map (Named.placed span)) =
        scopes.declareNames id (others spared entries) ↔
      (∀ name, spared = some name → scopes.Unmoved id entries name) ∧
        ∀ name, spared ≠ some name → scopes.StandsAt id entries span name := by
  constructor
  · intro same
    refine ⟨fun name isSpared => ?_, fun name kept => ?_⟩
    · subst isSpared
      exact (variableFrom?_spared_iff wellFormed present entries span name).mp (by rw [same])
    · exact (variableFrom?_placed_iff wellFormed present entries span kept).mp (by rw [same])
  · rintro ⟨unmoved, stands⟩
    refine (refilled_declareNames wellFormed present _).eq
      (refilled_declareNames wellFormed present _) ?_ fun name => ?_
    · refine names_placed_eq wellFormed present entries span fun entry listed isSpared => ?_
      obtain ⟨known, there, -⟩ := unmoved _ isSpared ⟨entry, listed, rfl⟩
      exact Option.isSome_iff_exists.mpr ⟨known, there⟩
    · by_cases isSpared : spared = some name
      · subst isSpared
        exact (variableFrom?_spared_iff wellFormed present entries span name).mpr (unmoved _ rfl)
      · exact (variableFrom?_placed_iff wellFormed present entries span isSpared).mpr
          (stands name isSpared)

end Placed

end Scopes

end TypeInference
