import TypeInference.Proofs.Resting

/-!
# What is done again changes nothing

An analysis that gives a result at rest, and that is done again later, gives the same result and
leaves everything as it is: the specializations that it has made are there then, and whatever else
it reads has not changed. This goes for substitution, for calls and for attributes. The later time
may be any that the analysis leads to while specializations are made and nothing else.
-/

namespace TypeInference

open Analysis Store

/-- An analysis that leads from rest to rest, and that gives its result again, and changes nothing,
wherever that leads. -/
def Analysis.Repeats {α : Type} (environment : Environment) (before : Progress)
    (analysis : Analysis α) : Prop :=
  ∀ result after, analysis environment before = .ok result after →
    before.RestsTo environment after ∧
      ∀ later, after.RestsTo environment later → analysis environment later = .ok result later

namespace Analysis.Repeats

variable {α β : Type} {environment : Environment} {before : Progress}

/-- An analysis that changes nothing, and has one result wherever progress is at rest. -/
theorem still {analysis : Analysis α} {result : α} (rest : before.AtRest environment)
    (gives : ∀ later : Progress, later.AtRest environment →
      analysis environment later = .ok result later) : analysis.Repeats environment before := by
  intro found after returned
  cases (gives before rest).symm.trans returned
  exact ⟨.refl rest, fun later rests => gives later rests.rest⟩

theorem pure (rest : before.AtRest environment) (result : α) :
    (Pure.pure result : Analysis α).Repeats environment before :=
  .still rest fun _ _ => rfl

theorem throw (failure : Failure) : (throw failure : Analysis α).Repeats environment before :=
  fun _ _ => nofun

theorem bind {first : Analysis α} {next : α → Analysis β}
    (begins : first.Repeats environment before)
    (continues : ∀ result middle, first environment before = .ok result middle →
      before.RestsTo environment middle → (next result).Repeats environment middle) :
    (first >>= next).Repeats environment before := by
  intro result after returned
  obtain ⟨found, middle, earlier, continued⟩ := bind_eq_ok.mp returned
  obtain ⟨rests, again⟩ := begins found middle earlier
  obtain ⟨onward, further⟩ := continues found middle earlier rests result after continued
  refine ⟨rests.trans onward, fun later lasting => ?_⟩
  rw [bind_of_ok (again later (onward.trans lasting))]
  exact further later lasting

/-- The store is read, and the analysis goes on as it would have gone on before. -/
theorem reads {next : Store → Analysis α}
    (same : ∀ later : Progress, before.RestsTo environment later →
      next later.store = next before.store)
    (continues : (next before.store).Repeats environment before) :
    (Analysis.store >>= next).Repeats environment before := by
  intro result after returned
  obtain ⟨rests, again⟩ := continues result after returned
  refine ⟨rests, fun later onward => ?_⟩
  change next later.store environment later = .ok result later
  rw [same later (rests.trans onward)]
  exact again later onward

/-- The same, where what is read of the store makes up the result. -/
theorem readsResult {read : Store → α} (rest : before.AtRest environment)
    (same : ∀ later : Progress, before.RestsTo environment later →
      read later.store = read before.store) :
    (do return read (← Analysis.store) : Analysis α).Repeats environment before :=
  .reads (fun later rests => by rw [same later rests]) (.pure rest _)

end Analysis.Repeats

/-- The result of grounded analyses refers to what is there. -/
theorem Grounds.within_of_ok {environment : Environment} {making : Option ClassId} {α : Type}
    [Refers α] {before after : Progress} {analysis : Analysis α} {result : α}
    (grounds : Grounds environment making before fun _ : Unit => analysis)
    (returned : analysis environment before = .ok result after) :
    ∃ grounded : after.Grounded environment, Within grounded.references result := by
  cases grounds with
  | failed failed => cases (failed ()).symm.trans returned
  | returned same _ grounded within =>
    cases (same ()).symm.trans returned
    exact ⟨grounded, within⟩

namespace Engine

variable {environment : Environment} {before after : Progress} {depth : Nat}

/-- There is nothing to evaluate. -/
theorem evaluateFunction_repeats (rest : before.AtRest environment) (function : FunctionId) :
    ((Engine.atDepth depth).evaluateFunction function).Repeats environment before := by
  cases depth with
  | zero => exact .throw .tooDeep
  | succ depth =>
    exact .still rest fun later still =>
      evaluateDefinition_of_settled function environment still.settled

theorem ensureConstructed_repeats (rest : before.AtRest environment) {id : ClassId}
    (present : before.store.HasClass id) :
    ((Engine.atDepth depth).ensureConstructed id).Repeats environment before := by
  refine .reads (fun later rests => ?_) ?_
  · have template := (rest.grounded.templateOf present).1
    simp only [ClassRecord.flags_of_shape (rests.shape present), ownMember?,
      rests.lasts.keeps.templateOf present, rests.spares.sameMembers template]
  · split
    · exact .pure rest _
    · split
      · exact evaluateFunction_repeats rest _
      · exact .pure rest _

theorem constructedMethod?_repeats (rest : before.AtRest environment) {id : ClassId}
    (present : before.store.HasClass id) (name : String) :
    ((Engine.atDepth depth).constructedMethod? id name).Repeats environment before := by
  refine .bind (ensureConstructed_repeats rest present) fun _ middle _ rests => ?_
  have there := rests.lasts.leads.hasClass present
  exact .readsResult rests.rest fun later onward => onward.method? there name

/-- A constructor that is evaluated has been so before. -/
theorem ensureConstructed_stays (rest : before.AtRest environment) {id : ClassId}
    (constructed : (Engine.atDepth depth).ensureConstructed id environment before = .ok () after) :
    after = before := by
  rcases ensureConstructed_of_settled depth id environment rest.settled with same | failed
  · cases same.symm.trans constructed
    rfl
  · cases failed.symm.trans constructed

/-- What a specialization leads to, and that its class is there. -/
theorem specialize_rests (rest : before.AtRest environment) {id result : ClassId}
    {arguments : Arguments} (present : before.store.HasClass id)
    (given : Within rest.grounded.references arguments)
    (returned : (Engine.atDepth depth).specialize id arguments environment before =
      .ok result after) :
    before.RestsTo environment after ∧ after.store.HasClass result := by
  have owned : before.store.Owned False := Operation.owned_unconfined _
  have grounds : Grounds environment none before fun _ : Unit =>
      (Engine.atDepth depth).specialize id arguments :=
    (areGrounded_atDepth depth rest.grounded.references).specialize present given environment
      before rest.grounded fun _ has => has
  obtain ⟨rests, there⟩ := rest.restsTo_of_ok grounds
    ((atDepth_shaping depth).specialize id arguments).shaping
    (((atDepth_proceeds depth).specialize id arguments).proceeds owned)
    (specialize_spares depth id arguments environment before result after rest.settled returned)
    returned
  exact ⟨rests, there⟩

/-- Once the constructor was evaluated, a request is answered later as it was. Either nothing is
resolved, or the template has the answer from then on. -/
theorem specializeConstructed_again {id result : ClassId} {arguments : Arguments}
    (present : before.store.HasClass id) (rests : before.RestsTo environment after)
    (given : Within rests.start.grounded.references arguments)
    (returned : (Engine.atDepth depth).specializeConstructed id arguments environment before =
      .ok result after) {later : Progress} (onward : after.RestsTo environment later) :
    (Engine.atDepth depth).specializeConstructed id arguments environment later =
      .ok result later := by
  have whole := rests.trans onward
  have parameters := whole.typeParameters present
  have evidence : later.store.evidenceOf id arguments = before.store.evidenceOf id arguments := by
    rw [evidenceOf, parameters, evidenceOf]
    exact whole.ofArguments present _ given
  have bound : Within rests.start.grounded.references
      (before.store.evidenceOf id arguments).bindings := (within_ofArguments _ given).1
  have signature : later.store.signatureOf id arguments = before.store.signatureOf id arguments := by
    rw [signatureOf, evidence, signatureOf]
    exact whole.signature bound
  rw [specializeConstructed_apply] at returned ⊢
  rw [parameters, evidence, signature]
  by_cases unresolved : (before.store.typeParameters id).all
      (before.store.evidenceOf id arguments).bindings.isUnresolved = true
  · rw [if_pos unresolved] at returned ⊢
    cases returned
    rfl
  · rw [if_neg unresolved] at returned ⊢
    have answered : after.store.answer? id (before.store.signatureOf id arguments) =
        some result := by
      cases finished : (before.store.classAt id).specializations.find?
          (before.store.signatureOf id arguments) with
      | some found =>
        rw [finished] at returned
        cases returned
        rw [Store.answer?, finished]
        rfl
      | none =>
        rw [finished] at returned
        dsimp only at returned
        cases making : unfinished? before.store id (before.store.signatureOf id arguments) with
        | some placeholder =>
          rw [making] at returned
          cases returned
          rw [Store.answer?, finished, making]
          rfl
        | none =>
          rw [making] at returned
          exact makeSpecialization_answers (atDepth_proceeds depth) id _ environment present
            finished making returned
    have still := onward.answer? answered
    rw [Store.answer?] at still
    cases finished : (later.store.classAt id).specializations.find?
        (before.store.signatureOf id arguments) with
    | some found =>
      rw [finished] at still
      cases still
      rfl
    | none =>
      rw [finished] at still
      dsimp only
      rw [show unfinished? later.store id (before.store.signatureOf id arguments) = some result
        from still]
      rfl

/-- A class that was specialized is specialized to the same arguments again. The induction is on
the depth, since a specialization passes the request on to its template. -/
theorem specialize_repeats (depth : Nat) : ∀ {before : Progress}
    (rest : before.AtRest environment) {id : ClassId} {arguments : Arguments},
      before.store.HasClass id → Within rest.grounded.references arguments →
        ((Engine.atDepth depth).specialize id arguments).Repeats environment before := by
  induction depth with
  | zero => exact fun _ _ _ _ _ => .throw .tooDeep
  | succ depth inductionHypothesis =>
    intro before rest id arguments present given result after returned
    obtain ⟨rests, -⟩ := specialize_rests rest present given returned
    refine ⟨rests, fun later onward => ?_⟩
    have template := ClassRecord.template_of_shape ((rests.trans onward).shape present)
    change specializeClass (Engine.atDepth depth) id arguments environment before = _ at returned
    change specializeClass (Engine.atDepth depth) id arguments environment later = _
    cases made : (before.store.classAt id).template with
    | some original =>
      rw [specializeClass_of_template _ _ _ made] at returned
      rw [specializeClass_of_template _ _ _ (template.trans made)]
      have there := (rest.grounded.tidy.derived made).present
      exact (inductionHypothesis rest there given result after returned).2 later onward
    | none =>
      rw [specializeClass_of_original _ _ _ made] at returned
      rw [specializeClass_of_original _ _ _ (template.trans made)]
      obtain ⟨_, middle, constructed, continued⟩ := bind_eq_ok.mp returned
      cases ensureConstructed_stays rest constructed
      have again := (ensureConstructed_repeats rest present _ _ constructed).2 later
        (rests.trans onward)
      rw [bind_of_ok again]
      exact specializeConstructed_again present rests given continued onward

section Substitution

variable {bindings : Bindings}

theorem substituteClass_repeats (rest : before.AtRest environment)
    (bound : Within rest.grounded.references bindings) {id : ClassId}
    (present : before.store.HasClass id) :
    ((Engine.atDepth depth).substituteClass bindings id).Repeats environment before := by
  have template := (rest.grounded.templateOf present).1
  refine .reads (fun later rests => ?_) ?_
  · simp only [rests.isGeneric present, rests.lasts.keeps.templateOf present,
      rests.typeParameters template, ClassRecord.parameters_of_shape (rests.shape present)]
  · split
    · exact .pure rest _
    · dsimp only
      split
      · exact .pure rest _
      · exact specialize_repeats depth rest template
          (within_ofTypes (within_replacements (rest.grounded.stored.1 id).parameters bound _) _)

theorem substituteType_repeats (rest : before.AtRest environment)
    (bound : Within rest.grounded.references bindings) {ty : Ty}
    (given : Within rest.grounded.references ty) :
    ((Engine.atDepth depth).substituteType bindings ty).Repeats environment before := by
  cases ty with
  | cls id =>
    exact .bind (substituteClass_repeats rest bound given) fun _ _ _ rests => .pure rests.rest _
  | unknown | parameter _ | function _ | marker _ => exact .pure rest _

/-- What substitution gives refers to what is there. -/
theorem substitute_within (rest : before.AtRest environment)
    (bound : Within rest.grounded.references bindings) {value result : Value}
    (given : Within rest.grounded.references value)
    (returned : (Engine.atDepth depth).substitute bindings value environment before =
      .ok result after) :
    ∃ grounded : after.Grounded environment, Within grounded.references result :=
  (substitute_holds (substitutes (areGrounded_atDepth depth _) bound) given environment before
    rest.grounded fun _ has => has).within_of_ok returned

mutual

/-- A substitution is made again as it was. -/
theorem substitute_repeats : ∀ {before : Progress} (rest : before.AtRest environment)
    {value : Value}, Within rest.grounded.references bindings →
      Within rest.grounded.references value →
        ((Engine.atDepth depth).substitute bindings value).Repeats environment before
  | _, rest, .unknown, _, _ => by
    rw [substitute]
    exact .pure rest _
  | _, rest, .type ty, bound, given => by
    rw [substitute]
    exact .bind (substituteType_repeats rest bound (Ty.Stands.mentions given)) fun _ _ _ rests =>
      .pure rests.rest _
  | before, rest, .union alternatives, bound, given => by
    have inside := ((within_union _).mp given).2
    rw [substitute]
    refine .bind (substituteAll_repeats rest bound inside) fun replaced middle returned rests => ?_
    obtain ⟨grounded, within⟩ := (substituteAll_holds
      (substitutes (areGrounded_atDepth depth _) bound) inside environment before rest.grounded
        fun _ has => has).within_of_ok returned
    exact .readsResult rests.rest fun later onward => onward.union within
  | _, rest, .object (.parameter parameter) content, bound, given => by
    rw [substitute]
    cases found : bindings.resolve? parameter with
    | none => exact .pure rest _
    | some ty =>
      cases ty with
      | cls id =>
        have present := within_resolve? bound parameter _ found
        exact .readsResult rest fun later onward => onward.lasts.keeps.newObject present
      | unknown | parameter _ | function _ | marker _ => exact .pure rest _
  | before, rest, .object (.cls id) content, bound, given => by
    have present : before.store.HasClass id := given.objectType
    rw [substitute]
    refine .bind (substituteClass_repeats rest bound present)
      fun specialized middle returned rests => ?_
    have there := (substituteClass_lasts rest.grounded bound present returned).2.2
    have bound := rests.within bound
    match content with
    | .plain =>
      dsimp only
      split
      · exact .pure rests.rest _
      · exact .readsResult rests.rest fun later onward => onward.lasts.keeps.newObject there
    | .constant _ => exact .pure rests.rest _
    | .sequence ⟨items, _⟩ =>
      have inside := rests.within ((within_sequence _ _ _).mp given).2
      exact .bind (substituteAll_repeats rests.rest bound inside) fun _ _ _ onward =>
        .pure onward.rest _
    | .mapping ⟨entries, _⟩ =>
      have inside := rests.within ((within_mapping _ _ _).mp given).2
      exact .bind (substituteEntries_repeats rests.rest bound inside) fun _ _ _ onward =>
        .pure onward.rest _
    | .iterator element =>
      have inside := rests.within ((within_iterator _ _).mp given).2
      exact .bind (substitute_repeats rests.rest bound inside) fun _ _ _ onward =>
        .pure onward.rest _
  | _, rest, .object .unknown _, _, _ | _, rest, .object (.function _) _, _, _
  | _, rest, .object (.marker _) _, _, _ => by
    rw [substitute]
    · exact .pure rest _
    all_goals nofun

theorem substituteAll_repeats : ∀ {before : Progress} (rest : before.AtRest environment)
    {values : List Value}, Within rest.grounded.references bindings →
      Within rest.grounded.references values →
        ((Engine.atDepth depth).substituteAll bindings values).Repeats environment before
  | _, rest, [], _, _ => by
    rw [substituteAll]
    exact .pure rest _
  | _, rest, value :: others, bound, given => by
    rw [within_cons] at given
    rw [substituteAll]
    refine .bind (substitute_repeats rest bound given.1) fun _ _ _ rests => ?_
    exact .bind (substituteAll_repeats rests.rest (rests.within bound) (rests.within given.2))
      fun _ _ _ onward => .pure onward.rest _

theorem substituteEntries_repeats : ∀ {before : Progress} (rest : before.AtRest environment)
    {entries : List (Value × Value)}, Within rest.grounded.references bindings →
      Within rest.grounded.references entries →
        ((Engine.atDepth depth).substituteEntries bindings entries).Repeats environment before
  | _, rest, [], _, _ => by
    rw [substituteEntries]
    exact .pure rest _
  | _, rest, (key, value) :: others, bound, given => by
    rw [within_cons, within_pair] at given
    rw [substituteEntries]
    refine .bind (substitute_repeats rest bound given.1.1) fun _ _ _ rests => ?_
    refine .bind (substitute_repeats rests.rest (rests.within bound) (rests.within given.1.2))
      fun _ _ _ onward => ?_
    have further := rests.trans onward
    exact .bind (substituteEntries_repeats onward.rest (further.within bound)
      (further.within given.2)) fun _ _ _ lastly => .pure lastly.rest _

end

end Substitution

section Calls

variable {positional : List Value} {keywords : List (String × Value)}

/-- A function that is called again returns what it returned. -/
theorem callFunction_repeats (rest : before.AtRest environment) (function : FunctionId)
    {receiver : Option Value}
    (received : Within rest.grounded.references receiver)
    (placed : Within rest.grounded.references positional)
    (named : Within rest.grounded.references keywords) (span : Span) :
    ((Engine.atDepth depth).callFunction function receiver positional keywords span).Repeats
      environment before := by
  refine .bind (evaluateFunction_repeats rest function) fun _ middle _ rests => ?_
  have erased {last : Progress} (rest : last.AtRest environment) {value : Value}
      (given : Within rest.grounded.references value) :
      (do return (← Analysis.store).eraseParameters value : Analysis Value).Repeats
        environment last :=
    .readsResult rest fun later onward => onward.eraseParameters given
  have received := rests.within received
  have placed := rests.within placed
  have named := rests.within named
  cases head : (middle.store.functionAt function).overloads.head? with
  | none =>
    refine .reads (fun later onward => ?_) ?_
    · simp only [onward.functionAt, head]
    · simp only [head]
      exact .pure rests.rest _
  | some overload =>
    have signature : Within rests.rest.grounded.references overload :=
      within_firstOverload rests.rest.grounded.stored function overload head
    have bound : Within rests.rest.grounded.references
        (callBindings middle.store overload receiver positional keywords span) :=
      within_callBindings rests.rest.grounded.stored signature received placed named span
    have returned : Within rests.rest.grounded.references (middle.store.returnValue overload) :=
      within_returnValue (closedIn_references _ _) signature
    refine .reads (fun later onward => ?_) ?_
    · simp only [onward.functionAt, head, onward.callBindings signature received placed named span,
        onward.returnValue signature]
    · simp only [head]
      split
      · exact .bind (.pure rests.rest _) fun value last same onward => by
          cases same
          exact erased rests.rest returned
      · refine .bind (substitute_repeats rests.rest bound returned) fun value last found onward => ?_
        obtain ⟨grounded, within⟩ := substitute_within rests.rest bound returned found
        exact erased onward.rest within

theorem callMethod_repeats (rest : before.AtRest environment) (method : Option FunctionId)
    {receiver : Value} (received : Within rest.grounded.references receiver)
    (placed : Within rest.grounded.references positional)
    (named : Within rest.grounded.references keywords) (span : Span) :
    ((Engine.atDepth depth).callMethod method receiver positional keywords span).Repeats
      environment before := by
  cases method with
  | none => exact .pure rest _
  | some function =>
    exact callFunction_repeats rest function ((within_some _).mpr received) placed named span

/-- A class that is called again gives an object of the class that it gave one of. -/
theorem instantiate_repeats (rest : before.AtRest environment) {id : ClassId}
    (present : before.store.HasClass id) (placed : Within rest.grounded.references positional)
    (named : Within rest.grounded.references keywords) (span : Span) :
    ((Engine.atDepth depth).instantiate id positional keywords span).Repeats environment before := by
  refine .reads (fun later rests => ?_) ?_
  · simp only [ClassRecord.flags_of_shape (rests.shape present),
      rests.builtinInstance present placed]
  split
  · exact .pure rest _
  refine .bind (ensureConstructed_repeats rest present) fun _ middle _ rests => ?_
  have there := rests.lasts.leads.hasClass present
  refine .reads (fun later onward => ?_) ?_
  · simp only [onward.isGeneric there, onward.lasts.keeps.newObject there, onward.method? there,
      onward.functionAt]
  dsimp only
  split
  · exact .pure rests.rest _
  have placed := rests.within placed
  have named := rests.within named
  have specialized {arguments : Arguments} (given : Within rests.rest.grounded.references arguments) :
      (do
        let made ← (Engine.atDepth depth).specialize id arguments
        return (← Analysis.store).newObject made : Analysis Value).Repeats environment middle := by
    refine .bind (specialize_repeats depth rests.rest there given) fun made last found onward => ?_
    have isMade := (specialize_rests rests.rest there given found).2
    exact .readsResult onward.rest fun later lastly => lastly.lasts.keeps.newObject isMade
  refine specialized ?_
  split
  · next overload found =>
    obtain ⟨constructor, -, head⟩ := Option.bind_eq_some_iff.mp found
    have signature := within_firstOverload rests.rest.grounded.stored constructor overload head
    exact within_forCall signature.1 ((within_some _).mpr within_unknown) placed named span
  · exact within_ofValues placed span

/-- What callees give refers to what is there. -/
theorem callAll_within (rest : before.AtRest environment) {target : Option Value}
    (found : Within rest.grounded.references target)
    (placed : Within rest.grounded.references positional)
    (named : Within rest.grounded.references keywords) (span : Span) {callees values : List Value}
    (given : Within rest.grounded.references callees)
    (returned : (Engine.atDepth depth).callAll target positional keywords span callees environment
      before = .ok values after) :
    ∃ grounded : after.Grounded environment, Within grounded.references values :=
  (callAll_holds (areGrounded_atDepth depth _) found placed named span given environment before
    rest.grounded fun _ has => has).within_of_ok returned

mutual

/-- A call that is made again gives what it gave. -/
theorem callValue_repeats : ∀ {before : Progress} (rest : before.AtRest environment)
    {target : Option Value}, Within rest.grounded.references target →
      Within rest.grounded.references positional → Within rest.grounded.references keywords →
        ∀ (span : Span) {callee : Value}, Within rest.grounded.references callee →
          ((Engine.atDepth depth).callValue target positional keywords span callee).Repeats
            environment before
  | _, rest, _, _, _, _, _, .unknown, _ => by
    simp only [callValue]
    exact .pure rest _
  | before, rest, _, found, placed, named, span, .union alternatives, given => by
    have inside := ((within_union _).mp given).2
    simp only [callValue]
    refine .bind (callAll_repeats rest found placed named span inside)
      fun values middle returned rests => ?_
    obtain ⟨grounded, within⟩ := callAll_within rest found placed named span inside returned
    exact .readsResult rests.rest fun later onward => onward.union within
  | _, rest, _, _, placed, named, span, .type (.cls id), given => by
    simp only [callValue]
    exact instantiate_repeats rest given placed named span
  | before, rest, target, found, placed, named, span, .type (.function function), given => by
    simp only [callValue]
    refine .reads (fun later rests => ?_) ?_
    · unfold Registry.isTypeVariable
      rw [rests.functionAt, rests.receiverFor]
    · split
      · exact .pure rest _
      · refine callFunction_repeats rest function (fun value received => ?_) placed named span
        obtain ⟨object, isTarget, isReceiver⟩ := Option.bind_eq_some_iff.mp received
        exact within_receiverFor function (found object isTarget) value isReceiver
  | _, rest, _, _, _, _, _, .type .unknown, _ | _, rest, _, _, _, _, _, .type (.parameter _), _
  | _, rest, _, _, _, _, _, .type (.marker _), _ => by
    simp only [callValue]
    exact .pure rest _
  | before, rest, _, _, placed, named, span, .object (.cls id) content, given => by
    simp only [callValue]
    exact .bind (constructedMethod?_repeats rest given.objectType _) fun method _ _ rests =>
      callMethod_repeats rests.rest method (rests.within given) (rests.within placed)
        (rests.within named) span
  | _, rest, _, _, _, _, _, .object .unknown _, _
  | _, rest, _, _, _, _, _, .object (.parameter _) _, _
  | _, rest, _, _, _, _, _, .object (.function _) _, _
  | _, rest, _, _, _, _, _, .object (.marker _) _, _ => by
    simp only [callValue]
    exact .pure rest _

theorem callAll_repeats : ∀ {before : Progress} (rest : before.AtRest environment)
    {target : Option Value}, Within rest.grounded.references target →
      Within rest.grounded.references positional → Within rest.grounded.references keywords →
        ∀ (span : Span) {callees : List Value}, Within rest.grounded.references callees →
          ((Engine.atDepth depth).callAll target positional keywords span callees).Repeats
            environment before
  | _, rest, _, _, _, _, _, [], _ => by
    simp only [callAll]
    exact .pure rest _
  | _, rest, _, found, placed, named, span, callee :: others, given => by
    rw [within_cons] at given
    simp only [callAll]
    refine .bind (callValue_repeats rest found placed named span given.1) fun _ _ _ rests => ?_
    exact .bind (callAll_repeats rests.rest (rests.within found) (rests.within placed)
      (rests.within named) span (rests.within given.2)) fun _ _ _ onward => .pure onward.rest _

end

end Calls

/-- What is found on some values refers to what is there. -/
theorem attributeOfAll_within (rest : before.AtRest environment) {name : String}
    {values found : List Value} (given : Within rest.grounded.references values)
    (looked : (Engine.atDepth depth).attributeOfAll name values environment before =
      .ok found after) :
    ∃ grounded : after.Grounded environment, Within grounded.references found :=
  (attributeOfAll_holds (areGrounded_atDepth depth _) name given environment before rest.grounded
    fun _ has => has).within_of_ok looked

mutual

/-- An attribute that is looked up again is found as it was. -/
theorem attributeOf_repeats (name : String) : ∀ {before : Progress}
    (rest : before.AtRest environment) {value : Value}, Within rest.grounded.references value →
      ((Engine.atDepth depth).attributeOf name value).Repeats environment before
  | _, rest, .unknown, _ => by
    simp only [attributeOf]
    exact .pure rest _
  | before, rest, .union alternatives, given => by
    have inside := ((within_union _).mp given).2
    simp only [attributeOf]
    refine .bind (attributeOfAll_repeats name rest inside) fun values middle returned rests => ?_
    obtain ⟨grounded, within⟩ := attributeOfAll_within rest inside returned
    exact .readsResult rests.rest fun later onward => onward.union within
  | before, rest, .type (.cls id), given => by
    have present : before.store.HasClass id := given
    simp only [attributeOf]
    refine .bind (ensureConstructed_repeats rest present) fun _ middle _ rests => ?_
    have there := rests.lasts.leads.hasClass present
    exact .readsResult rests.rest fun later onward => by rw [onward.member? there]
  | before, rest, .object (.cls id) content, given => by
    have present : before.store.HasClass id := given.objectType
    simp only [attributeOf]
    split
    · exact .pure rest _
    refine .bind (ensureConstructed_repeats rest present) fun _ middle _ rests => ?_
    have there := rests.lasts.leads.hasClass present
    refine .reads (fun later onward => ?_) ?_
    · simp only [onward.member? there, onward.functionAt]
    cases isFunction : ((middle.store.member? id name).getD .unknown).asFunction? with
    | none => exact .pure rests.rest _
    | some function =>
      dsimp only
      split
      · exact callFunction_repeats rests.rest function
          ((within_some _).mpr (rests.within given)) within_nil within_nil _
      · exact .pure rests.rest _
  | _, rest, .type .unknown, _ | _, rest, .type (.parameter _), _
  | _, rest, .type (.function _), _ | _, rest, .type (.marker _), _ => by
    simp only [attributeOf]
    exact .pure rest _
  | _, rest, .object .unknown _, _ | _, rest, .object (.parameter _) _, _
  | _, rest, .object (.function _) _, _ | _, rest, .object (.marker _) _, _ => by
    simp only [attributeOf]
    exact .pure rest _

theorem attributeOfAll_repeats (name : String) : ∀ {before : Progress}
    (rest : before.AtRest environment) {values : List Value},
      Within rest.grounded.references values →
        ((Engine.atDepth depth).attributeOfAll name values).Repeats environment before
  | _, rest, [], _ => by
    simp only [attributeOfAll]
    exact .pure rest _
  | _, rest, value :: others, given => by
    rw [within_cons] at given
    simp only [attributeOfAll]
    refine .bind (attributeOf_repeats name rest given.1) fun _ _ _ rests => ?_
    exact .bind (attributeOfAll_repeats name rests.rest (rests.within given.2)) fun _ _ _ onward =>
      .pure onward.rest _

end

end Engine

end TypeInference
