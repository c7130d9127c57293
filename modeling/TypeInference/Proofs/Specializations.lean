import TypeInference.Proofs.Evaluations
import TypeInference.Proofs.Requests

/-!
# Specializations end

A specialization first evaluates the constructor of its class, which changes nothing or lowers
what remains. Then it substitutes in bases and members and may ask for other specializations,
of the same class as well. Either less remains after one of these, or they were quiet, and
then one request less could begin than before the first one. So by induction on what remains,
and where the same remains on the number of requests, every specialization converges.
-/

namespace TypeInference

open Analysis

/-- Less remains than before, or the analysis in between was quiet. -/
def Progress.LessOrQuiet (nodes : List NodeId) (before after : Progress) : Prop :=
  after.remaining nodes < before.remaining nodes ∨ before.Quiet after

namespace Progress.LessOrQuiet

variable {nodes : List NodeId} {first second third : Progress}

theorem remaining (later : first.LessOrQuiet nodes second) :
    second.remaining nodes ≤ first.remaining nodes := by
  rcases later with less | quiet
  · exact less.le
  · exact (quiet.remaining nodes).le

theorem trans (one : first.LessOrQuiet nodes second) (other : second.LessOrQuiet nodes third) :
    first.LessOrQuiet nodes third := by
  rcases one with less | quiet
  · exact .inl (other.remaining.trans_lt less)
  · rcases other with less | again
    · exact .inl (less.trans_eq (quiet.remaining nodes))
    · exact .inr (quiet.trans again)

/-- A change of one class of which requests read the same. -/
theorem modifyClass (later : first.LessOrQuiet nodes second) {id : ClassId}
    {change : ClassRecord → ClassRecord}
    (same : first.Quiet second →
      (second.store.classAt id).SameRequests (change (second.store.classAt id))) :
    first.LessOrQuiet nodes
      { second with store := second.store.modifyClass id change } := by
  rcases later with less | quiet
  · exact .inl less
  · exact .inr (quiet.trans (.modifyClass second (same quiet)))

end Progress.LessOrQuiet

/-- What arguments show about a class. -/
def Store.evidenceOf (store : Store) (id : ClassId) (arguments : Arguments) : Evidence :=
  Evidence.ofArguments store id (store.typeParameters id) arguments

/-- The signature that arguments ask for. -/
def Store.signatureOf (store : Store) (id : ClassId) (arguments : Arguments) :
    ResolvedSignature :=
  store.signature (store.evidenceOf id arguments).bindings

/-- It has a type for each parameter. -/
theorem Store.length_signatureOf (store : Store) (id : ClassId) (arguments : Arguments) :
    (store.signatureOf id arguments).hashes.length = (store.typeParameters id).length := by
  have keys := Evidence.keys_ofArguments store id (store.typeParameters id) arguments
  rw [← keys]
  simp only [signatureOf, signature, evidenceOf, Bindings.types, Bindings.keys, List.length_map]

namespace Engine

/-- What a request comes to once the constructor of the class was evaluated. -/
def specializeConstructed (engine : Engine) (id : ClassId) (arguments : Arguments) :
    Analysis ClassId := do
  let store ← Analysis.store
  let parameters := store.typeParameters id
  let evidence := Evidence.ofArguments store id parameters arguments
  if parameters.all evidence.bindings.isUnresolved then return id
  let signature := store.signature evidence.bindings
  match (store.classAt id).specializations.find? signature with
  | some finished => return finished
  | none =>
    match unfinished? store id signature with
    | some placeholder => return placeholder
    | none => engine.makeSpecialization id evidence

/-- What a request comes to is read off the store. -/
theorem specializeConstructed_apply (engine : Engine) (id : ClassId) (arguments : Arguments)
    (environment : Environment) (before : Progress) :
    engine.specializeConstructed id arguments environment before =
      (if (before.store.typeParameters id).all
          (before.store.evidenceOf id arguments).bindings.isUnresolved then Pure.pure id
        else
          match (before.store.classAt id).specializations.find?
              (before.store.signatureOf id arguments) with
          | some finished => Pure.pure finished
          | none =>
            match unfinished? before.store id (before.store.signatureOf id arguments) with
            | some placeholder => Pure.pure placeholder
            | none => engine.makeSpecialization id (before.store.evidenceOf id arguments))
          environment before := rfl

/-- A request is answered by the class itself where nothing is known of its parameters, else by
what is stored or being made for its signature, and makes a specialization only where there is
neither. -/
theorem specializeConstructed_outcomes (engine : Engine) (id : ClassId) (arguments : Arguments)
    (environment : Environment) (before : Progress) :
    let signature := before.store.signatureOf id arguments
    let request := engine.specializeConstructed id arguments environment before
    let known := (before.store.typeParameters id).all
      (before.store.evidenceOf id arguments).bindings.isUnresolved = false
    let stored := (before.store.classAt id).specializations.find? signature
    ¬known ∧ request = .ok id before ∨
      (∃ finished, known ∧ stored = some finished ∧ request = .ok finished before) ∨
      (∃ placeholder, known ∧ stored = none ∧
        unfinished? before.store id signature = some placeholder ∧
        request = .ok placeholder before) ∨
      known ∧ stored = none ∧ unfinished? before.store id signature = none ∧
        request = engine.makeSpecialization id (before.store.evidenceOf id arguments) environment
          before := by
  intro signature request known stored
  have applied : request = _ := engine.specializeConstructed_apply id arguments environment before
  by_cases resolved : known
  · rw [if_neg (Bool.eq_false_iff.mp resolved)] at applied
    cases cached : (before.store.classAt id).specializations.find?
        (before.store.signatureOf id arguments) with
    | some finished =>
      rw [cached] at applied
      exact .inr (.inl ⟨finished, resolved, cached, applied⟩)
    | none =>
      rw [cached] at applied
      cases making : unfinished? before.store id (before.store.signatureOf id arguments) with
      | some placeholder =>
        rw [making] at applied
        exact .inr (.inr (.inl ⟨placeholder, resolved, cached, rfl, applied⟩))
      | none =>
        rw [making] at applied
        exact .inr (.inr (.inr ⟨resolved, cached, rfl, applied⟩))
  · rw [if_pos (eq_true_of_ne_false resolved)] at applied
    exact .inl ⟨resolved, applied⟩

/-- A specialization stands for its template. -/
theorem specializeClass_of_template (engine : Engine) {id template : ClassId}
    (arguments : Arguments) (environment : Environment) {before : Progress}
    (made : (before.store.classAt id).template = some template) :
    engine.specializeClass id arguments environment before =
      engine.specialize template arguments environment before := by
  simp only [specializeClass, bind_apply, store_apply, made]

/-- Any other class is specialized after its constructor was evaluated. -/
theorem specializeClass_of_original (engine : Engine) {id : ClassId} (arguments : Arguments)
    (environment : Environment) {before : Progress}
    (original : (before.store.classAt id).template = none) :
    engine.specializeClass id arguments environment before =
      (engine.ensureConstructed id >>= fun _ => engine.specializeConstructed id arguments)
        environment before := by
  unfold specializeClass
  rw [bind_apply, store_apply]
  dsimp only
  rw [original]
  rfl

end Engine

/-- From some progress on, every request converges. -/
def SpecializesFrom (nodes : List NodeId) (before : Progress) : Prop :=
  ∀ {known environment}, before.Sound nodes known environment → ∀ id {arguments},
    Within known arguments → Converges nodes known environment before
      (fun depth => (Engine.atDepth depth).specialize id arguments) (before.LessOrQuiet nodes)

/-- From some progress on, every request converges once the constructor was evaluated. -/
def SpecializesConstructedFrom (nodes : List NodeId) (before : Progress) : Prop :=
  ∀ {known environment}, before.Sound nodes known environment → ∀ {id} {arguments},
    (before.store.classAt id).template = none → Within known arguments →
      Converges nodes known environment before
        (fun depth => (Engine.atDepth depth).specializeConstructed id arguments)
        (before.LessOrQuiet nodes)

namespace Converges

variable {nodes : List NodeId} {known : FunctionId → Prop} {environment : Environment}
  {before : Progress}

/-- The evaluation of a constructor changes nothing or lowers what remains. -/
theorem ensureConstructed (sound : before.Sound nodes known environment)
    (shallower : ∀ less < before.remaining nodes, Shallower nodes less) (id : ClassId) :
    Converges nodes known environment before
      (fun depth => (Engine.atDepth depth).ensureConstructed id)
      fun after => after = before ∨ before.store.HasClass id ∧
        after.remaining nodes < before.remaining nodes := by
  have nothing {analyses : Nat → Analysis Unit}
      (returned : ∀ depth, analyses depth environment before = .ok () before) :
      Converges nodes known environment before analyses
        fun after => after = before ∨ before.store.HasClass id ∧
          after.remaining nodes < before.remaining nodes :=
    .of_ok returned (fun _ isKnown => isKnown) sound (.refl _) rfl (within_unit ()) (.inl rfl)
  by_cases builtin : (before.store.classAt id).flags.builtin = true
  · refine nothing fun depth => ?_
    simp only [Engine.ensureConstructed, bind_apply, store_apply, if_pos builtin]
    rfl
  · cases found : (before.store.ownMember? (before.store.templateOf id) "__init__").bind
        Value.asFunction? with
    | none =>
      refine nothing fun depth => ?_
      simp only [Engine.ensureConstructed, bind_apply, store_apply, if_neg builtin, found]
      rfl
    | some constructor =>
      obtain ⟨value, member, isFunction⟩ := Option.bind_eq_some_iff.mp found
      have isKnown := (within_ownMember? sound.stored _ _ value member).asFunction?
        constructor isFunction
      have present : before.store.HasClass id := by
        refine Decidable.byContradiction fun outside => ?_
        have blank := Store.classAt_of_not_hasClass before.store id outside
        unfold Store.ownMember? Store.templateOf at member
        rw [blank] at member
        rw [show ((default : ClassRecord).template.getD id) = id from rfl, blank] at member
        cases member
      have evaluated := (evaluateFunction sound shallower isKnown).mono fun after =>
        Or.imp_right fun less => (⟨present, less⟩ : before.store.HasClass id ∧ _)
      refine evaluated.of_step (fun depth => ?_) (.refl _) rfl
      simp only [Engine.ensureConstructed, bind_apply, store_apply, if_neg builtin, found]

/-- A request converges if it does once the constructor was evaluated. -/
theorem specialize (sound : before.Sound nodes known environment)
    (shallower : ∀ less < before.remaining nodes, Shallower nodes less)
    (constructed : SpecializesConstructedFrom nodes before)
    (later : ∀ middle, middle.remaining nodes < before.remaining nodes →
      SpecializesConstructedFrom nodes middle)
    (id : ClassId) {arguments : Arguments} (given : Within known arguments) :
    Converges nodes known environment before
      (fun depth => (Engine.atDepth depth).specialize id arguments)
      (before.LessOrQuiet nodes) := by
  -- A class that is no specialization, first; a specialization asks for its template.
  have originally {id : ClassId} (original : (before.store.classAt id).template = none) :
      Converges nodes known environment before
        (fun depth => (Engine.atDepth depth).specialize id arguments)
        (before.LessOrQuiet nodes) := by
    suffices constructing : Converges nodes known environment before
        (fun depth => (Engine.atDepth depth).ensureConstructed id >>= fun _ =>
          (Engine.atDepth depth).specializeConstructed id arguments)
        (before.LessOrQuiet nodes) from
      constructing.deeper rfl fun depth =>
        Engine.specializeClass_of_original _ arguments environment original
    refine (ensureConstructed sound shallower id).bind ?_
    rintro known' _ after converged (rfl | ⟨present, less⟩)
    · have given := Refers.widen (References.ofFunctions_mono converged.knows) _ given
      exact constructed converged.sound original given
    · have given := Refers.widen (References.ofFunctions_mono converged.knows) _ given
      have still := (converged.lasting.template id present).trans original
      exact (later after less converged.sound still given).mono fun last onward =>
        .inl (onward.remaining.trans_lt less)
  cases made : (before.store.classAt id).template with
  | none => exact originally made
  | some template =>
    exact (originally (sound.flat id template made).2).deeper rfl fun depth =>
      Engine.specializeClass_of_template _ arguments environment made

end Converges

section Placeholder

variable {nodes : List NodeId} {known : FunctionId → Prop} {environment : Environment}
  {before : Progress} {template : ClassId} {evidence : Evidence}

/-- A specialization can begin. -/
theorem Progress.Sound.begin (sound : before.Sound nodes known environment)
    (present : before.store.HasClass template)
    (original : (before.store.classAt template).template = none)
    {bindings : Bindings} (given : Within known bindings) :
    Progress.Sound nodes known environment
      { before with store := before.store.begin template bindings } := by
  have blank : Within known (Engine.placeholderRecord before.store template bindings) :=
    within_placeholderRecord before.store trivial given
  have added := sound.addClass blank fun other madeFrom => by
    cases madeFrom
    exact ⟨present, original⟩
  exact added.changeStore (within_begin sound.stored trivial trivial given)
    (Store.alike_modifyClass _ template fun _ => rfl)

theorem Store.extends_begin (store : Store) (template : ClassId) (bindings : Bindings) :
    store.Extends (store.begin template bindings) := by
  let record := Engine.placeholderRecord store template bindings
  have pushed : (store.addClass record).2.Alike (store.begin template bindings) :=
    Store.alike_modifyClass _ template fun _ => rfl
  exact (Store.extends_addClass store record).trans pushed.extends

theorem Store.alike_endSpecialization (store : Store) (template : ClassId) :
    store.Alike (Engine.endSpecialization store template) :=
  Store.alike_modifyClass store template fun _ => rfl

/-- A specialization can end. -/
theorem Progress.Sound.endSpecialization (sound : before.Sound nodes known environment)
    (template : ClassId) : Progress.Sound nodes known environment
      { before with store := Engine.endSpecialization before.store template } :=
  sound.changeStore (within_endSpecialization sound.stored template)
    (Store.alike_endSpecialization _ template)

/-- While a specialization is made, its placeholder is given bases and members, which requests
do not read, as it is a specialization itself. -/
theorem Judgement.convergence_modifyPlaceholder {origin : Progress} {placeholder : ClassId}
    (present : origin.store.HasClass placeholder)
    (specialized : (origin.store.classAt placeholder).template ≠ none)
    {change : Store → ClassRecord → ClassRecord}
    (keeps : ∀ store record, (change store record).template = record.template)
    (within : ∀ store record, Within known store → Within known record →
      Within known (change store record)) :
    (Judgement.convergence nodes (origin.LessOrQuiet nodes)).Holds known fun _ =>
      modifyStore fun store => store.modifyClass placeholder (change store) := by
  intro environment before sound later
  have alike := Store.alike_modifyClass before.store placeholder (keeps before.store)
  refine .of_ok (fun _ => rfl) (fun _ => id) (sound.changeStore ?_ alike) alike.extends rfl
    (within_unit ()) (later.modifyClass fun quiet => ⟨keeps _ _, fun none => ?_⟩)
  · exact within_modifyClass sound.stored placeholder fun record =>
      within before.store record sound.stored
  · exact absurd ((quiet.kept placeholder present).1.symm.trans none) specialized

/-- The placeholder of a specialization is made where requests converge. -/
theorem Judgement.convergence_materialize {origin : Progress} {placeholder : ClassId}
    (present : origin.store.HasClass placeholder)
    (specialized : (origin.store.classAt placeholder).template ≠ none)
    (given : Within known evidence)
    (specializes : ∀ {middle}, origin.LessOrQuiet nodes middle → SpecializesFrom nodes middle) :
    (Judgement.convergence nodes (origin.LessOrQuiet nodes)).Holds known fun depth =>
      (Engine.atDepth depth).materialize template placeholder evidence := by
  let window := Judgement.convergence nodes (origin.LessOrQuiet nodes)
  have requests {second : FunctionId → Prop} (id : ClassId) {arguments : Arguments}
      (within : Within second arguments) : window.Holds second fun depth =>
        (Engine.atDepth depth).specialize id arguments := fun _ _ sound later =>
    (specializes later sound id within).mono fun _ onward => later.trans onward
  have substitutes : window.Substitutes Engine.atDepth known evidence.bindings :=
    ⟨given.1, fun passed _ isKnown => Engine.substituteClass_holds
      (window.within_later passed given.1) (fun _ _ _ _ => requests _) isKnown⟩
  refine Engine.materialize_holds substitutes template placeholder ?_ ?_
  · intro second passed bases within _
    refine Judgement.convergence_modifyPlaceholder present specialized (fun _ _ => rfl) ?_
    intro store record _ recorded
    refine ⟨Refers.Within.foldl within fun found discovered listed before => ?_, recorded.2⟩
    exact within_addDiscovered before
      (window.within_later passed given.2.1 discovered listed)
  · intro second passed name _ value within
    simp only [Store.addMember_eq]
    refine Judgement.convergence_modifyPlaceholder present specialized (fun _ _ => rfl) ?_
    intro store record stored recorded
    exact ⟨recorded.1, within_insertMember (stored.1 placeholder).members name within true,
      recorded.2.2⟩

end Placeholder

namespace Converges

variable {nodes : List NodeId} {known : FunctionId → Prop} {environment : Environment}
  {before : Progress} {template : ClassId} {evidence : Evidence}

/-- A specialization that could begin converges, if those converge that could still begin
while it is made. -/
theorem makeSpecialization (sound : before.Sound nodes known environment)
    (requested : (template, before.store.signature evidence.bindings) ∈ before.store.requests)
    (given : Within known evidence)
    (lower : ∀ middle, middle.remaining nodes < before.remaining nodes →
      SpecializesFrom nodes middle)
    (fewer : ∀ middle, middle.remaining nodes = before.remaining nodes →
      middle.store.requests.ncard < before.store.requests.ncard → SpecializesFrom nodes middle) :
    Converges nodes known environment before
      (fun depth => (Engine.atDepth depth).makeSpecialization template evidence)
      (before.LessOrQuiet nodes) := by
  obtain ⟨present, original, few, idle⟩ := requested
  let signature := before.store.signature evidence.bindings
  let placeholder := before.store.nextClass
  let begun : Progress :=
    { before with store := before.store.begin template evidence.bindings }
  have soundBegun : begun.Sound nodes known environment := sound.begin present original given.1
  have same : begun.remaining nodes = before.remaining nodes :=
    Progress.remaining_of_alike rfl (fun _ => rfl) fun _ => rfl
  have there : begun.store.HasClass placeholder :=
    (Store.hasClass_begin _ _ _ _).mpr (.inr rfl)
  have specialized : (begun.store.classAt placeholder).template ≠ none := by
    dsimp only [begun, placeholder]
    rw [Store.classAt_begin _ _ _ _ present idle, if_pos rfl]
    exact Option.some_ne_none template
  -- From here on less remains than before, or one request less could begin.
  have specializes {middle : Progress} (later : begun.LessOrQuiet nodes middle) :
      SpecializesFrom nodes middle := by
    rcases later with less | quiet
    · exact lower middle (less.trans_eq same)
    · refine fewer middle ((quiet.remaining nodes).trans same) ?_
      rw [quiet.requests]
      exact Store.ncard_requests_begin_lt ⟨present, original, few, idle⟩
  have made : Converges nodes known environment begun
      (fun depth => (Engine.atDepth depth).materialize template placeholder evidence)
      (begun.LessOrQuiet nodes) :=
    Judgement.convergence_materialize there specialized given specializes environment begun
      soundBegun (.inr (.refl begun))
  have ended : Converges nodes known environment begun
      (fun depth => Analysis.withCleanup
        ((Engine.atDepth depth).materialize template placeholder evidence) fun progress =>
          { progress with store := Engine.endSpecialization progress.store template })
      fun after => ∃ middle, begun.LessOrQuiet nodes middle ∧
        after = { middle with store := Engine.endSpecialization middle.store template } :=
    made.withCleanup (fun _ _ sound => sound.endSpecialization template)
      (fun store => (Store.alike_endSpecialization store template).extends)
      fun after onward => ⟨after, onward, rfl⟩
  have stored : Converges nodes known environment begun
      (fun depth => Analysis.withCleanup
        ((Engine.atDepth depth).materialize template placeholder evidence) (fun progress =>
          { progress with store := Engine.endSpecialization progress.store template }) >>= fun _ =>
            onStore fun store => Engine.storeSpecialization store template signature placeholder)
      (before.LessOrQuiet nodes) := by
    refine ended.bind ?_
    rintro later _ _ converged ⟨middle, onward, rfl⟩
    have alike : (Engine.endSpecialization middle.store template).Alike
        (Engine.storeSpecialization (Engine.endSpecialization middle.store template) template
          signature placeholder).2 :=
      Store.alike_modifyClass _ template fun _ => rfl
    refine .of_ok (fun _ => rfl) (fun _ => id) (converged.sound.changeStore ?_ alike)
      alike.extends rfl trivial ?_
    · exact within_storeSpecialization converged.sound.stored template signature trivial
    · rcases onward with less | quiet
      · exact .inl (less.trans_eq same)
      · exact .inr (.finish present original idle quiet signature placeholder)
  exact stored.of_step (fun _ => rfl) (Store.extends_begin _ _ _) rfl

/-- A request converges once the constructor was evaluated. -/
theorem specializeConstructed (sound : before.Sound nodes known environment)
    (lower : ∀ middle, middle.remaining nodes < before.remaining nodes →
      SpecializesFrom nodes middle)
    (fewer : ∀ middle, middle.remaining nodes = before.remaining nodes →
      middle.store.requests.ncard < before.store.requests.ncard → SpecializesFrom nodes middle)
    {id : ClassId} (original : (before.store.classAt id).template = none)
    {arguments : Arguments} (given : Within known arguments) :
    Converges nodes known environment before
      (fun depth => (Engine.atDepth depth).specializeConstructed id arguments)
      (before.LessOrQuiet nodes) := by
  have answered (answer : ClassId) : Converges nodes known environment before
      (fun _ => Pure.pure answer) (before.LessOrQuiet nodes) :=
    .pure sound trivial (.inr (.refl before))
  refine of_step ?_ (fun depth => (Engine.atDepth depth).specializeConstructed_apply id arguments
    environment before) (.refl _) rfl
  by_cases unresolved : (before.store.typeParameters id).all
      (before.store.evidenceOf id arguments).bindings.isUnresolved = true
  · simpa only [if_pos unresolved] using answered id
  · simp only [if_neg unresolved]
    cases (before.store.classAt id).specializations.find?
        (before.store.signatureOf id arguments) with
    | some finished => exact answered finished
    | none =>
      dsimp only
      cases idle : Engine.unfinished? before.store id
          (before.store.signatureOf id arguments) with
      | some placeholder => exact answered placeholder
      | none =>
        refine makeSpecialization sound ⟨?_, original, ?_, idle⟩
          (within_ofArguments _ given) lower fewer
        · exact Engine.hasClass_of_typeParameters (Bool.eq_false_iff.mpr unresolved)
        · exact (before.store.length_signatureOf id arguments).trans_le
            (length_typeParameters_le before.store id)

end Converges

section Depths

variable {nodes : List NodeId}

/-- Engines converge if specializations do, as every evaluation lowers what remains. -/
theorem shallower_of_specializes {bound : ℕ ×ₗ ℕ}
    (specializes : ∀ middle : Progress, middle.remaining nodes ≤ bound →
      SpecializesFrom nodes middle) : Shallower nodes bound := by
  induction bound using WellFoundedLT.induction with
  | ind bound inductionHypothesis =>
    refine fun known => ⟨?_, ?_⟩
    · intro second _ function isKnown environment before sound few
      have shallower (less : ℕ ×ₗ ℕ) (lower : less < before.remaining nodes) :
          Shallower nodes less :=
        inductionHypothesis less (lower.trans_le few) fun middle fewer =>
          specializes middle (fewer.trans (lower.trans_le few).le)
      refine (Converges.evaluateFunction sound shallower isKnown).mono fun after => ?_
      rintro (rfl | less)
      · exact few
      · exact (less.trans_le few).le
    · intro second _ id arguments _ given environment before sound few
      exact (specializes before few sound id given).mono fun after onward =>
        onward.remaining.trans few

/-- Every request converges from every progress, by induction on what remains and, where the
same remains, on how many requests could begin. -/
theorem specializesFrom (before : Progress) : SpecializesFrom nodes before := by
  suffices both : ∀ bound : ℕ ×ₗ ℕ, ∀ count, ∀ before : Progress,
      before.remaining nodes = bound → before.store.requests.ncard = count →
        SpecializesFrom nodes before ∧ SpecializesConstructedFrom nodes before from
    fun {_ _} sound => (both _ _ before rfl rfl).1 sound
  intro bound
  induction bound using WellFoundedLT.induction with
  | ind bound lower =>
    intro count
    induction count using Nat.strong_induction_on with
    | h count fewer =>
      rintro before rfl rfl
      have lower (middle : Progress) (less : middle.remaining nodes < before.remaining nodes) :=
        lower _ less _ middle rfl rfl
      have constructed : SpecializesConstructedFrom nodes before := by
        intro known environment sound id arguments original given
        refine Converges.specializeConstructed sound (fun middle less => (lower middle less).1)
          (fun middle same less => ?_) original given
        exact (fewer _ less middle same rfl).1
      refine ⟨?_, constructed⟩
      intro known environment sound id arguments given
      have shallower (less : ℕ ×ₗ ℕ) (below : less < before.remaining nodes) :
          Shallower nodes less :=
        shallower_of_specializes fun middle few => (lower middle (few.trans_lt below)).1
      exact Converges.specialize sound shallower constructed
        (fun middle less => (lower middle less).2) id given

/-- Engines converge, whatever remains. -/
theorem shallower (nodes : List NodeId) (bound : ℕ ×ₗ ℕ) : Shallower nodes bound :=
  shallower_of_specializes fun middle _ => specializesFrom middle

end Depths

end TypeInference
