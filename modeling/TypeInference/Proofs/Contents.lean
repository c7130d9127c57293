import TypeInference.Proofs.Evidence
import TypeInference.Proofs.Lockstep
import TypeInference.Proofs.Memoization
import TypeInference.Proofs.Operations
import TypeInference.Proofs.Phrases

/-!
# What the content of a specialization depends on

Arguments reach a specialization in two ways: by the types that they bind to parameters,
which make its signature, and by the types that were discovered in sampling, which become
bases. Where no overload is pending the signature decides everything but the bases, as long
as the same types stand behind it: the same class is made with the same members, and
everything that is made on the way is the same. Its own bases are those of the template with
the types discovered, so that the contents differ exactly if the discovered types are not
represented alike. They are no part of the signature, and the first content made stays.
-/

namespace TypeInference

open Store

namespace Store

/-- What arguments show of the parameters of a template. -/
def evidence (store : Store) (template : ClassId) (arguments : Arguments) : Evidence :=
  .ofArguments store template (store.typeParameters template) arguments

/-- Arguments ask for a specialization that the template neither has nor is making. -/
structure AsksAnew (store : Store) (template : ClassId) (arguments : Arguments) : Prop where
  original : (store.classAt template).template = none
  resolved : (store.typeParameters template).all
    (store.evidence template arguments).bindings.isUnresolved = false
  uncached : (store.classAt template).specializations.find?
    (store.signature (store.evidence template arguments).bindings) = none
  idle : Engine.unfinished? store template
    (store.signature (store.evidence template arguments).bindings) = none

instance (store : Store) (template : ClassId) (arguments : Arguments) :
    Decidable (store.AsksAnew template arguments) :=
  decidable_of_iff ((store.classAt template).template = none ∧
      (store.typeParameters template).all
        (store.evidence template arguments).bindings.isUnresolved = false ∧
      (store.classAt template).specializations.find?
        (store.signature (store.evidence template arguments).bindings) = none ∧
      Engine.unfinished? store template
        (store.signature (store.evidence template arguments).bindings) = none)
    ⟨fun ⟨original, resolved, uncached, idle⟩ => ⟨original, resolved, uncached, idle⟩,
      fun ⟨original, resolved, uncached, idle⟩ => ⟨original, resolved, uncached, idle⟩⟩

/-- The beginning of a specialization, from which runs go on that give it its bases. -/
theorem Parallel.ofBegin {store : Store} {template : ClassId} (bindings : Bindings)
    (present : store.HasClass template)
    (idle : Engine.unfinished? store template (store.signature bindings) = none) :
    Parallel store store.nextClass ([], []) (store.begin template bindings)
      (store.begin template bindings) where
  functions := rfl
  sameFunctions := rfl
  grown := by simp [Store.begin, Engine.beginSpecialization, Store.addClass]
  sameSize := rfl
  lasting id old := by
    rw [classAt_begin store template id bindings present idle, if_neg (ne_nextClass old)]
    split <;> rfl
  alike _ := rfl
  sameBases _ _ := rfl
  later := store.not_hasClass_nextClass
  present := (store.hasClass_begin template _ bindings).mpr (.inr rfl)
  bases := by
    rw [Engine.begin_underived store template bindings present idle]
    rfl

end Store

namespace Engine

open Analysis

/-- A specialization that is made is the class that was its placeholder. -/
theorem makeSpecialization_gives {engine : Engine} (proceeds : engine.Proceeds False)
    (template : ClassId) (evidence : Evidence) (environment : Environment)
    {before after : Progress} {result : ClassId} (present : before.store.HasClass template)
    (uncached : (before.store.classAt template).specializations.find?
      (before.store.signature evidence.bindings) = none)
    (idle : unfinished? before.store template (before.store.signature evidence.bindings) = none)
    (returned : engine.makeSpecialization template evidence environment before =
      .ok result after) : result = before.store.nextClass := by
  have began : Step False before.store (.begun template _ _) _ :=
    .begin before.store template evidence.bindings present uncached idle
  have outcome := makeSpecialization_outcome True proceeds template evidence
    environment before (fun _ _ _ _ impossible => impossible.elim) present uncached idle
  rw [returned] at outcome
  obtain ⟨made, making, _, _, stored⟩ := outcome
  obtain ⟨events, course, quiet⟩ := making.course
  -- When the specialization has begun, its placeholder is the answer of the template.
  have begun : (before.store.begin template evidence.bindings).answer? template
      (before.store.signature evidence.bindings) = some before.store.nextClass := by
    have entries : ((before.store.begin template evidence.bindings).classAt
        template).unfinished.entries = ⟨((before.store.begin template
          evidence.bindings).classAt template).hash, before.store.signature evidence.bindings,
            before.store.nextClass⟩ :: (before.store.classAt template).unfinished.entries := by
      rw [began.unfinished template, (began.sameIdentity present).hash]
      simp [Event.stackAfter]
    rw [answer?_of_entries entries, began.specializations template]
    simp [Event.cacheAfter, uncached]
  -- It stays the answer, as a specialization that is made is not abandoned meanwhile.
  have answered := course.answer? begun fun placeholder listed =>
    quiet trivial _ listed trivial
  rw [stored, SpecializationCache.stored]
  cases cached : (made.classAt template).specializations.find?
      (before.store.signature evidence.bindings) with
  | none => rfl
  | some finished =>
    rw [Store.answer?, cached] at answered
    exact Option.some.inj answered

/-- A placeholder is given its bases once those of the template are specialized, and its
members after that. -/
theorem materialize_apply (engine : Engine) (template placeholder : ClassId)
    (evidence : Evidence) (environment : Environment) (before : Progress) :
    engine.materialize template placeholder evidence environment before =
      match engine.substituteBases evidence.bindings (before.store.classAt template).bases
        environment before with
      | .ok common middle =>
        engine.copyAll evidence.bindings template placeholder environment
          { middle with
            store := middle.store.setBases placeholder
              (evidence.bases.foldl (addDiscovered middle.store) common) }
      | .error failure after => .error failure after := by
  unfold materialize
  rw [bind_apply, store_apply]
  dsimp only
  rw [bind_apply]
  cases engine.substituteBases evidence.bindings (before.store.classAt template).bases
    environment before <;> rfl

/-- Runs that materialize a placeholder for one list of bindings go on in parallel from
where the bases of the template are specialized. -/
theorem materialize_diverges {origin : Store} {made : ClassId} {begun : List Ty × List Ty}
    {engine : Engine} (closed : origin.Closed)
    (keeps : ∀ bases, engine.KeepsParallel origin made bases) {template : ClassId}
    (old : origin.HasClass template) {first second : Evidence}
    (same : second.bindings = first.bindings) (environment : Environment) {before : Progress}
    (parallel : Progress.Parallel origin made begun before before) {common : List Ty}
    {middle : Progress}
    (based : engine.substituteBases first.bindings (before.store.classAt template).bases
      environment before = .ok common middle) :
    EndAlike origin made
      (first.bases.foldl (addDiscovered middle.store) common,
        second.bases.foldl (addDiscovered middle.store) common)
      (engine.materialize template made first environment before)
      (engine.materialize template made second environment before) := by
  have specialized := substituteBases_parallel closed (keeps begun) first.bindings
    (before.store.classAt template).bases
    (fun id among => parallel.stores.hasClass_base closed old among) environment parallel
  rw [based] at specialized
  cases specialized with
  | ok _ still =>
    rw [materialize_apply, materialize_apply, same, based]
    exact copyAll_parallel closed (keeps _) first.bindings old parallel.stores.later environment
      ⟨still.stores.diverge _ _, rfl⟩

/-- The constructor of a class is there where no overload is pending. -/
theorem ensureConstructed_of_deep (depth : Nat) (id : ClassId) (environment : Environment)
    {before : Progress} (settled : before.store.NoOverloadIs .pending) :
    (Engine.atDepth (depth + 1)).ensureConstructed id environment before = .ok () before := by
  unfold ensureConstructed
  rw [bind_apply, store_apply]
  dsimp only
  split
  · rfl
  · cases (before.store.ownMember? (before.store.templateOf id) "__init__").bind
      Value.asFunction? with
    | none => rfl
    | some constructor => exact evaluateDefinition_of_settled constructor environment settled

/-- It is there, or out of reach. -/
theorem ensureConstructed_of_settled (depth : Nat) (id : ClassId) (environment : Environment)
    {before : Progress} (settled : before.store.NoOverloadIs .pending) :
    (Engine.atDepth depth).ensureConstructed id environment before = .ok () before ∨
      (Engine.atDepth depth).ensureConstructed id environment before =
        .error .tooDeep before := by
  cases depth with
  | succ depth => exact .inl (ensureConstructed_of_deep depth id environment settled)
  | zero =>
    unfold ensureConstructed
    rw [bind_apply, store_apply]
    dsimp only
    split
    · exact .inl rfl
    · cases (before.store.ownMember? (before.store.templateOf id) "__init__").bind
        Value.asFunction? with
      | none => exact .inl rfl
      | some constructor => exact .inr rfl

/-- Arguments that ask for a new specialization make one. -/
theorem specialize_anew {depth : Nat} {template : ClassId} {arguments : Arguments}
    {environment : Environment} {before : Progress}
    (anew : before.store.AsksAnew template arguments)
    (constructed : (Engine.atDepth depth).ensureConstructed template environment before =
      .ok () before) :
    (Engine.atDepth (depth + 1)).specialize template arguments environment before =
      (Engine.atDepth depth).makeSpecialization template
        (before.store.evidence template arguments) environment before := by
  change specializeClass (Engine.atDepth depth) template arguments environment before = _
  unfold specializeClass
  rw [bind_apply, store_apply]
  dsimp only
  rw [anew.original]
  dsimp only
  rw [bind_apply, constructed]
  dsimp only
  rw [bind_apply, store_apply]
  dsimp only
  rw [← Store.evidence, if_neg (Bool.eq_false_iff.mp anew.resolved), anew.uncached, anew.idle]

/-- A placeholder that is materialized is materialized in parallel from other discovered
types, and alike if these come to the same bases. -/
theorem materialize_content {depth : Nat} {template : ClassId} {first second : Evidence}
    {environment : Environment} {before final : Progress} (closed : before.store.Closed)
    (settled : before.store.NoOverloadIs .pending) (present : before.store.HasClass template)
    (idle : unfinished? before.store template (before.store.signature first.bindings) = none)
    (same : second.bindings = first.bindings)
    (made : (Engine.atDepth depth).materialize template before.store.nextClass first environment
      { before with store := before.store.begin template first.bindings } = .ok () final) :
    ∃ common middle otherFinal,
      (Engine.atDepth depth).substituteBases first.bindings (before.store.classAt template).bases
          environment { before with store := before.store.begin template first.bindings } =
        .ok common middle ∧
      (Engine.atDepth depth).materialize template before.store.nextClass second environment
          { before with store := before.store.begin template first.bindings } =
        .ok () otherFinal ∧
      Progress.Parallel before.store before.store.nextClass
        (first.bases.foldl (addDiscovered middle.store) common,
          second.bases.foldl (addDiscovered middle.store) common) final otherFinal ∧
      (first.bases.foldl (addDiscovered middle.store) common =
          second.bases.foldl (addDiscovered middle.store) common → otherFinal = final) := by
  have begun : Progress.Parallel before.store before.store.nextClass ([], [])
      { before with store := before.store.begin template first.bindings }
      { before with store := before.store.begin template first.bindings } :=
    ⟨.ofBegin first.bindings present idle, rfl⟩
  have sameBases := begun.stores.readsLasting (·.bases) (fun _ => rfl) present
  have whole := made
  rw [materialize_apply, sameBases] at whole
  cases based : (Engine.atDepth depth).substituteBases first.bindings
      (before.store.classAt template).bases environment
      { before with store := before.store.begin template first.bindings } with
  | error failure _ =>
    rw [based] at whole
    cases whole
  | ok common middle =>
    -- Both runs are one run up to here; what they give the placeholder differs.
    have ends := materialize_diverges closed (fun _ => atDepth_parallel closed settled depth)
      present same environment begun (sameBases ▸ based)
    have alike : first.bases.foldl (addDiscovered middle.store) common =
          second.bases.foldl (addDiscovered middle.store) common →
        (Engine.atDepth depth).materialize template before.store.nextClass second environment
          { before with store := before.store.begin template first.bindings } = .ok () final := by
      intro discovered
      rw [← made, materialize_apply, materialize_apply, same, sameBases, based]
      dsimp only
      rw [discovered]
    rw [made] at ends
    generalize (Engine.atDepth depth).materialize template before.store.nextClass second
      environment { before with store := before.store.begin template first.bindings } = other
      at ends alike
    cases ends with
    | ok _ parallel =>
      refine ⟨common, middle, _, rfl, rfl, parallel, fun discovered => ?_⟩
      cases alike discovered
      rfl

/-- Making a specialization from two lists of discovered types and the same bindings. -/
theorem makeSpecialization_content {depth : Nat} {template : ClassId} {first second : Evidence}
    {environment : Environment} {before after : Progress} {result : ClassId}
    (closed : before.store.Closed) (settled : before.store.NoOverloadIs .pending)
    (present : before.store.HasClass template)
    (uncached : (before.store.classAt template).specializations.find?
      (before.store.signature first.bindings) = none)
    (idle : unfinished? before.store template (before.store.signature first.bindings) = none)
    (same : second.bindings = first.bindings)
    (returned : (Engine.atDepth depth).makeSpecialization template first environment before =
      .ok result after) :
    ∃ common middle otherAfter,
      (Engine.atDepth depth).substituteBases first.bindings (before.store.classAt template).bases
          environment { before with store := before.store.begin template first.bindings } =
        .ok common middle ∧
      (Engine.atDepth depth).makeSpecialization template second environment before =
        .ok result otherAfter ∧
      Progress.Parallel before.store result
        (first.bases.foldl (addDiscovered middle.store) common,
          second.bases.foldl (addDiscovered middle.store) common) after otherAfter ∧
      ((otherAfter.store.classAt result).bases = (after.store.classAt result).bases ↔
        otherAfter = after) := by
  obtain rfl := makeSpecialization_gives (atDepth_proceeds depth) template first environment
    present uncached idle returned
  rw [makeSpecialization_apply] at returned
  rw [makeSpecialization_apply, same]
  cases made : (Engine.atDepth depth).materialize template before.store.nextClass first
      environment { before with store := before.store.begin template first.bindings } with
  | error failure _ =>
    rw [made] at returned
    cases returned
  | ok _ final =>
    obtain ⟨common, middle, otherFinal, based, otherMade, parallel, alike⟩ :=
      materialize_content closed settled present idle same made
    rw [made] at returned
    simp only [EStateM.Result.ok.injEq] at returned
    obtain ⟨stored, rfl⟩ := returned
    have finished := parallel.withStores (parallel.stores.finish template
      (before.store.signature first.bindings) before.store.nextClass)
    refine ⟨common, middle, _, based, ?_, finished, fun sameGiven => ?_, fun equal => by
      rw [equal]⟩
    · rw [otherMade]
      dsimp only
      rw [parallel.stores.reads (·.specializations) (fun _ => rfl), stored]
    · -- Finishing leaves the bases alone, so they are the discovered ones of either side.
      obtain ⟨firstBases, secondBases⟩ := Prod.mk.inj finished.stores.bases
      rw [alike ((firstBases.symm.trans sameGiven.symm).trans secondBases)]

/-- What the content of a specialization depends on. Where no overload is pending and records
refer to records of the store, two argument lists that ask for a new specialization with the
same types behind its signature get the same class. All classes have the same records then, up
to the bases of that class and to orders; its bases are those of the template, specialized,
and the types that the arguments have discovered where these are not represented. What is left
is the same altogether if and only if its bases are.

Proof: until the placeholder gets its bases the runs are one run, and from there they go on
in parallel. -/
theorem specialization_content {depth : Nat} {template : ClassId} {first second : Arguments}
    {environment : Environment} {before after : Progress} {result : ClassId}
    (closed : before.store.Closed) (settled : before.store.NoOverloadIs .pending)
    (anew : before.store.AsksAnew template first)
    (sameTypes : (before.store.evidence template second).bindings.types =
      (before.store.evidence template first).bindings.types)
    (returned : (Engine.atDepth (depth + 1)).specialize template first environment before =
      .ok result after) :
    ∃ common middle otherAfter,
      (Engine.atDepth depth).substituteBases (before.store.evidence template first).bindings
          (before.store.classAt template).bases environment
          { before with
            store := before.store.begin template (before.store.evidence template first).bindings } =
        .ok common middle ∧
      (Engine.atDepth (depth + 1)).specialize template second environment before =
        .ok result otherAfter ∧
      Progress.Parallel before.store result
        ((before.store.evidence template first).bases.foldl (addDiscovered middle.store) common,
          (before.store.evidence template second).bases.foldl (addDiscovered middle.store) common)
        after otherAfter ∧
      ((otherAfter.store.classAt result).bases = (after.store.classAt result).bases ↔
        otherAfter = after) := by
  -- Bindings have the parameters of the template as keys, so the types are all that differs.
  have same : (before.store.evidence template second).bindings =
      (before.store.evidence template first).bindings :=
    Bindings.eq_of_keys_types ((Evidence.keys_ofArguments ..).trans
      (Evidence.keys_ofArguments ..).symm) sameTypes
  have present : before.store.HasClass template := hasClass_of_typeParameters anew.resolved
  have anewSecond : before.store.AsksAnew template second :=
    ⟨anew.original, same ▸ anew.resolved, same ▸ anew.uncached, same ▸ anew.idle⟩
  -- The constructor was within reach, since there was a result.
  have constructed : (Engine.atDepth depth).ensureConstructed template environment before =
      .ok () before := by
    refine (ensureConstructed_of_settled depth template environment settled).resolve_right
      fun failed => ?_
    change specializeClass (Engine.atDepth depth) template first environment before = _ at returned
    unfold specializeClass at returned
    rw [bind_apply, store_apply] at returned
    dsimp only at returned
    rw [anew.original] at returned
    dsimp only at returned
    rw [bind_apply, failed] at returned
    cases returned
  rw [specialize_anew anew constructed] at returned
  rw [specialize_anew anewSecond constructed]
  exact makeSpecialization_content closed settled present anew.uncached anew.idle same returned

/-- Types that are classes are known by these. -/
theorem types_of_classes {types : List Ty} (ids : List ClassId)
    (classes : types.map Ty.asClass? = ids.map some) : types = ids.map Ty.cls := by
  induction types generalizing ids with
  | nil => cases ids with
    | nil => rfl
    | cons => cases classes
  | cons ty rest inductionHypothesis =>
    cases ids with
    | nil => cases classes
    | cons id others =>
      obtain ⟨own, remaining⟩ := List.cons.inj classes
      cases ty with
      | cls found => cases own; rw [inductionHypothesis others remaining, List.map_cons]
      | _ => cases own

/-- A generic class, a class derived from it, and a specialization of the former. -/
def derivingClasses : List Statement :=
  [.typeVariable "T", .defineClass 1 "Base" [.indexed "Generic" "T"] [],
    .defineClass 2 "Derived" [.indexed "Base" "T"] [], .define "b" (.indexed "Base" "int")]

/-- The classes, declared in the scope of a module that is open. -/
def derivationDeclared : Progress :=
  Operation.performAll 3 Registry.environment Registry.start
    [.openScope .module .module none, .walkBlock .module derivingClasses]

/-- The derived class. -/
def derivedTemplate : ClassId :=
  ⟨Registry.standard.store.nextClass.index + 1⟩

/-- An object of the base specialized for integers, and a text. -/
def sampledArguments : Arguments :=
  .ofValues [.object (.cls ⟨derivedTemplate.index + 1⟩) .plain,
    .object (builtinType .str) .plain] .unknown

/-- The type of texts. -/
def typeArguments : Arguments :=
  .ofTypes [builtinType .str] .unknown

/-- The class that both ask for. -/
def derivedOfTexts : ClassId :=
  ⟨derivedTemplate.index + 2⟩

/-- What is left after the derived class was specialized. -/
def specializedBy (arguments : Arguments) : Progress :=
  ((Engine.atDepth 3).specialize derivedTemplate arguments).after Registry.environment
    derivationDeclared

/-- An object of the base and a text make the same class as the type of texts alone, but for
its bases. -/
theorem specialization_content_derived :
    derivationDeclared.store.Closed ∧ derivationDeclared.store.NoOverloadIs .pending ∧
      derivationDeclared.store.AsksAnew derivedTemplate sampledArguments ∧
      ∃ bases otherAfter,
        (Engine.atDepth 3).specialize derivedTemplate typeArguments Registry.environment
          derivationDeclared = .ok derivedOfTexts otherAfter ∧
        Progress.Parallel derivationDeclared.store derivedOfTexts bases
          (specializedBy sampledArguments) otherAfter := by
  have closed : derivationDeclared.store.Closed := by decide +kernel
  have settled : derivationDeclared.store.NoOverloadIs .pending := by decide +kernel
  have anew : derivationDeclared.store.AsksAnew derivedTemplate sampledArguments :=
    ⟨by decide +kernel, by decide +kernel, by decide +kernel, by decide +kernel⟩
  have texts : (derivationDeclared.store.evidence derivedTemplate typeArguments).bindings.types =
      [builtinType .str] := types_of_classes [builtinClass .str] (by decide +kernel)
  have sampled : (derivationDeclared.store.evidence derivedTemplate
      sampledArguments).bindings.types = [builtinType .str] :=
    types_of_classes [builtinClass .str] (by decide +kernel)
  have returned : (Engine.atDepth 3).specialize derivedTemplate sampledArguments
      Registry.environment derivationDeclared = .ok derivedOfTexts
        (specializedBy sampledArguments) := ok_of_yields (by decide +kernel)
  obtain ⟨_, _, otherAfter, _, given, parallel, _⟩ :=
    specialization_content closed settled anew (texts.trans sampled.symm) returned
  exact ⟨closed, settled, anew, _, otherAfter, given, parallel⟩

/-- Its bases are not the same: an object of the base for integers makes that a base, besides
the base for texts. Which bases the class has for the rest of a run depends on who asks for it
first. -/
theorem specialization_content_differs :
    derivationDeclared.store.NoOverloadIs .pending ∧
      derivationDeclared.store.AsksAnew derivedTemplate sampledArguments ∧
      derivationDeclared.store.AsksAnew derivedTemplate typeArguments ∧
      derivationDeclared.store.signature
          (derivationDeclared.store.evidence derivedTemplate typeArguments).bindings =
        derivationDeclared.store.signature
          (derivationDeclared.store.evidence derivedTemplate sampledArguments).bindings ∧
      ((Engine.atDepth 3).specialize derivedTemplate sampledArguments).yields
        Registry.environment derivationDeclared derivedOfTexts = true ∧
      ((Engine.atDepth 3).specialize derivedTemplate typeArguments).yields
        Registry.environment derivationDeclared derivedOfTexts = true ∧
      ((specializedBy typeArguments).store.classAt derivedOfTexts).bases.map
          (specializedBy typeArguments).store.typeHash ≠
        ((specializedBy sampledArguments).store.classAt derivedOfTexts).bases.map
          (specializedBy sampledArguments).store.typeHash := by
  refine ⟨by decide +kernel, ⟨by decide +kernel, by decide +kernel, by decide +kernel,
    by decide +kernel⟩, ⟨by decide +kernel, by decide +kernel, by decide +kernel,
    by decide +kernel⟩, by decide +kernel, by decide +kernel, by decide +kernel,
    by decide +kernel⟩

end Engine

end TypeInference
