import TypeInference.Proofs.Declaring
import TypeInference.Proofs.Deepening
import TypeInference.Proofs.Proceeding
import TypeInference.Proofs.Remaining

/-!
# Convergence

A family of analyses converges from sound progress if it stabilizes and what it leaves is
sound again, with the same scopes open and perhaps more functions known. Nothing that changes
the progress outside of engines raises what remains, so convergence with so much remaining at
most is a logic: it is obeyed by all analyses of the library if engines obey it.
-/

namespace TypeInference

open Analysis

/-- A family of analyses stabilizes, and what it leaves is sound with some functions known. -/
structure ConvergesTo (nodes : List NodeId) (known : FunctionId → Prop)
    (environment : Environment) (before : Progress) {α : Type} [Refers α]
    (analyses : Nat → Analysis α) (later : FunctionId → Prop) (result : α)
    (after : Progress) : Prop where
  knows : ∀ id, known id → later id
  stable : Stabilizes analyses environment before result after
  sound : after.Sound nodes later environment
  lasting : before.store.Extends after.store
  stack : after.scopes.stack = before.scopes.stack
  within : Within later result

/-- A family of analyses converges, and something is true of what it leaves. -/
def Converges (nodes : List NodeId) (known : FunctionId → Prop) (environment : Environment)
    (before : Progress) {α : Type} [Refers α] (analyses : Nat → Analysis α)
    (kept : Progress → Prop) : Prop :=
  ∃ later result after,
    ConvergesTo nodes known environment before analyses later result after ∧ kept after

section Laws

variable {nodes : List NodeId} {known : FunctionId → Prop} {environment : Environment}
  {before : Progress} {α β : Type} [Refers α] [Refers β] {kept : Progress → Prop}

/-- What gives a result at every depth. -/
theorem Converges.of_ok {analyses : Nat → Analysis α} {later : FunctionId → Prop} {result : α}
    {after : Progress}
    (returned : ∀ depth, analyses depth environment before = .ok result after)
    (knows : ∀ id, known id → later id) (sound : after.Sound nodes later environment)
    (lasting : before.store.Extends after.store)
    (stack : after.scopes.stack = before.scopes.stack) (within : Within later result)
    (keeps : kept after) : Converges nodes known environment before analyses kept :=
  ⟨later, result, after, ⟨knows, .of_ok returned, sound, lasting, stack, within⟩, keeps⟩

theorem Converges.pure (sound : before.Sound nodes known environment) {result : α}
    (within : Within known result) (keeps : kept before) :
    Converges nodes known environment before (fun _ => Pure.pure result) kept :=
  .of_ok (fun _ => rfl) (fun _ => id) sound (.refl _) rfl within keeps

theorem Converges.bind {first : Nat → Analysis α} {next : Nat → α → Analysis β}
    {between : Progress → Prop}
    (begins : Converges nodes known environment before first between)
    (continues : ∀ later result after, ConvergesTo nodes known environment before first later
      result after → between after →
        Converges nodes later environment after (fun depth => next depth result) kept) :
    Converges nodes known environment before (fun depth => first depth >>= next depth) kept := by
  obtain ⟨later, found, middle, begun, keptBetween⟩ := begins
  obtain ⟨last, result, after, continued, keeps⟩ := continues later found middle begun keptBetween
  refine ⟨last, result, after, ⟨?_, ?_, continued.sound, ?_, ?_, continued.within⟩, keeps⟩
  · exact fun id isKnown => continued.knows id (begun.knows id isKnown)
  · exact begun.stable.bind continued.stable
  · exact begun.lasting.trans continued.lasting
  · exact continued.stack.trans begun.stack

theorem Converges.mono {analyses : Nat → Analysis α} {more : Progress → Prop}
    (converges : Converges nodes known environment before analyses kept)
    (keeps : ∀ after, kept after → more after) :
    Converges nodes known environment before analyses more := by
  obtain ⟨later, result, after, converged, holds⟩ := converges
  exact ⟨later, result, after, converged, keeps after holds⟩

/-- After a first step that is the same at every depth. -/
theorem Converges.of_step {analyses rest : Nat → Analysis α} {middle : Progress}
    (converges : Converges nodes known environment middle rest kept)
    (steps : ∀ depth, analyses depth environment before = rest depth environment middle)
    (lasting : before.store.Extends middle.store)
    (stack : middle.scopes.stack = before.scopes.stack) :
    Converges nodes known environment before analyses kept := by
  obtain ⟨later, result, after, converged, keeps⟩ := converges
  refine ⟨later, result, after, ⟨converged.knows, ⟨?_, ?_⟩, converged.sound,
    lasting.trans converged.lasting, converged.stack.trans stack, converged.within⟩, keeps⟩
  · simpa only [steps] using converged.stable.enough
  · simpa only [steps] using converged.stable.otherwise

/-- An engine of some depth asks a shallower one. -/
theorem Converges.deeper {analyses asked : Nat → Analysis α}
    (converges : Converges nodes known environment before asked kept)
    (shallow : analyses 0 environment before = .error .tooDeep before)
    (asks : ∀ depth, analyses (depth + 1) environment before = asked depth environment before) :
    Converges nodes known environment before analyses kept := by
  obtain ⟨later, result, after, converged, keeps⟩ := converges
  exact ⟨later, result, after,
    { converged with stable := converged.stable.deeper shallow asks }, keeps⟩

/-- A change of the store that is made in any case. -/
theorem Converges.withCleanup {body : Nat → Analysis α} {change : Store → Store}
    {between : Progress → Prop}
    (converges : Converges nodes known environment before body between)
    (sound : ∀ later after, Progress.Sound nodes later environment after →
      Progress.Sound nodes later environment { after with store := change after.store })
    (lasting : ∀ store : Store, store.Extends (change store))
    (keeps : ∀ after, between after → kept { after with store := change after.store }) :
    Converges nodes known environment before (fun depth => Analysis.withCleanup (body depth)
      fun progress => { progress with store := change progress.store }) kept := by
  obtain ⟨later, result, after, converged, holds⟩ := converges
  exact ⟨later, result, _, ⟨converged.knows, converged.stable.withCleanup _,
    sound later after converged.sound, converged.lasting.trans (lasting _), converged.stack,
    converged.within⟩, keeps after holds⟩

/-- What reads the options goes on with them. -/
theorem Converges.options {next : Nat → Options → Analysis α}
    (continues : Converges nodes known environment before
      (fun depth => next depth environment.options) kept) :
    Converges nodes known environment before (fun depth => Analysis.options >>= next depth)
      kept :=
  continues.of_step (fun _ => rfl) (.refl _) rfl

/-- A scope is open while an analysis runs in it, and closed afterwards. -/
theorem Converges.inScope {node : NodeId}
    {kind : ScopeKind} {parent : Option ScopeId} {body : Nat → ScopeId → Analysis α}
    (inside : Converges nodes known environment
      { before with scopes := (before.scopes.push node kind parent).2 }
      (fun depth => body depth (before.scopes.push node kind parent).1) fun after =>
        ∀ scopes, kept { after with scopes })
    (opened : before.scopes.stack ≠ []) :
    Converges nodes known environment before
      (fun depth => Analysis.inScope node kind parent (body depth)) kept := by
  obtain ⟨later, result, after, converged, keeps⟩ := inside
  have stack : (after.scopes.truncate before.scopes.depth).stack = before.scopes.stack :=
    Scopes.truncate_of_suffix after.scopes [_] before.scopes.stack
      (converged.stack.trans (Scopes.stack_push _ _ _ _))
  have closed := converged.stable.withCleanup fun progress =>
    { progress with scopes := progress.scopes.truncate before.scopes.depth }
  refine ⟨later, result, _, ⟨converged.knows, ⟨closed.enough, closed.otherwise⟩,
    converged.sound.changeScopes (within_truncate converged.sound.visible.within _) ?_,
    converged.lasting, stack, converged.within⟩, keeps _⟩
  rw [stack]
  exact opened

/-- The scope of a node can be opened. -/
theorem Progress.Sound.push (sound : before.Sound nodes known environment) (node : NodeId)
    (kind : ScopeKind) (parent : Option ScopeId) : Progress.Sound nodes known environment
      { before with scopes := (before.scopes.push node kind parent).2 } := by
  refine sound.changeScopes (within_push sound.visible.within node kind parent) ?_
  rw [Scopes.stack_push]
  exact List.cons_ne_nil _ _

end Laws

/-- A family of analyses that begins in any sound progress of some kind converges to progress
of this kind. -/
def Judgement.convergence (nodes : List NodeId) (kept : Progress → Prop) : Judgement where
  Index := Nat
  World := FunctionId → Prop
  Later known later := ∀ id, known id → later id
  later_refl _ _ := id
  later_trans one other id isKnown := other id (one id isKnown)
  Near known near := ∀ id, known id → near id
  near_of_later := id
  near_trans one other id isKnown := other id (one id isKnown)
  Known known := known
  known_later passed := References.ofFunctions_mono passed
  Holds known _ _ analyses := ∀ environment before, Progress.Sound nodes known environment before →
    kept before → Converges nodes known environment before analyses kept
  pure within _ _ sound keeps := .pure sound within keeps
  bind begins continues environment before sound keeps :=
    (begins environment before sound keeps).bind fun _ result after converged holds =>
      continues converged.knows result converged.within environment after converged.sound holds
  reads continues environment before sound keeps :=
    .of_step (continues (fun _ => id) before.store sound.stored
      (.of_union (fun _ => trivial) _) environment before sound keeps)
      (fun _ => rfl) (.refl _) rfl

section Parts

variable {nodes : List NodeId} {bound : ℕ ×ₗ ℕ} {known : FunctionId → Prop}
  {environment : Environment} {before : Progress}

/-- A change of the scopes that keeps what is open. -/
theorem Converges.changeScopes (sound : before.Sound nodes known environment)
    (keeps : before.remaining nodes ≤ bound) {change : Scopes → Except Fault Scopes}
    (changes : ∃ scopes, change before.scopes = .ok scopes ∧ Within known scopes ∧
      scopes.stack = before.scopes.stack) :
    Converges nodes known environment before (fun _ => Analysis.changeScopes change)
      fun after => after.remaining nodes ≤ bound := by
  obtain ⟨scopes, changed, within, stack⟩ := changes
  have opened : scopes.stack ≠ [] := stack ▸ sound.visible.opened
  exact .of_ok (fun _ => changeScopes_of_ok environment changed) (fun _ => id)
    (sound.changeScopes within opened) (.refl _) stack (within_unit ()) keeps

/-- What a name means, and the scopes after it was looked up. -/
theorem lookupName?_apply (name : String) (reach : Reach) (environment : Environment)
    (before : Progress) :
    lookupName? name reach environment before =
      .ok (match (before.scopes.lookup name reach).1 with
          | some (_, found) => some found.value
          | none => if reach.builtins then environment.registry.find? name else none)
        { before with scopes := (before.scopes.lookup name reach).2 } := by
  simp only [lookupName?, bind_apply, read_apply, onScopes_apply]
  cases (before.scopes.lookup name reach).1 <;> rfl

theorem Converges.lookupName? (sound : before.Sound nodes known environment)
    (keeps : before.remaining nodes ≤ bound) (name : String) (reach : Reach) :
    Converges nodes known environment before (fun _ => Analysis.lookupName? name reach)
      fun after => after.remaining nodes ≤ bound := by
  have looked := within_lookup sound.visible.within name reach
  have stack := Scopes.stack_lookup before.scopes name reach
  have opened : (before.scopes.lookup name reach).2.stack ≠ [] := stack ▸ sound.visible.opened
  refine .of_ok (fun _ => lookupName?_apply name reach environment before) (fun _ => id)
    (sound.changeScopes looked.2 opened) (.refl _) stack ?_ keeps
  split
  · next scope found given => exact (within_some _).mpr (looked.1 _ given)
  · exact within_ite (OrderedTable.within_find? sound.registered name) within_none

/-- A change of the contents of the store. -/
theorem Converges.changeStore (sound : before.Sound nodes known environment)
    (keeps : before.remaining nodes ≤ bound) {change : Store → Store}
    (stored : Within known (change before.store))
    (alike : before.store.Alike (change before.store)) :
    Converges nodes known environment before (fun _ => modifyStore change)
      fun after => after.remaining nodes ≤ bound := by
  have same : Progress.remaining nodes { before with store := change before.store } =
      before.remaining nodes := Progress.remaining_of_alike rfl alike.node alike.states
  exact .of_ok (fun _ => rfl) (fun _ => id) (sound.changeStore stored alike) alike.extends rfl
    (within_unit ()) (same.trans_le keeps)

/-- A declared class begins without anything that could mention a function. -/
theorem Converges.createClass (sound : before.Sound nodes known environment)
    (keeps : before.remaining nodes ≤ bound) (definition : ClassDefinition) :
    Converges nodes known environment before (fun _ => Engine.createClass definition)
      fun after => after.remaining nodes ≤ bound := by
  obtain ⟨qualifiedName, created⟩ := Engine.createClass_apply definition environment before
  have blank : Within known (Engine.declaredClass definition qualifiedName) :=
    ⟨within_nil, within_nil, within_noBindings, within_none, within_nil, within_nil⟩
  have added := sound.addClass blank fun _ impossible => nomatch impossible
  have same : Progress.remaining nodes _ = before.remaining nodes :=
    Progress.remaining_of_alike rfl (fun _ => rfl) fun _ => rfl
  exact .of_ok (fun _ => created) (fun _ => id) (added.insertClass _ _)
    (Store.extends_addClass _ _) rfl trivial (same.trans_le keeps)

/-- A class is given its bases, after they were evaluated. -/
theorem Converges.giveBases {engine : Nat → Engine} {bases : List Expression} (id : ClassId)
    (based : Converges nodes known environment before
      (fun depth => (engine depth).evaluateBases bases)
      fun after => after.remaining nodes ≤ bound) :
    Converges nodes known environment before (fun depth => (engine depth).giveBases id bases)
      fun after => after.remaining nodes ≤ bound := by
  refine based.bind fun later types after converged few => ?_
  refine .changeStore converged.sound few ?_ ?_
  · exact within_modifyClass (within_setBases converged.sound.stored id
      (within_withObject converged.within)) id fun _ recorded =>
        ⟨recorded.1, recorded.2.1, within_identity _, recorded.2.2.2⟩
  · exact (Store.alike_setBases _ id _).trans (Store.alike_modifyClass _ id fun _ => rfl)

/-- A declared function refers to nothing yet but to the class that declares it. -/
theorem within_declaredRecord {known : References} (definition : FunctionDefinition)
    {owner : Option ClassId} (owned : ∀ id, owner = some id → known (.owner id))
    (qualifiedName : String) :
    Within known (Engine.declaredRecord definition owner qualifiedName) := by
  refine ⟨?_, fun id declaring => owned id ?_⟩
  · rw [Engine.overloads_declaredRecord]
    exact (within_cons _ _).mpr ⟨⟨within_nil, within_none, within_nil⟩, within_nil⟩
  · rwa [Engine.declaringClass_declaredRecord] at declaring

/-- A declared function has one overload, which waits. -/
theorem declaredRecord_fresh (definition : FunctionDefinition) (owner : Option ClassId)
    (qualifiedName : String) :
    (Engine.declaredRecord definition owner qualifiedName).node = some definition.id ∧
      (Engine.declaredRecord definition owner qualifiedName).overloads.map (·.state) =
        [.pending] := by
  rw [Engine.overloads_declaredRecord]
  refine ⟨?_, rfl⟩
  cases owner with
  | none => rfl
  | some id =>
    unfold Engine.declaredRecord FunctionRecord.inClass FunctionRecord.addOverload
    dsimp only
    split <;> rfl

/-- A function is declared if its decorators can be evaluated. -/
theorem Converges.declareFunction (sound : before.Sound nodes known environment)
    (keeps : before.remaining nodes ≤ bound) {engine : Nat → Engine}
    {definition : FunctionDefinition} (owner : Option ClassId) (among : definition.Among nodes)
    (decorated : ∀ function, ∀ middle, Progress.Sound nodes known environment middle →
      middle.remaining nodes ≤ bound → Converges nodes known environment middle
        (fun depth => (engine depth).applyDecorators function definition.decorators)
          fun after => after.remaining nodes ≤ bound) :
    Converges nodes known environment before
      (fun depth => (engine depth).declareFunction definition owner)
        fun after => after.remaining nodes ≤ bound := by
  have listed : definition.id ∈ nodes := by
    obtain ⟨id, _, _, _, _, _, _⟩ := definition
    exact among _ List.mem_cons_self _ rfl
  cases known? : before.symbols.function? definition.id with
  | some entry =>
    have mentioned := (sound.entries entry (Symbols.mem_of_function? known?).1).1
    refine .of_ok (fun _ => ?_) (fun _ => id) sound (.refl _) rfl mentioned keeps
    exact Engine.declareFunction_of_known _ owner environment known?
  | none =>
    obtain ⟨qualifiedName, named⟩ : ∃ qualifiedName,
        Analysis.qualifiedName definition.name.name environment before =
          .ok qualifiedName before := ⟨_, rfl⟩
    have begins (engine : Engine) := engine.declareFunction_of_new owner named known?
    have within : Within known (Engine.declaredRecord definition owner qualifiedName) :=
      within_declaredRecord definition (fun _ _ => trivial) qualifiedName
    obtain ⟨node, pending⟩ := declaredRecord_fresh definition owner qualifiedName
    let created : Progress := { before with
      store := (before.store.addFunction
        (Engine.declaredRecord definition owner qualifiedName)).2 }
    have added : created.Sound nodes known environment := sound.addFunction within ⟨_, pending⟩
    have fewer : created.remaining nodes ≤ bound :=
      (Progress.remaining_addFunction before node known?).trans keeps
    have there : created.store.HasFunction before.store.nextFunction :=
      (Store.hasFunction_addFunction _ _ _).mpr (.inr rfl)
    have declared : Converges nodes known environment created
        (fun depth => (engine depth).applyDecorators before.store.nextFunction
          definition.decorators >>= fun _ =>
            Engine.finishDeclaration definition before.store.nextFunction)
        fun after => after.remaining nodes ≤ bound := by
      refine (decorated before.store.nextFunction created added fewer).bind ?_
      intro later _ middle converged fewer
      obtain ⟨scope, current⟩ := Scopes.current_of_stack converged.sound.visible.opened
      have definedBy : (middle.store.functionAt before.store.nextFunction).node =
          some definition.id := by
        rw [converged.lasting.node _ there, ← node]
        exact congrArg (·.node) (Store.functionAt_addFunction _ _)
      let entry : FunctionEntry := ⟨definition, scope, before.store.nextFunction⟩
      have inserted : Progress.Sound nodes _ environment
          { middle with symbols := middle.symbols.insert entry } :=
        converged.sound.insert among (converged.lasting.hasFunction _ there) definedBy
      exact .of_ok (fun _ => Engine.finishDeclaration_apply definition _ environment current)
        (fun _ => .inl) inserted (.refl _) rfl (.inr rfl)
        ((Progress.remaining_insert middle listed).trans fewer)
    exact declared.of_step (fun depth => begins (engine depth)) (Store.extends_addFunction _ _) rfl

end Parts

/-- Convergence where at most so much remains. -/
def Logic.convergence (nodes : List NodeId) (bound : ℕ ×ₗ ℕ) : Logic where
  toJudgement := .convergence nodes fun progress => progress.remaining nodes ≤ bound
  MayOpen _ _ := True
  mayOpen_later _ _ := id
  MayDefine _ definition := definition.Among nodes
  mayDefine_later _ _ := id
  options _ holds environment before sound keeps :=
    .options (holds environment.options environment before sound keeps)
  lookupName? name reach _ _ sound keeps := .lookupName? sound keeps name reach
  declare name _ kind node span given _ _ sound keeps :=
    .changeScopes sound keeps (sound.visible.declare name kind node span given)
  redirectGlobal name _ _ sound keeps :=
    .changeScopes sound keeps (sound.visible.declareGlobal name)
  redirectNonlocal name _ _ sound keeps :=
    .changeScopes sound keeps (sound.visible.declareNonlocal name)
  report _ _ _ _ sound keeps := .of_ok (fun _ => rfl) (fun _ => id) (sound.changeLog _)
    (.refl _) rfl (within_unit ()) keeps
  changeFunction function _ same within _ _ sound keeps :=
    .changeStore sound keeps (within_modifyFunction sound.stored function (within (fun _ => id) _))
      (Store.alike_modifyFunction _ function (fun record => (same _ record).1.node)
        fun record => (same _ record).2)
  setMember _ _ _ _ _ given _ _ sound keeps :=
    .changeStore sound keeps (within_addMember sound.stored _ _ given _)
      (Store.alike_addMember _ _ _ _ _)
  setAttribute _ _ _ given _ _ sound keeps :=
    .changeStore sound keeps (within_withAttribute sound.stored _ _ given)
      (Store.alike_withAttribute _ _ _ _)
  declaredClass _ _ _ sound keeps := .of_ok (fun _ => rfl) (fun _ => id) sound (.refl _) rfl
    (fun _ _ => trivial) keeps
  createClass definition _ _ based onwards environment _ sound keeps :=
    (Converges.createClass sound keeps definition).bind fun _ id middle created few =>
      (Converges.giveBases id (based created.knows environment middle created.sound few)).bind
        fun _ _ after given fewer =>
          onwards (fun _ isKnown => given.knows _ (created.knows _ isKnown)) id trivial environment
            after given.sound fewer
  inScope _ _ body environment _ sound keeps :=
    .inScope ((body _ environment _ (sound.push _ _ _) keeps).mono fun _ fewer _ => fewer)
      sound.visible.opened
  declareFunction owner among _ decorated environment _ sound keeps :=
    .declareFunction sound keeps owner among fun function middle sound keeps =>
      decorated (fun _ => id) (fun _ _ => trivial) function environment middle sound keeps

end TypeInference
