import TypeInference.Proofs.Chains
import TypeInference.Proofs.Evidence
import TypeInference.Proofs.Shortcuts

/-!
# Chains that are followed to their ends

A parameter that is bound to another bound parameter stands for what that one is bound to. To follow
it one step is to take a shortcut, for identities of parameters are places that lead to each other:
one that is not bound or is bound to itself leads to itself, and all types that are no parameters
are one place more. So the rounds that follow every parameter of a template once, one for each of
them, suffice, whatever the order is in which the parameters come and however their bindings lead
back (`Bindings.followChains_settles`).

Where no bindings lead back, the type that a parameter ends up with is the last one of its own
chain. On the way it only ever gets types of that chain, and a parameter that was resolved at first
is never where it stops: that would be bound to itself, and its own chain would lead back to it.
-/

namespace TypeInference.Bindings

open Function Shortcuts

variable {bindings : Bindings} {parameters : List TypeParameter} {parameter : TypeParameter}

/-- Where a parameter of a given identity leads: to what it is bound to, or to itself if it is not
bound. Nothing leads on from other types. -/
def successor (bindings : Bindings) : Option TypeHash → Option TypeHash
  | none => none
  | some hash =>
    match findIn hash bindings.entries with
    | some ty => ty.asParameter?.map TypeParameter.hash
    | none => some hash

/-- One round, in which every parameter is followed a step. -/
def followRound (parameters : List TypeParameter) (bindings : Bindings) : Bindings :=
  (parameters.foldl followOne (bindings, false)).1

/-- Whether a parameter of one identity is bound to another bound parameter. -/
def Leads (bindings : Bindings) (first second : TypeHash) : Prop :=
  first ≠ second ∧ (findIn second bindings.entries).isSome ∧
    ∃ target, findIn first bindings.entries = some (.parameter target) ∧ target.hash = second

/-- Whether a chain goes on from a type to another one: the first is a parameter that is bound to
the second, and not to itself. -/
def GoesOn (bindings : Bindings) (ty next : Ty) : Prop :=
  ∃ parameter, ty = .parameter parameter ∧ bindings.isUnresolved parameter = false ∧
    bindings.find? parameter = some next

/-- The last type of the chain that starts with a type. -/
def LastOf (bindings : Bindings) (ty last : Ty) : Prop :=
  Relation.ReflTransGen bindings.GoesOn ty last ∧ bindings.ends last = true

theorem successor_of_find? {ty : Ty} (found : bindings.find? parameter = some ty) :
    bindings.successor (some parameter.hash) = ty.asParameter?.map TypeParameter.hash := by
  rw [find?] at found
  simp only [successor, found]

theorem successor_of_missing (missing : bindings.find? parameter = none) :
    bindings.successor (some parameter.hash) = some parameter.hash := by
  rw [find?] at missing
  simp only [successor, missing]

/-- A parameter is unresolved if it leads to itself. -/
theorem isUnresolved_iff_successor : bindings.isUnresolved parameter = true ↔
    bindings.successor (some parameter.hash) = some parameter.hash := by
  unfold isUnresolved
  cases found : bindings.find? parameter with
  | none => exact iff_of_true rfl (successor_of_missing found)
  | some ty =>
    rw [successor_of_find? found]
    cases ty with
    | parameter target => simp [Ty.asParameter?]
    | unknown | cls _ | function _ | marker _ => simp [Ty.asParameter?]

/-- A bind changes where its parameter leads, and nothing else. -/
theorem successor_bind (ty : Ty) : (bindings.bind parameter ty).successor =
    update bindings.successor (some parameter.hash) (ty.asParameter?.map TypeParameter.hash) := by
  funext place
  cases place with
  | none => rfl
  | some hash =>
    simp only [successor, bind, findIn_bindIn]
    by_cases same : parameter.hash = hash
    · rw [same, update_self, if_pos rfl]
    · have apart : some hash ≠ some parameter.hash := fun equal => same (Option.some.inj equal).symm
      rw [update_of_ne apart, if_neg same]
      rfl

/-- A type at which chains end leads to itself. -/
theorem ends_iff_successor {ty : Ty} : bindings.ends ty = true ↔
    bindings.successor (ty.asParameter?.map TypeParameter.hash) =
      ty.asParameter?.map TypeParameter.hash := by
  cases ty with
  | parameter target => exact isUnresolved_iff_successor
  | unknown | cls _ | function _ | marker _ => exact iff_of_true rfl rfl

/-- To follow a parameter one step is to take a shortcut. -/
theorem successor_followOne (state : Bindings × Bool) (parameter : TypeParameter) :
    (followOne state parameter).1.successor =
      jump state.1.successor (some parameter.hash) := by
  rcases followOne_cases state parameter with ⟨same, isEnd⟩ | ⟨target, ty, found, -, -, bound, now⟩
  · have arrived : state.1.successor (state.1.successor (some parameter.hash)) =
        state.1.successor (some parameter.hash) := by
      cases found : state.1.find? parameter with
      | none => rw [successor_of_missing found, successor_of_missing found]
      | some ty => rw [successor_of_find? found, ends_iff_successor.mp (isEnd ty found)]
    rw [same, jump, arrived, update_eq_self]
  · have leads : state.1.successor (some parameter.hash) = some target.hash :=
      successor_of_find? found
    rw [now, successor_bind, jump, leads, successor_of_find? bound]

theorem successor_followRound (parameters : List TypeParameter) (bindings : Bindings) :
    (bindings.followRound parameters).successor =
      jumpAll (parameters.map fun parameter => some parameter.hash) bindings.successor := by
  have fold (parameters : List TypeParameter) (state : Bindings × Bool) :
      (parameters.foldl followOne state).1.successor =
        jumpAll (parameters.map fun parameter => some parameter.hash) state.1.successor := by
    induction parameters generalizing state with
    | nil => rfl
    | cons parameter rest inductionHypothesis =>
      rw [List.foldl_cons, inductionHypothesis, successor_followOne]
      rfl
  exact fold parameters (bindings, false)

/-- A round that reports no change has made none. -/
theorem followRound_of_unchanged
    (unchanged : (parameters.foldl followOne (bindings, false)).2 = false) :
    bindings.followRound parameters = bindings := by
  have fold (parameters : List TypeParameter) (state : Bindings × Bool)
      (unchanged : (parameters.foldl followOne state).2 = false) :
      parameters.foldl followOne state = state := by
    induction parameters generalizing state with
    | nil => rfl
    | cons parameter rest inductionHypothesis =>
      have later := inductionHypothesis (followOne state parameter) unchanged
      rw [List.foldl_cons, later] at unchanged ⊢
      rcases followOne_cases state parameter with ⟨same, -⟩ | ⟨_, _, -, -, -, -, now⟩
      · exact same
      · rw [now] at unchanged
        cases unchanged
  rw [followRound, fold parameters (bindings, false) unchanged]

/-- The rounds may end early, but what is left out would change nothing. -/
theorem followRounds_eq_iterate (parameters : List TypeParameter) (rounds : Nat) :
    ∀ bindings, followRounds parameters rounds bindings =
      (followRound parameters)^[rounds] bindings := by
  induction rounds with
  | zero => exact fun _ => rfl
  | succ rounds inductionHypothesis =>
    intro bindings
    rw [followRounds]
    dsimp only
    rw [iterate_succ_apply]
    split
    · exact inductionHypothesis _
    · next unchanged =>
      have same := followRound_of_unchanged (Bool.eq_false_iff.mpr unchanged)
      rw [same, iterate_fixed same]
      exact same

/-- Where every place that is led to leads to itself, a round changes nothing. -/
theorem followRound_of_settled
    (settled : ∀ place, bindings.successor (bindings.successor place) = bindings.successor place)
    (parameters : List TypeParameter) : bindings.followRound parameters = bindings := by
  have fold (changed : Bool) :
      parameters.foldl followOne (bindings, changed) = (bindings, changed) := by
    induction parameters with
    | nil => rfl
    | cons parameter rest inductionHypothesis =>
      rcases followOne_cases (bindings, changed) parameter with
        ⟨same, -⟩ | ⟨target, _, found, -, resolved, -, -⟩
      · rw [List.foldl_cons, same, inductionHypothesis]
      · have leads : bindings.successor (some parameter.hash) = some target.hash :=
          successor_of_find? found
        have isOpen : bindings.isUnresolved target = true :=
          isUnresolved_iff_successor.mpr (leads ▸ settled (some parameter.hash))
        cases isOpen.symm.trans resolved
  rw [followRound, fold false]

/-- What is not bound leads to itself. -/
theorem successor_of_findIn_none {hash : TypeHash}
    (missing : findIn hash bindings.entries = none) :
    bindings.successor (some hash) = some hash := by
  simp only [successor, missing]

/-- A parameter that leads to one that leads on is bound to it. -/
theorem leads_of_successor {first second : TypeHash} (apart : first ≠ second)
    (leads : bindings.successor (some first) = some second)
    (moves : bindings.successor (some second) ≠ some second) : bindings.Leads first second := by
  refine ⟨apart, Option.ne_none_iff_isSome.mp fun missing =>
    moves (successor_of_findIn_none missing), ?_⟩
  cases found : findIn first bindings.entries with
  | none =>
    rw [successor_of_findIn_none found] at leads
    exact absurd (Option.some.inj leads) apart
  | some ty =>
    simp only [successor, found] at leads
    cases ty with
    | parameter target => exact ⟨target, rfl, Option.some.inj leads⟩
    | unknown | cls _ | function _ | marker _ => cases leads

/-- A parameter from which one comes back to it by way of others leads to itself in a circle of
bound parameters. -/
theorem leads_of_return {hash : TypeHash} {count : Nat} (positive : 0 < count)
    (back : bindings.successor^[count] (some hash) = some hash)
    (moves : bindings.successor (some hash) ≠ some hash) :
    Relation.TransGen bindings.Leads hash hash := by
  have restless (steps : Nat) (before : steps ≤ count) :
      bindings.successor (bindings.successor^[steps] (some hash)) ≠
        bindings.successor^[steps] (some hash) := by
    intro fixed
    have same : bindings.successor^[count] (some hash) =
        bindings.successor^[steps] (some hash) := by
      rw [← Nat.sub_add_cancel before, iterate_add_apply, iterate_fixed fixed]
    rw [← same, back] at fixed
    exact moves fixed
  -- A step on the way leads to a parameter that is bound, since the way goes on from there.
  have step {steps : Nat} {first : TypeHash} (before : steps < count)
      (reached : bindings.successor^[steps] (some hash) = some first) : ∃ second,
        bindings.successor^[steps + 1] (some hash) = some second ∧
          bindings.Leads first second := by
    have here := restless steps (Nat.le_of_lt before)
    have there := restless (steps + 1) before
    rw [iterate_succ_apply', reached] at there
    rw [reached] at here
    rw [iterate_succ_apply', reached]
    cases leads : bindings.successor (some first) with
    | none =>
      rw [leads] at there
      exact absurd rfl there
    | some second =>
      rw [leads] at here there
      exact ⟨second, rfl,
        leads_of_successor (fun same => here (congrArg some same.symm)) leads there⟩
  have along (steps : Nat) : steps < count → ∃ other,
      bindings.successor^[steps + 1] (some hash) = some other ∧
        Relation.TransGen bindings.Leads hash other := by
    induction steps with
    | zero =>
      intro before
      obtain ⟨other, reached, leads⟩ := step before rfl
      exact ⟨other, reached, .single leads⟩
    | succ steps inductionHypothesis =>
      intro before
      obtain ⟨middle, arrived, way⟩ := inductionHypothesis (by omega)
      obtain ⟨other, reached, leads⟩ := step before arrived
      exact ⟨other, reached, way.tail leads⟩
  obtain ⟨last, reached, leads⟩ := along (count - 1) (by omega)
  rw [Nat.sub_add_cancel positive, back] at reached
  exact Option.some.inj reached ▸ leads

/-- A parameter that is resolved is bound. -/
theorem exists_find?_of_resolved (resolved : bindings.isUnresolved parameter = false) :
    ∃ ty, bindings.find? parameter = some ty := by
  rw [← Option.isSome_iff_exists, ← Option.ne_none_iff_isSome]
  intro missing
  simp only [isUnresolved, missing, Bool.true_eq_false] at resolved

/-- What chains come to has been on them: what was unresolved still is, and every parameter is bound
to a type of the chain of the one that it was bound to. -/
theorem followChains_goesOn (bindings : Bindings) (parameters : List TypeParameter) :
    (∀ parameter, bindings.isUnresolved parameter = true →
      (bindings.followChains parameters).isUnresolved parameter = true) ∧
    ∀ parameter ty, bindings.find? parameter = some ty →
      ∃ now, (bindings.followChains parameters).find? parameter = some now ∧
        Relation.ReflTransGen bindings.GoesOn ty now := by
  refine followChains_induction (motive := fun followed =>
    (∀ parameter, bindings.isUnresolved parameter = true → followed.isUnresolved parameter = true) ∧
    ∀ parameter ty, bindings.find? parameter = some ty →
      ∃ now, followed.find? parameter = some now ∧ Relation.ReflTransGen bindings.GoesOn ty now)
    ?_ ⟨fun _ => id, fun _ ty found => ⟨ty, found, .refl⟩⟩ parameters
  rintro followed changed target next bound apart resolved reached ⟨isOpen, onChain⟩
  have sameBound {other : TypeParameter} (same : changed.hash = other.hash) :
      followed.find? other = some (.parameter target) := by
    rw [← bound, find?, find?, same]
  constructor
  · intro other unresolved
    have stays := isUnresolved_iff.mp (isOpen other unresolved)
    refine isUnresolved_iff.mpr fun ty found => ?_
    rw [find?_bind] at found
    split at found
    · next same =>
      obtain ⟨itself, equal, own⟩ := stays _ (sameBound same)
      cases equal
      exact absurd (own.trans same.symm) apart
    · exact stays ty found
  · intro other ty found
    obtain ⟨now, foundNow, chain⟩ := onChain other ty found
    rw [find?_bind]
    split
    · next same =>
      cases foundNow.symm.trans (sameBound same)
      -- The target was resolved at first as well, so the chain goes on from it.
      have resolvedFirst : bindings.isUnresolved target = false := by
        by_contra unresolved
        rw [Bool.not_eq_false] at unresolved
        cases (isOpen target unresolved).symm.trans resolved
      obtain ⟨own, bound₀⟩ := exists_find?_of_resolved resolvedFirst
      obtain ⟨further, foundFurther, onward⟩ := onChain target own bound₀
      cases foundFurther.symm.trans reached
      exact ⟨_, rfl, (chain.tail ⟨target, rfl, resolvedFirst, bound₀⟩).trans onward⟩
    · exact ⟨now, foundNow, chain⟩

/-- Rounds that follow the chains of a template come to rest within as many rounds as there are
parameters: more of them change nothing, and every type that a parameter is bound to is no
parameter, one that is not bound, or one that is bound to itself. If bindings do not lead back from
any parameter to itself by way of others, every parameter is bound to the last type of its own
chain.

Proof: to follow a parameter is to take a shortcut, and with as many rounds as places every place
leads to one that leads to itself. A parameter gets only types of its chain. If the last one of them
were a parameter that was resolved at first, it would be bound to itself now, which is some steps
ahead of it on the ways that there were, so they would lead back to it. -/
theorem followChains_settles
    (distinct : TypeParameter.Distinct parameters)
    (keys : (bindings.keys.map TypeParameter.hash).Perm (parameters.map TypeParameter.hash)) :
    let followed := bindings.followChains parameters
    (∀ rounds, parameters.length ≤ rounds →
      followRounds parameters rounds bindings = followed) ∧
    (∀ entry ∈ followed.entries, followed.ends entry.2 = true) ∧
    ((∀ hash, ¬Relation.TransGen bindings.Leads hash hash) →
      ∀ entry ∈ bindings.entries, ∃ last, bindings.LastOf entry.2 last ∧
        followed.find? entry.1 = some last) := by
  intro followed
  let places := parameters.map fun parameter => some parameter.hash
  have size : places.length = parameters.length := List.length_map _
  have listed {entry : TypeParameter × Ty} (among : entry ∈ bindings.entries) :
      entry.1.hash ∈ parameters.map TypeParameter.hash :=
    keys.mem_iff.mp (List.mem_map_of_mem (List.mem_map_of_mem among))
  have still (place : Option TypeHash) (absent : place ∉ places) :
      bindings.successor place = place := by
    cases place with
    | none => rfl
    | some hash =>
      refine successor_of_findIn_none ?_
      by_contra bound
      obtain ⟨ty, found⟩ := Option.ne_none_iff_exists'.mp bound
      obtain ⟨key, among, same⟩ := mem_of_findIn found
      obtain ⟨parameter, known, equal⟩ := List.mem_map.mp (listed among)
      exact absent (List.mem_map.mpr ⟨parameter, known, congrArg some (equal.trans same)⟩)
  have rounds (count : Nat) : ((followRound parameters)^[count] bindings).successor =
      (jumpAll places)^[count] bindings.successor :=
    Semiconj.iterate_right (successor_followRound parameters) count bindings
  have all : followed = (followRound parameters)^[places.length] bindings := by
    rw [size]
    exact followRounds_eq_iterate parameters _ bindings
  have settled (place : Option TypeHash) :
      followed.successor (followed.successor place) = followed.successor place := by
    rw [all, rounds]
    exact jumpAll_settles still place
  have ends {parameter : TypeParameter} {ty : Ty} (found : followed.find? parameter = some ty) :
      followed.ends ty = true := by
    rw [ends_iff_successor, ← successor_of_find? found]
    exact settled _
  refine ⟨fun count enough => ?_, fun entry among => ?_, fun straight entry among => ?_⟩
  · obtain ⟨more, rfl⟩ := Nat.exists_eq_add_of_le' enough
    rw [followRounds_eq_iterate, iterate_add_apply, ← size, ← all,
      iterate_fixed (followRound_of_settled settled parameters)]
  · have sameKeys : followed.keys = bindings.keys := keys_followChains bindings parameters
    exact ends (find?_of_mem (sameKeys ▸ keys.nodup_iff.mpr distinct) among)
  · have found : bindings.find? entry.1 = some entry.2 :=
      find?_of_mem (keys.nodup_iff.mpr distinct) among
    obtain ⟨isOpen, onChain⟩ := followChains_goesOn bindings parameters
    obtain ⟨now, foundNow, chain⟩ := onChain entry.1 entry.2 found
    refine ⟨now, ⟨chain, ?_⟩, foundNow⟩
    by_contra goesOn
    have moves := goesOn ∘ ends_iff_successor.mpr
    have arrived := ends_iff_successor.mp (ends foundNow)
    cases now with
    | unknown | cls _ | function _ | marker _ => exact goesOn rfl
    | parameter target =>
      obtain ⟨count, ahead, leads⟩ := advances_iterate still places.length (some target.hash)
      rw [← rounds, ← all] at leads
      have positive : 0 < count := lt_of_lt_of_le (Nat.two_pow_pos _) ahead
      exact straight target.hash (leads_of_return positive (leads.symm.trans arrived) moves)

/-- A parameter that is bound to another one, which is bound to a class, is followed to that. -/
theorem followChains_settles_pair :
    let parameters : List TypeParameter := [.named "K", .named "V"]
    let bindings : Bindings :=
      ⟨[(.named "K", .parameter (.named "V")), (.named "V", .cls ⟨0⟩)]⟩
    let followed := bindings.followChains parameters
    TypeParameter.Distinct parameters ∧
      (bindings.keys.map TypeParameter.hash).Perm (parameters.map TypeParameter.hash) ∧
      (∀ hash, ¬Relation.TransGen bindings.Leads hash hash) ∧
      (∀ rounds, parameters.length ≤ rounds →
        followRounds parameters rounds bindings = followed) ∧
      (∀ entry ∈ followed.entries, followed.ends entry.2 = true) ∧
      ∀ entry ∈ bindings.entries, ∃ last, bindings.LastOf entry.2 last ∧
        followed.find? entry.1 = some last := by
  intro parameters bindings followed
  have apart : (TypeParameter.named "K").hash ≠ (TypeParameter.named "V").hash := by
    decide +kernel
  have distinct : TypeParameter.Distinct parameters := by decide +kernel
  have leads {first second : TypeHash} (leads : bindings.Leads first second) :
      first = (TypeParameter.named "K").hash ∧ second = (TypeParameter.named "V").hash := by
    obtain ⟨-, -, target, found, same⟩ := leads
    simp only [bindings, findIn] at found
    split at found
    · next here =>
      cases found
      exact ⟨here.symm, same.symm⟩
    · split at found <;> cases found
  have straight (hash : TypeHash) (back : Relation.TransGen bindings.Leads hash hash) : False := by
    obtain ⟨_, away, -⟩ := Relation.TransGen.head'_iff.mp back
    obtain ⟨_, -, home⟩ := Relation.TransGen.tail'_iff.mp back
    exact apart ((leads away).1.symm.trans (leads home).2)
  obtain ⟨rounds, ends, last⟩ := @followChains_settles bindings parameters distinct (.refl _)
  exact ⟨distinct, .refl _, straight, rounds, ends, last straight⟩

end TypeInference.Bindings
