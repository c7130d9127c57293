import TypeInference.Proofs.Ignoring
import TypeInference.Proofs.Uniting

/-!
# Calls of an attribute of a union

An attribute of a union is the union of what is found on the members, and this is then called with
the union as its target. But a union is no receiver. So each function that was found on a member is
called without one: its parameters take the arguments from the first one on, and nothing shows what
the type parameters of the member are bound to. What is called in the end are the distinct callees,
each once.

So the value of the call is the union of what the callees give without receivers. This is the union
of what the calls on the members give wherever their receivers make no difference.
-/

namespace TypeInference

open Analysis Store

namespace Store

/-- Callees that are called alike: they are the same, or objects of a class that cannot be called.
-/
def CalledAlike (store : Store) (one other : Value) : Prop :=
  one = other ∨ ∃ id content known, one = .object (.cls id) content ∧
    other = .object (.cls id) known ∧ store.method? id "__call__" = none

/-- Some callees of which those are called alike that count as one in a union. -/
def TellsCallees (store : Store) (callees : List Value) : Prop :=
  ∀ one ∈ callees.flatMap Value.alternatives, ∀ other ∈ callees.flatMap Value.alternatives,
    store.unionKey one = store.unionKey other → store.CalledAlike one other

end Store

namespace Engine

variable {engine : Engine} {environment : Environment} {before after : Progress} {depth : Nat}

section Several

variable {positional : List Value} {keywords : List (String × Value)} {span : Span}
  {callees values : List Value}

/-- Objects of a class that cannot be called are called alike. -/
theorem callValue_alike (rest : before.AtRest environment) {one other : Value}
    (given : Within rest.grounded.references one) (alike : before.store.CalledAlike one other)
    {later : Progress} (rests : before.RestsTo environment later) :
    (Engine.atDepth depth).callValue none positional keywords span one environment later =
      (Engine.atDepth depth).callValue none positional keywords span other environment later := by
  obtain rfl | ⟨id, content, known, rfl, rfl, missing⟩ := alike
  · rfl
  have absent : later.store.method? id "__call__" = none :=
    (rests.method? given.objectType _).trans missing
  simp only [callValue]
  rcases ensureConstructed_of_settled depth id environment rests.rest.settled with same | failed
  · have found : (Engine.atDepth depth).constructedMethod? id "__call__" environment later =
        .ok none later := by
      rw [constructedMethod?, bind_of_ok same, bind_apply, store_apply]
      dsimp only
      rw [absent]
      rfl
    rw [bind_of_ok found, bind_of_ok found]
    rfl
  · have missed : (Engine.atDepth depth).constructedMethod? id "__call__" environment later =
        .error .tooDeep later :=
      bind_of_error failed _
    rw [bind_of_error missed, bind_of_error missed]

/-- Callees give values if the first one gives the first value and the others give the others. -/
theorem callAll_cons_eq_ok {target : Option Value} {callee : Value} {others values : List Value} :
    engine.callAll target positional keywords span (callee :: others) environment before =
        .ok values after ↔
      ∃ first middle rest,
        engine.callValue target positional keywords span callee environment before =
          .ok first middle ∧
        engine.callAll target positional keywords span others environment middle = .ok rest after ∧
        values = first :: rest := by
  rw [callAll_cons, bind_eq_ok]
  constructor
  · rintro ⟨first, middle, called, continued⟩
    obtain ⟨rest, _, following, ending⟩ := bind_eq_ok.mp continued
    cases ending
    exact ⟨first, middle, rest, called, following, rfl⟩
  · rintro ⟨first, middle, rest, called, following, rfl⟩
    exact ⟨first, middle, called, bind_of_ok following _⟩

theorem callAll_append (target : Option Value) (callees others : List Value) :
    engine.callAll target positional keywords span (callees ++ others) = do
      let values ← engine.callAll target positional keywords span callees
      let more ← engine.callAll target positional keywords span others
      return values ++ more := by
  induction callees with
  | nil => simp [callAll]
  | cons callee rest inductionHypothesis => simp [callAll, inductionHypothesis]

/-- The calls of the callees that a union is made of. Its value is the union of theirs, and what is
no union gives its own union. -/
theorem callValue_parts (supplies : before.Supplies environment positional keywords)
    {callee value : Value} (given : Within supplies.rest.grounded.references callee)
    (known : callee.isUnknown = false)
    (returned : (Engine.atDepth depth).callValue none positional keywords span callee environment
      before = .ok value after) :
    ∃ part, (Engine.atDepth depth).callAll none positional keywords span callee.alternatives
        environment before = .ok part after ∧ part ≠ [] ∧ value = after.store.union part := by
  cases callee with
  | unknown => cases known
  | type _ | object _ _ =>
    obtain ⟨rests, within, -⟩ := callValue_rests supplies given returned
    refine ⟨[value], ?_, List.cons_ne_nil _ _,
      (union_singleton (rests.rest.grounded.isNormal within).isWellFormed).symm⟩
    rw [Value.alternatives_of_isSingle rfl]
    exact callAll_cons_eq_ok.mpr ⟨value, after, [], returned, by rw [callAll]; rfl, rfl⟩
  | union alternatives =>
    rw [callValue] at returned
    obtain ⟨part, middle, called, ending⟩ := bind_eq_ok.mp returned
    cases ending
    refine ⟨part, called, ?_, rfl⟩
    have several : 2 ≤ alternatives.length :=
      (supplies.rest.grounded.isNormal given).1.several
    rcases alternatives with _ | ⟨first, rest⟩
    · exact absurd several (by decide)
    · obtain ⟨_, _, _, -, -, rfl⟩ := callAll_cons_eq_ok.mp called
      exact List.cons_ne_nil _ _

/-- Callees are called as the alternatives they are made of, in order. Each value is the union of
a part of what these give. -/
theorem callAll_parts : ∀ {callees values : List Value} {before : Progress}
    (supplies : before.Supplies environment positional keywords),
      Within supplies.rest.grounded.references callees →
        (∀ callee ∈ callees, callee.isUnknown = false) →
          (Engine.atDepth depth).callAll none positional keywords span callees environment before =
            .ok values after →
          ∃ parts : List (List Value),
            (Engine.atDepth depth).callAll none positional keywords span
                (callees.flatMap Value.alternatives) environment before =
              .ok parts.flatten after ∧
            (∀ part ∈ parts, part ≠ []) ∧ values = parts.map after.store.union
  | [], _, _, _, _, _, returned => by
    rw [callAll] at returned
    cases returned
    exact ⟨[], by rw [List.flatMap_nil, callAll]; rfl, List.forall_mem_nil _, rfl⟩
  | callee :: others, _, before, supplies, given, known, returned => by
    rw [within_cons] at given
    rw [List.forall_mem_cons] at known
    obtain ⟨value, middle, more, called, following, rfl⟩ := callAll_cons_eq_ok.mp returned
    obtain ⟨part, alone, some_value, isUnion⟩ := callValue_parts supplies given.1 known.1 called
    obtain ⟨rests, inside⟩ := callAll_rests supplies (within_alternatives given.1) alone
    have next := supplies.later rests
    obtain ⟨onward, -⟩ := callAll_rests next (rests.within given.2) following
    obtain ⟨parts, together, some_values, areUnions⟩ :=
      callAll_parts next (rests.within given.2) known.2 following
    refine ⟨part :: parts, ?_, List.forall_mem_cons.mpr ⟨some_value, some_values⟩, ?_⟩
    · rw [List.flatMap_cons, callAll_append, bind_of_ok alone, bind_of_ok together]
      rfl
    · rw [List.map_cons, isUnion, areUnions, onward.union inside]

/-- A callee that gives its value again and leaves everything as it is, from some progress on. -/
def Answers (depth : Nat) (environment : Environment) (positional : List Value)
    (keywords : List (String × Value)) (span : Span) (before : Progress) (callee : Value) : Prop :=
  ∃ value, ∀ later, before.RestsTo environment later →
    (Engine.atDepth depth).callValue none positional keywords span callee environment later =
      .ok value later

/-- Callees that give the same and leave the same, from some progress on. -/
def AnswerAlike (depth : Nat) (environment : Environment) (positional : List Value)
    (keywords : List (String × Value)) (span : Span) (before : Progress) (one other : Value) :
    Prop :=
  ∀ later, before.RestsTo environment later →
    (Engine.atDepth depth).callValue none positional keywords span one environment later =
      (Engine.atDepth depth).callValue none positional keywords span other environment later

/-- The distinct ones of some callees are called as all are: callees that count as one of those
before give an answer that is there already. -/
theorem callAll_distinct (first : Store) : ∀ (kept : List Value) {callees values : List Value}
    {before : Progress}
    (supplies : before.Supplies environment positional keywords),
      Within supplies.rest.grounded.references callees →
        (∀ callee ∈ kept, Answers depth environment positional keywords span before callee) →
          (∀ one ∈ kept ++ callees, ∀ other ∈ kept ++ callees,
            first.unionKey one = first.unionKey other →
              AnswerAlike depth environment positional keywords span before one other) →
          (Engine.atDepth depth).callAll none positional keywords span callees environment before =
            .ok values after →
          ∃ fresh found, callees.foldl first.addAlternative kept = kept ++ fresh ∧
            (Engine.atDepth depth).callAll none positional keywords span fresh environment before =
              .ok found after
  | kept, [], _, _, _, _, _, _, returned => by
    rw [callAll] at returned
    cases returned
    exact ⟨[], [], (List.append_nil kept).symm, by rw [callAll]; rfl⟩
  | kept, callee :: others, _, before, supplies, given, answer, alike, returned => by
    rw [within_cons] at given
    obtain ⟨value, middle, more, called, following, rfl⟩ := callAll_cons_eq_ok.mp returned
    obtain ⟨rests, -, again⟩ := callValue_rests supplies given.1 called
    rw [List.foldl_cons]
    by_cases counted : first.Counted kept callee
    · rw [addAlternative_of_counted counted]
      obtain ⟨other, listed, same⟩ := counted
      obtain ⟨known, answered⟩ := answer other listed
      have still := (alike other (List.mem_append_left _ listed) callee
        (List.mem_append_right _ List.mem_cons_self) same before (.refl supplies.rest)).symm.trans
          (answered before (.refl supplies.rest))
      cases still.symm.trans called
      refine callAll_distinct first kept supplies given.2 answer (fun one among last isLast => ?_) following
      have skips {one : Value} (among : one ∈ kept ++ others) : one ∈ kept ++ callee :: others :=
        List.mem_append.mpr ((List.mem_append.mp among).imp_right (List.mem_cons_of_mem _))
      exact alike one (skips among) last (skips isLast)
    · rw [addAlternative_of_not_counted counted]
      have next := supplies.later rests
      obtain ⟨fresh, found, isFresh, calledFresh⟩ := callAll_distinct first (kept ++ [callee])
        next (rests.within given.2)
        (List.forall_mem_append.mpr ⟨fun one listed =>
            (answer one listed).imp fun _ answered later onward =>
              answered later (rests.trans onward),
          List.forall_mem_singleton.mpr ⟨value, again⟩⟩)
        (fun one among last isLast same later onward =>
          alike one (List.append_cons kept callee others ▸ among) last
            (List.append_cons kept callee others ▸ isLast) same later (rests.trans onward)) following
      exact ⟨callee :: fresh, value :: found, by rw [isFresh, List.append_assoc]; rfl,
        callAll_cons_eq_ok.mpr ⟨value, middle, found, called, calledFresh, rfl⟩⟩

/-- The value that a callee gives, as far as it gives one. -/
def answer (depth : Nat) (environment : Environment) (positional : List Value)
    (keywords : List (String × Value)) (span : Span) (progress : Progress) (callee : Value) :
    Value :=
  match (Engine.atDepth depth).callValue none positional keywords span callee environment
    progress with
  | .ok value _ => value
  | .error _ _ => .unknown

/-- What callees give is what each of them gives at last. -/
theorem callAll_answers : ∀ {callees values : List Value} {before : Progress}
    (supplies : before.Supplies environment positional keywords),
      Within supplies.rest.grounded.references callees →
        (Engine.atDepth depth).callAll none positional keywords span callees environment before =
          .ok values after →
        values = callees.map (answer depth environment positional keywords span after)
  | [], _, _, _, _, returned => by
    rw [callAll] at returned
    cases returned
    rfl
  | callee :: others, _, before, supplies, given, returned => by
    rw [within_cons] at given
    obtain ⟨value, middle, more, called, following, rfl⟩ := callAll_cons_eq_ok.mp returned
    obtain ⟨rests, -, again⟩ := callValue_rests supplies given.1 called
    obtain ⟨onward, -⟩ := callAll_rests (supplies.later rests) (rests.within given.2) following
    have last : answer depth environment positional keywords span after callee = value := by
      rw [answer, again after onward]
    rw [List.map_cons, last, ← callAll_answers (supplies.later rests) (rests.within given.2) following]

/-- Types and objects that are wrapped as one value give the union of what they give. -/
theorem callValue_wrap (supplies : before.Supplies environment positional keywords)
    (given : Within supplies.rest.grounded.references callees)
    (returned : (Engine.atDepth depth).callAll none positional keywords span callees environment
      before = .ok values after) :
    (Engine.atDepth depth).callValue none positional keywords span (wrap callees) environment
      before = .ok (after.store.union values) after := by
  rcases callees with _ | ⟨callee, _ | ⟨second, rest⟩⟩
  · rw [callAll] at returned
    cases returned
    rw [wrap, callValue]
    rfl
  · obtain ⟨rests, within⟩ := callAll_rests supplies given returned
    obtain ⟨value, middle, more, called, following, rfl⟩ := callAll_cons_eq_ok.mp returned
    rw [callAll] at following
    cases following
    rw [wrap, called, union_singleton
      (rests.rest.grounded.isNormal (within value List.mem_cons_self)).isWellFormed]
  · have several : 2 ≤ (callee :: second :: rest).length := Nat.le_add_left 2 rest.length
    rw [wrap_of_several several, callValue, bind_of_ok returned]
    rfl

/-- The union of some callees gives the union of what they give. Callees that count as one must be
called alike. -/
theorem callValue_union_callees (supplies : before.Supplies environment positional keywords)
    (given : Within supplies.rest.grounded.references callees)
    (tells : before.store.TellsCallees callees)
    (returned : (Engine.atDepth depth).callAll none positional keywords span callees environment
      before = .ok values after) :
    ∃ left, (Engine.atDepth depth).callValue none positional keywords span
        (before.store.union callees) environment before = .ok (after.store.union values) left ∧
      (callees.any Value.isUnknown = false → left = after) := by
  cases unknown : callees.any Value.isUnknown with
  | true =>
    obtain ⟨callee, listed, isUnknown⟩ := List.any_eq_true.mp unknown
    have among : values.any Value.isUnknown = true := by
      refine List.any_eq_true.mpr ⟨.unknown, ?_, rfl⟩
      rw [callAll_answers supplies given returned]
      refine List.mem_map.mpr ⟨callee, listed, ?_⟩
      cases callee with
      | unknown =>
        rw [answer, callValue]
        rfl
      | type _ | object _ _ | union _ => cases isUnknown
    refine ⟨before, ?_, fun none_unknown => absurd none_unknown.symm Bool.false_ne_true⟩
    rw [union, unknown, if_pos rfl, callValue, union, among, if_pos rfl]
    rfl
  | false =>
    have known : ∀ callee ∈ callees, callee.isUnknown = false := fun callee listed =>
      Bool.eq_false_iff.mpr fun isUnknown =>
        absurd (unknown.symm.trans (List.any_eq_true.mpr ⟨callee, listed, isUnknown⟩))
          Bool.false_ne_true
    have inside : Within supplies.rest.grounded.references
        (callees.flatMap Value.alternatives) := by
      intro alternative listed
      obtain ⟨callee, among, alternate⟩ := List.mem_flatMap.mp listed
      exact within_alternatives (given callee among) alternative alternate
    obtain ⟨parts, together, some_values, areUnions⟩ := callAll_parts supplies given known returned
    obtain ⟨rests, givenBack⟩ := callAll_rests supplies inside together
    have answersAlike : ∀ one ∈ callees.flatMap Value.alternatives,
        ∀ other ∈ callees.flatMap Value.alternatives,
          before.store.unionKey one = before.store.unionKey other →
            AnswerAlike depth environment positional keywords span before one other :=
      fun one listed other among same later rests =>
        callValue_alike supplies.rest (inside one listed) (tells one listed other among same) rests
    obtain ⟨fresh, found, isFresh, called⟩ := callAll_distinct before.store [] supplies
      inside (List.forall_mem_nil _) answersAlike together
    rw [List.nil_append] at isFresh
    have freshInside : Within supplies.rest.grounded.references fresh := fun callee listed =>
      inside callee ((mem_foldl_addAlternative (isFresh ▸ listed)).resolve_left List.not_mem_nil)
    have callee : before.store.union callees = wrap fresh := by
      rw [union, unknown, isFresh]
      rfl
    have value : after.store.union found = after.store.union values := by
      calc after.store.union found
          = after.store.union (((callees.flatMap Value.alternatives).foldl
              before.store.addAlternative []).map
                (answer depth environment positional keywords span after)) := by
            rw [callAll_answers supplies freshInside called, isFresh]
        _ = after.store.union ((callees.flatMap Value.alternatives).map
              (answer depth environment positional keywords span after)) :=
            union_map_distinct _ fun one listed other among same => by
              rw [answer, answersAlike one listed other among same after rests, answer]
        _ = after.store.union parts.flatten := by
            rw [← callAll_answers supplies inside together]
        _ = after.store.union values := by
            rw [areUnions, union_flatten some_values fun value listed =>
              (rests.rest.grounded.isNormal (givenBack value listed)).isWellFormed]
    refine ⟨after, ?_, fun _ => rfl⟩
    rw [callee, ← value]
    exact callValue_wrap supplies freshInside called

end Several

/-- The call of an attribute of a value, with the values of the arguments. The value is the target
of the call. -/
def callAttribute (engine : Engine) (name : String) (positional : List Value)
    (keywords : List (String × Value)) (span : Span) (value : Value) : Analysis Value := do
  let callee ← engine.attributeOf name value
  engine.callValue (some value) positional keywords span callee

/-- A call of an attribute in the source is such a call, where nothing is changed when the arguments
are evaluated. -/
theorem evaluate_callAttribute {reach : Reach} {object : Expression} {name : Identifier}
    {arguments : List CallArgument} {attributeSpan span : Span} {middle : Progress}
    {value callee : Value} {given : CallValues}
    (evaluated : engine.evaluate reach object environment before = .ok value middle)
    (looked : engine.attributeOf name.name value environment middle = .ok callee after)
    (still : engine.evaluateArguments reach arguments environment after = .ok given after) :
    engine.evaluate reach (.call (.attribute object name attributeSpan) arguments span) environment
        before =
      engine.callAttribute name.name given.positional given.keywords span value environment
        middle := by
  have found : engine.calledValue reach (.attribute object name attributeSpan) environment before =
      .ok (callee, some value) after := by
    rw [calledValue, bind_of_ok evaluated, bind_of_ok looked]
    rfl
  rw [evaluate_call, bind_of_ok found, bind_of_ok still, callAttribute, bind_of_ok looked]

section Distributing

variable {name : String} {positional : List Value} {keywords : List (String × Value)} {span : Span}
  {members callees values : List Value}

/-- What the lookup of an attribute on some values leads to. -/
theorem attributeOfAll_rests {earlier : Progress} (rest : earlier.AtRest environment)
    (given : Within rest.grounded.references members)
    (looked : (Engine.atDepth depth).attributeOfAll name members environment earlier =
      .ok callees before) :
    ∃ rests : earlier.RestsTo environment before, Within rests.rest.grounded.references callees := by
  obtain ⟨rests, -⟩ := attributeOfAll_repeats name rest given callees before looked
  obtain ⟨_, within⟩ := attributeOfAll_within rest given looked
  exact ⟨rests, within⟩

/-- What was found on some values is found there from then on. -/
theorem attributeOfAll_lasting : ∀ {members callees : List Value} {earlier : Progress}
    (rest : earlier.AtRest environment), Within rest.grounded.references members →
      (Engine.atDepth depth).attributeOfAll name members environment earlier = .ok callees before →
        List.Forall₂ (fun member callee => ∀ later, before.RestsTo environment later →
          (Engine.atDepth depth).attributeOf name member environment later = .ok callee later)
            members callees
  | [], _, _, _, _, looked => by
    rw [attributeOfAll] at looked
    cases looked
    exact .nil
  | member :: others, _, _, rest, given, looked => by
    rw [within_cons] at given
    rw [attributeOfAll] at looked
    obtain ⟨callee, middle, found, continued⟩ := bind_eq_ok.mp looked
    obtain ⟨more, _, following, ending⟩ := bind_eq_ok.mp continued
    cases ending
    obtain ⟨rests, again⟩ := attributeOf_repeats name rest given.1 callee middle found
    have inside := rests.within given.2
    obtain ⟨onward, -⟩ := attributeOfAll_rests rests.rest inside following
    exact .cons (fun later lasting => again later (onward.trans lasting))
      (attributeOfAll_lasting rests.rest inside following)

/-- Where what is found on members is found again and ignores them, attributes of members are called
as these callees. -/
theorem each_callAttribute (supplies : before.Supplies environment positional keywords)
    (lasting : List.Forall₂ (fun member callee => ∀ later, before.RestsTo environment later →
      (Engine.atDepth depth).attributeOf name member environment later = .ok callee later)
        members callees)
    (ignoring : List.Forall₂ (before.store.IgnoresTarget positional keywords span) members callees)
    (given : Within supplies.rest.grounded.references members)
    (found : Within supplies.rest.grounded.references callees) :
    ∀ {middle : Progress}, before.RestsTo environment middle →
      Analysis.each ((Engine.atDepth depth).callAttribute name positional keywords span) members
          environment middle =
        (Engine.atDepth depth).callAll none positional keywords span callees environment middle := by
  induction lasting with
  | nil =>
    intro middle _
    rw [each, callAll]
  | @cons member callee members callees first _ inductionHypothesis =>
    intro middle rests
    rw [List.forall₂_cons] at ignoring
    rw [within_cons] at given found
    have next := supplies.later rests
    have alone : (Engine.atDepth depth).callAttribute name positional keywords span member
          environment middle =
        (Engine.atDepth depth).callValue none positional keywords span callee environment middle := by
      rw [callAttribute, bind_of_ok (first middle rests)]
      exact callValue_ignoring next (rests.within given.1) (rests.within found.1)
        (ignoresTarget_later supplies rests given.1 ignoring.1)
    rw [each, callAll_cons, bind_apply, bind_apply, alone]
    cases called : (Engine.atDepth depth).callValue none positional keywords span callee environment
        middle with
    | error failure left => rfl
    | ok value last =>
      obtain ⟨onward, -⟩ := callValue_rests next (rests.within found.1) called
      dsimp only
      rw [bind_apply, bind_apply, inductionHypothesis ignoring.2 given.2 found.2
        (rests.trans onward)]

/-- A call on a union that gives the union of some values. It leaves what they leave, unless an
attribute is unknown: then nothing is called. -/
def GivesUnion (call : Analysis Value) (environment : Environment) (earlier : Progress)
    (callees values : List Value) (after : Progress) : Prop :=
  ∃ left, call environment earlier = .ok (after.store.union values) left ∧
    (callees.any Value.isUnknown = false → left = after)

/-- A call of an attribute of a union gives the union of what the callees that are found on the
members give without receivers, if callees that count as one are called alike. So it gives the union
of what the calls on the members give, if what is found on each member ignores it. The members are
called once the attribute was looked up on all of them.

Proof: the union is no receiver, so that all callees are called without one. Calls that are made
again give what they gave (`Engine.callValue_repeats`), and so it makes no difference that the union
has a callee of several members once. What ignores a member is called on it as it is called without
a receiver. -/
theorem callAttribute_union {earlier : Progress} (rest : earlier.AtRest environment)
    (given : Within rest.grounded.references (Value.union members))
    (placed : Within rest.grounded.references positional)
    (named : Within rest.grounded.references keywords)
    (looked : (Engine.atDepth depth).attributeOfAll name members environment earlier =
      .ok callees before)
    (tells : before.store.TellsCallees callees) :
    (∀ values after,
      (Engine.atDepth depth).callAll none positional keywords span callees environment before =
          .ok values after →
        GivesUnion ((Engine.atDepth depth).callAttribute name positional keywords span
          (.union members)) environment earlier callees values after) ∧
    (List.Forall₂ (before.store.IgnoresTarget positional keywords span) members callees →
      ∀ values after,
        Analysis.each ((Engine.atDepth depth).callAttribute name positional keywords span) members
            environment before = .ok values after →
          GivesUnion ((Engine.atDepth depth).callAttribute name positional keywords span
            (.union members)) environment earlier callees values after) := by
  have inside := ((within_union _).mp given).2
  obtain ⟨rests, found⟩ := attributeOfAll_rests rest inside looked
  have supplies : before.Supplies environment positional keywords :=
    ⟨rests.rest, rests.within placed, rests.within named⟩
  have callee : (Engine.atDepth depth).attributeOf name (.union members) environment earlier =
      .ok (before.store.union callees) before := by
    rw [attributeOf, bind_of_ok looked]
    rfl
  have nothing (store : Store) (function : FunctionId) :
      (some (Value.union members)).bind (receiverFor store function) = none :=
    receiverFor_union store function members
  have general (values : List Value) (after : Progress)
      (returned : (Engine.atDepth depth).callAll none positional keywords span callees environment
        before = .ok values after) :
      GivesUnion ((Engine.atDepth depth).callAttribute name positional keywords span
        (.union members)) environment earlier callees values after := by
    rw [GivesUnion, callAttribute, bind_of_ok callee, callValue_of_no_receiver nothing]
    exact callValue_union_callees supplies found tells returned
  refine ⟨general, fun ignoring values after returned => general values after ?_⟩
  rw [← each_callAttribute supplies (attributeOfAll_lasting rest inside looked) ignoring
    (rests.within inside) found (.refl rests.rest)]
  exact returned

end Distributing

end Engine

/-- Values that are functions are known by them. -/
theorem Value.eq_of_asFunctions {functions : List FunctionId} : ∀ {values : List Value},
    values.map Value.asFunction? = functions.map some →
      values = functions.map fun function => .type (.function function) := by
  induction functions with
  | nil => exact fun are => List.map_eq_nil_iff.mp are
  | cons function rest inductionHypothesis =>
    intro values are
    match values, are with
    | value :: others, are =>
      obtain ⟨itself, remaining⟩ := List.cons.inj are
      rw [inductionHypothesis remaining, List.map_cons]
      match value, itself with
      | .type (.function _), rfl => rfl

/-- A union of some values is there if they are. -/
theorem Progress.AtRest.within_separate {environment : Environment} {progress : Progress}
    (rest : progress.AtRest environment) {values : List Value}
    (separate : progress.store.Separate values) (given : Within rest.grounded.references values) :
    Within rest.grounded.references (Value.union values) := by
  rw [← union_of_separate separate]
  exact closedIn_references _ _ _ given

namespace Analyzer

/-- A module with a class with a method that gives an integer, a class derived from it, and a class
with a method of the same name that gives a text. -/
def sizingModule : Module :=
  ⟨[.defineClass 1 "Left" [] [.declaring 2 "size" "int"],
    .defineClass 3 "Middle" [.ofName "Left"] [.pass .unknown],
    .defineClass 4 "Right" [] [.declaring 5 "size" "str"]]⟩

/-- The progress of a fresh analyzer after that module. -/
def sizing : Progress :=
  (Analysis.ofModule sizingModule).after Registry.environment Registry.start

/-- An object of each class of the module. -/
def sizedObjects : List Value :=
  [0, 1, 2].map fun place => .object (.cls ⟨Registry.standard.store.classes.size + place⟩) .plain

/-- The methods of the module in order. -/
def sizeMethod (place : Nat) : FunctionId :=
  ⟨Registry.standard.store.functions.size + place⟩

/-- A call of an attribute without arguments. -/
def callOn (name : String) (value : Value) : Analysis Value :=
  (Engine.atDepth Engine.depthLimit).callAttribute name [] [] .unknown value

/-- The classes in a value. -/
def classesIn (value : Value) : List (Option ClassId) :=
  value.allTypes.map Ty.asClass?

/-- The functions that are found as an attribute of some values. -/
def functionsOn (name : String) (values : List Value) : Analysis (List (Option FunctionId)) := do
  return (← (Engine.atDepth Engine.depthLimit).attributeOfAll name values).map Value.asFunction?

/-- The classes in what the calls of an attribute of some values give, and in the union of that. -/
def classesOn (name : String) (values : List Value) :
    Analysis (List (List (Option ClassId)) × List (Option ClassId)) := do
  let given ← Analysis.each (callOn name) values
  return (given.map classesIn, classesIn ((← Analysis.store).union given))

/-- Whether the call of an attribute of a value gives nothing that is known. -/
def unknownOn (name : String) (value : Value) : Analysis Bool := do
  return (← callOn name value).isUnknown

/-- What is computed by classes comes from calls. -/
theorem each_of_classesOn {name : String} {members : List Value} {before : Progress}
    {classes : List (List (Option ClassId))} {united : List (Option ClassId)}
    (computed : (classesOn name members).yields Registry.environment before (classes, united) =
      true) :
    ∃ values after,
      Analysis.each (callOn name) members Registry.environment before = .ok values after ∧
      values.map classesIn = classes ∧ classesIn (after.store.union values) = united := by
  obtain ⟨values, after, called, ending⟩ := bind_eq_ok.mp (ok_of_yields computed)
  rw [bind_apply, store_apply] at ending
  injection ending with found _
  exact ⟨values, after, called, congrArg Prod.fst found, congrArg Prod.snd found⟩

/-- The progress once the method was looked up on the objects. -/
def sizesFound : Progress :=
  (functionsOn "size" sizedObjects).after Registry.environment sizing

/-- The method gives an integer or a text, called on a union of the objects. The method that two of
them share is called once. -/
theorem callAttribute_union_size :
    ∃ values after left,
      Analysis.each (callOn "size") sizedObjects Registry.environment sizesFound =
        .ok values after ∧
      values.map classesIn = [[some (builtinClass .int)], [some (builtinClass .int)],
        [some (builtinClass .str)]] ∧
      classesIn (after.store.union values) = [some (builtinClass .int), some (builtinClass .str)] ∧
      callOn "size" (.union sizedObjects) Registry.environment sizing =
        .ok (after.store.union values) left := by
  have rest : sizing.AtRest Registry.environment :=
    ⟨((Progress.Grounded.initial {}).after_ofModuleWithin Engine.depthLimit sizingModule).2,
      by decide +kernel, by decide +kernel⟩
  have objects : Within rest.grounded.references sizedObjects := by
    have there : ∀ place ∈ [0, 1, 2],
        sizing.store.HasClass ⟨Registry.standard.store.classes.size + place⟩ := by
      decide +kernel
    intro object listed
    obtain ⟨place, among, rfl⟩ := List.mem_map.mp listed
    exact (within_plain _).mpr (there place among)
  have separate : sizing.store.Separate sizedObjects := by decide +kernel
  have given := rest.within_separate separate objects
  have functions : (functionsOn "size" sizedObjects).yields Registry.environment sizing
      [some (sizeMethod 0), some (sizeMethod 0), some (sizeMethod 1)] = true := by
    decide +kernel
  obtain ⟨callees, before, looked, ending⟩ := bind_eq_ok.mp (ok_of_yields functions)
  have before_is : sizesFound = before := after_of_ok (bind_of_ok looked _)
  injection ending with found _
  have callees_are : callees = [sizeMethod 0, sizeMethod 0, sizeMethod 1].map fun function =>
      .type (.function function) :=
    Value.eq_of_asFunctions found
  subst before_is callees_are
  have apart : sizesFound.store.unionKey (.type (.function (sizeMethod 0))) ≠
      sizesFound.store.unionKey (.type (.function (sizeMethod 1))) := by
    decide +kernel
  have tells : sizesFound.store.TellsCallees [.type (.function (sizeMethod 0)),
      .type (.function (sizeMethod 0)), .type (.function (sizeMethod 1))] := by
    intro one listed other among same
    have each {callee : Value} (listed : callee ∈ [Value.type (.function (sizeMethod 0)),
        .type (.function (sizeMethod 0)), .type (.function (sizeMethod 1))].flatMap
          Value.alternatives) : callee = .type (.function (sizeMethod 0)) ∨
            callee = .type (.function (sizeMethod 1)) := by
      simpa [Value.alternatives] using listed
    rcases each listed with rfl | rfl <;> rcases each among with rfl | rfl
    · exact .inl rfl
    · exact absurd same apart
    · exact absurd same.symm apart
    · exact .inl rfl
  have fixed : ∀ place ∈ [0, 1],
      ∀ overload ∈ (sizesFound.store.functionAt (sizeMethod place)).overloads.head?,
        ∀ ty ∈ (sizesFound.store.returnValue overload).allTypes,
          sizesFound.store.isGenericType ty = false := by
    decide +kernel
  have ignores (place : Nat) (listed : place ∈ [0, 1]) (target : Value) :
      sizesFound.store.IgnoresTarget [] [] .unknown target (.type (.function (sizeMethod place))) :=
    ignoresTarget_of_fixed (fixed place listed) _ _ _ _
  have first : 0 ∈ [0, 1] := List.mem_cons_self
  have second : 1 ∈ [0, 1] := List.mem_cons_of_mem _ List.mem_cons_self
  obtain ⟨values, after, called, classes, united⟩ := each_of_classesOn (show
    (classesOn "size" sizedObjects).yields Registry.environment sizesFound
      ([[some (builtinClass .int)], [some (builtinClass .int)], [some (builtinClass .str)]],
        [some (builtinClass .int), some (builtinClass .str)]) = true by decide +kernel)
  obtain ⟨-, distributes⟩ := Engine.callAttribute_union rest given within_nil within_nil looked tells
  obtain ⟨left, distributed, -⟩ := distributes (.cons (ignores 0 first _)
    (.cons (ignores 0 first _) (.cons (ignores 1 second _) .nil))) values after called
  exact ⟨values, after, left, called, classes, united, distributed⟩

/-- Lists of integers and lists of texts are made. -/
def makingLists : Analysis Unit := do
  for builtin in [Builtin.int, .str] do
    let _ ← (Engine.atDepth Engine.depthLimit).specialize (builtinClass .list)
      (.ofTypes [builtinType builtin] .unknown)

/-- The progress of a fresh analyzer after that. -/
def listsReady : Progress :=
  makingLists.after Registry.environment Registry.start

/-- A list of integers and a list of texts. -/
def typedLists : List Value :=
  [0, 1].map fun place => listsReady.store.newObject ⟨Registry.standard.store.classes.size + place⟩

/-- An item is taken from a list of integers or texts. The value is unknown, although one that is
taken from either list is known: without the receiver, nothing shows what the items are. -/
theorem callAttribute_union_pop :
    listsReady.store.NoOverloadIs .pending ∧ listsReady.store.Separate typedLists ∧
      ∃ values after left,
        Analysis.each (callOn "pop") typedLists Registry.environment listsReady =
          .ok values after ∧
        values.map classesIn = [[some (builtinClass .int)], [some (builtinClass .str)]] ∧
        classesIn (after.store.union values) =
          [some (builtinClass .int), some (builtinClass .str)] ∧
        callOn "pop" (.union typedLists) Registry.environment listsReady = .ok .unknown left := by
  obtain ⟨values, after, called, classes, united⟩ := each_of_classesOn (show
    (classesOn "pop" typedLists).yields Registry.environment listsReady
      ([[some (builtinClass .int)], [some (builtinClass .str)]],
        [some (builtinClass .int), some (builtinClass .str)]) = true by decide +kernel)
  obtain ⟨value, left, whole, ending⟩ := bind_eq_ok.mp (ok_of_yields (show
    (unknownOn "pop" (.union typedLists)).yields Registry.environment listsReady true = true by
      decide +kernel))
  injection ending with isUnknown _
  cases value with
  | unknown =>
    exact ⟨by decide +kernel, by decide +kernel, values, after, left, called, classes, united, whole⟩
  | type _ | object _ _ | union _ => cases isUnknown

end Analyzer

end TypeInference
