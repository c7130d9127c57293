import Mathlib.Algebra.Order.Group.Multiset
import Mathlib.Tactic.Abel
import TypeInference.Analysis.Arguments

/-!
# What parameters receive of a call

Each parameter that is left after the receiver receives a value by place, a value by its name, all
values by place that are left, or nothing of a call; where it takes one value and receives nothing,
its default stands in. The values by place are handed out in order, so that they are those that are
received, one after the other, and those that are left over; the values by name are those that are
received in any order and those that are left over. Nothing is received twice or gets lost
(`Arguments.forCall_loses_nothing`).
-/

namespace TypeInference

/-- What a parameter receives of a call. -/
inductive Receipt where
  /-- The next value by place. -/
  | place (value : Value)
  /-- The value of its name. -/
  | keyword (value : Value)
  /-- All values by place that are left. -/
  | rest (values : List Value)
  | nothing

/-- Whether a parameter takes one value, by place or by name. -/
def FormalParameter.takesOne (parameter : FormalParameter) : Prop :=
  parameter.kind = .normal ∨ parameter.kind = .keywordOnly

instance (parameter : FormalParameter) : Decidable parameter.takesOne :=
  inferInstanceAs (Decidable (_ ∨ _))

/-- Whether a parameter takes one value, by place if there is one. -/
def FormalParameter.isNormal (parameter : FormalParameter) : Bool :=
  parameter.kind = .normal

namespace Receipt

/-- The values by place that are received. -/
def placed : Receipt → List Value
  | .place value => [value]
  | .rest values => values
  | .keyword _ | .nothing => []

/-- The value by name that is received, with the name. -/
def named (parameter : FormalParameter) : Receipt → List (String × Value)
  | .keyword value => [(parameter.name, value)]
  | .place _ | .rest _ | .nothing => []

/-- The default of a parameter that takes one value, has a default and receives nothing. -/
def defaulted (parameter : FormalParameter) : Receipt → List Value
  | .nothing => if parameter.takesOne then parameter.default.toList else []
  | .place _ | .keyword _ | .rest _ => []

/-- The arguments of a parameter: each value with the name and the declared type of the parameter.
-/
def arguments (parameter : FormalParameter) (receipt : Receipt) : List Argument :=
  (receipt.placed ++ (receipt.named parameter).map (·.2) ++ receipt.defaulted parameter).map
    fun value => ⟨parameter.name, value, parameter.declaredType⟩

theorem values_arguments (parameter : FormalParameter) (receipt : Receipt) :
    (receipt.arguments parameter).map (·.value) =
      receipt.placed ++ (receipt.named parameter).map (·.2) ++ receipt.defaulted parameter := by
  simp only [arguments, List.map_map, Function.comp_def, List.map_id_fun', id]

/-- Whether a parameter of its kind can receive this. -/
def Suits (parameter : FormalParameter) : Receipt → Prop
  | .place _ => parameter.kind = .normal
  | .keyword _ => parameter.takesOne
  | .rest _ => parameter.kind = .varPositional
  | .nothing => parameter.kind ≠ .varPositional

end Receipt

namespace Supply

variable {supply middle left : Supply} {parameter : FormalParameter}
  {parameters : List FormalParameter} {receipt : Receipt} {receipts : List Receipt}

/-- A keyword is taken out of the others, and without one of the name none is. -/
theorem keywordIn_cases (name : String) (keywords : List (String × Value)) :
    (∃ value rest, keywordIn name keywords = some (value, rest) ∧
      keywords.Perm ((name, value) :: rest)) ∨
    (keywordIn name keywords = none ∧ name ∉ keywords.map (·.1)) := by
  induction keywords with
  | nil => exact .inr ⟨rfl, List.not_mem_nil⟩
  | cons entry others inductionHypothesis =>
    rw [keywordIn]
    by_cases here : entry.1 = name
    · exact .inl ⟨entry.2, others, if_pos here, by rw [← here]⟩
    · rw [if_neg here]
      rcases inductionHypothesis with ⟨value, rest, found, same⟩ | ⟨missing, absent⟩
      · refine .inl ⟨value, entry :: rest, by rw [found]; rfl, ?_⟩
        exact (same.cons entry).trans (List.Perm.swap _ _ _)
      · refine .inr ⟨by rw [missing]; rfl, ?_⟩
        rw [List.map_cons, List.mem_cons, not_or]
        exact ⟨Ne.symm here, absent⟩

/-- What one parameter receives of a supply, and what is left. -/
structure Gives (supply : Supply) (parameter : FormalParameter) (receipt : Receipt)
    (left : Supply) : Prop where
  suits : receipt.Suits parameter
  positional : supply.positional = receipt.placed ++ left.positional
  keywords : supply.keywords.Perm (receipt.named parameter ++ left.keywords)
  /-- No value by place is passed over. -/
  first : parameter.kind = .normal → receipt.placed = [] → supply.positional = []
  /-- No value of its name is passed over. -/
  unmet : receipt = .nothing → parameter.takesOne → parameter.name ∉ supply.keywords.map (·.1)

/-- What is received by a name, if anything. -/
theorem takeKeyword_gives (supply : Supply) (parameter : FormalParameter)
    (takesOne : parameter.takesOne) (placeless : parameter.kind = .normal → supply.positional = []) :
    ∃ receipt, supply.Gives parameter receipt (supply.takeKeyword parameter.name).2 ∧
      boundOrDefault parameter (supply.takeKeyword parameter.name).1 =
        receipt.arguments parameter := by
  have single : parameter.kind ≠ .varPositional := by
    intro several
    rw [FormalParameter.takesOne, several] at takesOne
    exact absurd takesOne (by decide)
  unfold takeKeyword
  rcases keywordIn_cases parameter.name supply.keywords with
    ⟨value, rest, found, same⟩ | ⟨missing, absent⟩
  · rw [found]
    exact ⟨.keyword value, ⟨takesOne, rfl, same, fun normal _ => placeless normal, nofun⟩, rfl⟩
  · rw [missing]
    refine ⟨.nothing, ⟨single, rfl, .refl _, fun normal _ => placeless normal,
      fun _ _ => absent⟩, ?_⟩
    rw [Receipt.arguments, Receipt.defaulted, if_pos takesOne, boundOrDefault, Option.none_or]
    cases parameter.default <;> rfl

/-- Each parameter receives something that suits it, or nothing. -/
theorem bind_gives (supply : Supply) (parameter : FormalParameter) :
    ∃ receipt, supply.Gives parameter receipt (supply.bind parameter).2 ∧
      (supply.bind parameter).1 = receipt.arguments parameter := by
  unfold bind
  cases kind : parameter.kind with
  | normal =>
    unfold takeNormal
    cases placed : supply.positional with
    | nil => exact takeKeyword_gives supply parameter (.inl kind) fun _ => placed
    | cons value others =>
      exact ⟨.place value, ⟨kind, placed, .refl _, nofun, nofun⟩, rfl⟩
  | keywordOnly =>
    exact takeKeyword_gives supply parameter (.inr kind) fun normal => by
      rw [kind] at normal
      cases normal
  | varPositional =>
    refine ⟨.rest supply.positional, ⟨kind, (List.append_nil _).symm, .refl _, ?_, nofun⟩, ?_⟩
    · intro normal
      rw [kind] at normal
      cases normal
    · simp only [Receipt.arguments, Receipt.placed, Receipt.named, Receipt.defaulted, List.map_nil,
        List.append_nil]
      rfl
  | varKeyword =>
    have several : ¬parameter.takesOne := by
      rw [FormalParameter.takesOne, kind]
      decide
    have single : parameter.kind ≠ .varPositional := by
      rw [kind]
      decide
    refine ⟨.nothing, ⟨single, rfl, .refl _, ?_, fun _ takesOne => absurd takesOne several⟩, ?_⟩
    · intro normal
      rw [kind] at normal
      cases normal
    · rw [Receipt.arguments, Receipt.defaulted, if_neg several]
      rfl

/-- As long as there are values by place, a normal parameter receives the next one. -/
theorem Gives.next (gives : supply.Gives parameter receipt left)
    (normal : parameter.kind = .normal) {value : Value} {others : List Value}
    (available : supply.positional = value :: others) :
    receipt = .place value ∧ left.positional = others := by
  have same := gives.positional
  rw [available] at same
  cases receipt with
  | place received =>
    obtain ⟨rfl, rfl⟩ := List.cons.inj same
    exact ⟨rfl, rfl⟩
  | rest values =>
    have several : parameter.kind = .varPositional := gives.suits
    rw [normal] at several
    cases several
  | keyword _ | nothing =>
    have empty := gives.first normal rfl
    rw [available] at empty
    cases empty

/-- Other parameters leave the values by place to the following ones, unless they take all. -/
theorem Gives.same (gives : supply.Gives parameter receipt left)
    (other : parameter.kind ≠ .normal) (single : parameter.kind ≠ .varPositional) :
    supply.positional = left.positional := by
  cases receipt with
  | place value => exact absurd gives.suits other
  | rest values => exact absurd gives.suits single
  | keyword _ | nothing => exact gives.positional

/-- What parameters receive of a supply one after the other, and what is left. -/
structure Serves (supply : Supply) (parameters : List FormalParameter) (receipts : List Receipt)
    (left : Supply) : Prop where
  /-- Each parameter receives what it can. -/
  suits : List.Forall₂ Receipt.Suits parameters receipts
  /-- The values by place are received in order, and the last ones are left. -/
  positional : supply.positional = receipts.flatMap Receipt.placed ++ left.positional
  /-- The values by name are received under their names or left. -/
  keywords : supply.keywords.Perm
    ((List.zipWith Receipt.named parameters receipts).flatten ++ left.keywords)
  /-- Normal parameters that no parameter for the rest precedes receive one value by place each, as
  long as there are any. -/
  inTurn : ∀ place parameter, parameters[place]? = some parameter → parameter.kind = .normal →
    (∀ earlier ∈ parameters.take place, earlier.kind ≠ .varPositional) → ∀ value,
      supply.positional[(parameters.take place).countP FormalParameter.isNormal]? = some value →
        receipts[place]? = some (.place value)
  /-- What takes one value and receives nothing leaves nothing that it could have received. -/
  unmet : ∀ pair ∈ parameters.zip receipts, pair.2 = .nothing → pair.1.takesOne →
    pair.1.name ∉ left.keywords.map (·.1) ∧ (pair.1.kind = .normal → left.positional = [])

theorem serves_nil (supply : Supply) : supply.Serves [] [] supply where
  suits := .nil
  positional := rfl
  keywords := .refl _
  inTurn := by simp
  unmet := by simp

/-- What comes after a parameter receives what that one leaves. -/
theorem Serves.cons (serves : middle.Serves parameters receipts left)
    (gives : supply.Gives parameter receipt middle) :
    supply.Serves (parameter :: parameters) (receipt :: receipts) left where
  suits := .cons gives.suits serves.suits
  positional := by
    rw [gives.positional, serves.positional, List.flatMap_cons, List.append_assoc]
  keywords := by
    rw [List.zipWith_cons_cons, List.flatten_cons, List.append_assoc]
    exact gives.keywords.trans (serves.keywords.append_left _)
  inTurn := by
    intro place normal listed isNormal before value found
    cases place with
    | zero =>
      cases Option.some.inj listed
      rw [List.take_zero, List.countP_nil] at found
      cases available : supply.positional with
      | nil =>
        rw [available] at found
        cases found
      | cons next others =>
        rw [available] at found
        cases found
        exact congrArg some (gives.next isNormal available).1
    | succ place =>
      rw [List.take_succ_cons, List.forall_mem_cons] at before
      refine serves.inTurn place normal listed isNormal before.2 value ?_
      by_cases own : parameter.kind = .normal
      · have counts : parameter.isNormal = true := decide_eq_true own
        rw [List.take_succ_cons, List.countP_cons_of_pos counts] at found
        cases available : supply.positional with
        | nil =>
          rw [available] at found
          cases found
        | cons next others =>
          rw [available, List.getElem?_cons_succ] at found
          rw [(gives.next own available).2, found]
      · have uncounted : ¬parameter.isNormal = true := own ∘ of_decide_eq_true
        rw [List.take_succ_cons, List.countP_cons_of_neg uncounted] at found
        rw [← gives.same own before.1, found]
  unmet := by
    intro pair listed isNothing takesOne
    rw [List.zip_cons_cons, List.mem_cons] at listed
    rcases listed with rfl | listed
    · have empty : receipt = .nothing := isNothing
      constructor
      · intro left_over
        obtain ⟨entry, among, same⟩ := List.mem_map.mp left_over
        have kept : entry ∈ middle.keywords :=
          serves.keywords.mem_iff.mpr (List.mem_append_right _ among)
        have was : entry ∈ supply.keywords :=
          gives.keywords.mem_iff.mpr (List.mem_append_right _ kept)
        exact gives.unmet empty takesOne (same ▸ List.mem_map_of_mem was)
      · intro normal
        have none_given := gives.first normal (by rw [empty]; rfl)
        rw [gives.positional, serves.positional, List.append_eq_nil_iff,
          List.append_eq_nil_iff] at none_given
        exact none_given.2.2
    · exact serves.unmet pair listed isNothing takesOne

/-- Parameters receive of a supply, one after the other, what makes up their arguments. -/
theorem bindAll_serves (parameters : List FormalParameter) : ∀ supply : Supply,
    ∃ receipts, supply.Serves parameters receipts (supply.bindAll parameters).2 ∧
      (supply.bindAll parameters).1 =
        (List.zipWith Receipt.arguments parameters receipts).flatten := by
  induction parameters with
  | nil => exact fun supply => ⟨[], serves_nil supply, rfl⟩
  | cons parameter rest inductionHypothesis =>
    intro supply
    obtain ⟨receipt, gives, own⟩ := bind_gives supply parameter
    obtain ⟨receipts, serves, others⟩ := inductionHypothesis (supply.bind parameter).2
    refine ⟨receipt :: receipts, serves.cons gives, ?_⟩
    rw [List.zipWith_cons_cons, List.flatten_cons, ← own, ← others]
    rfl

theorem values_surplus (supply : Supply) :
    supply.surplus.map (·.value) = supply.positional ++ supply.keywords.map (·.2) := by
  simp only [surplus, List.map_append, List.map_map, Function.comp_def, Argument.unbound,
    List.map_id_fun', id]

theorem declaredType_of_surplus {argument : Argument} (listed : argument ∈ supply.surplus) :
    argument.declaredType = .unknown := by
  rcases List.mem_append.mp listed with placed | named
  · obtain ⟨_, -, rfl⟩ := List.mem_map.mp placed
    rfl
  · obtain ⟨_, -, rfl⟩ := List.mem_map.mp named
    rfl

/-- The values of all arguments are what the parameters received and the defaults of those that
received nothing. -/
theorem values_arguments_perm (suits : List.Forall₂ Receipt.Suits parameters receipts) :
    ((List.zipWith Receipt.arguments parameters receipts).flatten.map (·.value)).Perm
      (receipts.flatMap Receipt.placed ++
        (List.zipWith Receipt.named parameters receipts).flatten.map (·.2) ++
          (List.zipWith Receipt.defaulted parameters receipts).flatten) := by
  induction suits with
  | nil => exact .refl _
  | @cons parameter receipt parameters receipts _ _ inductionHypothesis =>
    rw [← Multiset.coe_eq_coe] at inductionHypothesis ⊢
    simp only [List.zipWith_cons_cons, List.flatten_cons, List.map_append, List.flatMap_cons,
      Receipt.values_arguments, ← Multiset.coe_add] at inductionHypothesis ⊢
    rw [inductionHypothesis]
    abel

/-- Together, arguments and what is left have the values of the supply, and the defaults of
parameters that received nothing. -/
theorem Serves.values_perm (serves : supply.Serves parameters receipts left) :
    (((List.zipWith Receipt.arguments parameters receipts).flatten ++ left.surplus).map
      (·.value)).Perm (supply.positional ++ supply.keywords.map (·.2) ++
        (List.zipWith Receipt.defaulted parameters receipts).flatten) := by
  have bound := values_arguments_perm serves.suits
  have named := serves.keywords.map (·.2)
  rw [← Multiset.coe_eq_coe] at bound named ⊢
  simp only [List.map_append, values_surplus, serves.positional, ← Multiset.coe_add] at bound named ⊢
  rw [bound, named]
  abel

/-- The values by place that are received stand among those of the arguments in their order. -/
theorem placed_sublist (suits : List.Forall₂ Receipt.Suits parameters receipts) :
    (receipts.flatMap Receipt.placed).Sublist
      ((List.zipWith Receipt.arguments parameters receipts).flatten.map (·.value)) := by
  induction suits with
  | nil => exact .refl _
  | cons _ _ inductionHypothesis =>
    rw [List.zipWith_cons_cons, List.flatten_cons, List.map_append, List.flatMap_cons,
      Receipt.values_arguments, List.append_assoc]
    exact (List.sublist_append_left _ _).append
      (inductionHypothesis.trans (List.sublist_append_right _ _))

theorem Serves.positional_sublist (serves : supply.Serves parameters receipts left) :
    supply.positional.Sublist
      (((List.zipWith Receipt.arguments parameters receipts).flatten ++ left.surplus).map
        (·.value)) := by
  rw [serves.positional, List.map_append, values_surplus]
  exact (placed_sublist serves.suits).append (List.sublist_append_left _ _)

end Supply

namespace Arguments

/-- The parameters that are left after one of them has taken the receiver. -/
def remaining (parameters : List FormalParameter) (receiver : Option Value) :
    List FormalParameter :=
  if receiver.isSome then parameters.tail else parameters

/-- The receiver, if there is one and a parameter to take it, with the name and the declared type of
this parameter. -/
def received (parameters : List FormalParameter) (receiver : Option Value) : List Argument :=
  match receiver, parameters with
  | some value, first :: _ => [⟨first.name, value, first.declaredType⟩]
  | _, _ => []

/-- The receiver is bound first, then the parameters that are left, and then what these leave. -/
theorem list_forCall (parameters : List FormalParameter) (receiver : Option Value)
    (positional : List Value) (keywords : List (String × Value)) (span : Span) :
    (forCall parameters receiver positional keywords span).list =
      received parameters receiver ++
        (((⟨positional, keywords⟩ : Supply).bindAll (remaining parameters receiver)).1 ++
          ((⟨positional, keywords⟩ : Supply).bindAll (remaining parameters receiver)).2.surplus) := by
  cases receiver with
  | none => simp only [forCall, received, remaining, List.append_assoc]; rfl
  | some value =>
    cases parameters with
    | nil => rfl
    | cons first rest => rfl

/-- Calls lose nothing and use nothing twice. The parameters after the one that takes the receiver
receive the values of the call one after the other, and what they do not receive is left over. The
arguments are the receiver, those of the parameters, under their names and with their declared
types, and what is left over without a type. Their values are the receiver, all values by place in
order, all values by name, and the defaults of exactly those parameters that take one value, have
a default and received nothing.

Proof: one parameter takes out of the supply what it receives and leaves the rest; over the list of
parameters, what they receive and what is left at the end are the supply. -/
theorem forCall_loses_nothing (parameters : List FormalParameter) (receiver : Option Value)
    (positional : List Value) (keywords : List (String × Value)) (span : Span) :
    ∃ receipts left,
      Supply.Serves ⟨positional, keywords⟩ (remaining parameters receiver) receipts left ∧
      (forCall parameters receiver positional keywords span).list =
        received parameters receiver ++
          (List.zipWith Receipt.arguments (remaining parameters receiver) receipts).flatten ++
            left.surplus ∧
      (∀ argument ∈ left.surplus, argument.declaredType = .unknown) ∧
      ((forCall parameters receiver positional keywords span).list.map (·.value)).Perm
        ((received parameters receiver).map (·.value) ++ positional ++ keywords.map (·.2) ++
          (List.zipWith Receipt.defaulted (remaining parameters receiver) receipts).flatten) ∧
      positional.Sublist
        ((forCall parameters receiver positional keywords span).list.map (·.value)) := by
  obtain ⟨receipts, serves, bound⟩ :=
    Supply.bindAll_serves (remaining parameters receiver) ⟨positional, keywords⟩
  have list := list_forCall parameters receiver positional keywords span
  rw [bound] at list
  refine ⟨receipts, _, serves, by rw [list, List.append_assoc],
    fun _ => Supply.declaredType_of_surplus, ?_, ?_⟩
  · rw [list, List.map_append, List.append_assoc, List.append_assoc, ← List.append_assoc positional]
    exact serves.values_perm.append_left _
  · rw [list, List.map_append]
    exact serves.positional_sublist.trans (List.sublist_append_right _ _)

end Arguments

end TypeInference
