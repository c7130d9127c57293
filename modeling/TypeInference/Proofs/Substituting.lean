import TypeInference.Generics.Specialization
import TypeInference.Proofs.Logic

/-!
# Substitution obeys judgements

Substitution specializes classes and reads the store. So a judgement that specialized classes
with replaced parameters obey is obeyed by every substitution. The laws follow the
definitions, and those of recursive definitions follow their recursion.
-/

namespace TypeInference

/-- Some bindings have known references, and known classes in which they are substituted obey
a judgement, from a world on. -/
structure Judgement.Substitutes (judgement : Judgement) (engine : judgement.Index → Engine)
    (world : judgement.World) (bindings : Bindings) : Prop where
  within : Within (judgement.Known world) bindings
  substituteClass : ∀ {second}, judgement.Later world second → ∀ {id},
    judgement.Known second (.cls id) →
      judgement.Holds second fun index => (engine index).substituteClass bindings id

variable {judgement : Judgement} {engine : judgement.Index → Engine}
  {world : judgement.World} {bindings : Bindings}

theorem Judgement.Substitutes.later {second : judgement.World}
    (substitutes : judgement.Substitutes engine world bindings)
    (passed : judgement.Later world second) : judgement.Substitutes engine second bindings where
  within := Judgement.within_later passed substitutes.within
  substituteClass again := substitutes.substituteClass (judgement.later_trans passed again)

namespace Engine

/-- What a template is asked for in place of a class refers to what its types and what is put in
their place refer to. -/
theorem within_replacements {known : References} {own : Bindings} (stored : Within known own)
    (bound : Within known bindings) (parameters : List TypeParameter) :
    Within known ((parameters.map fun parameter =>
      (own.find? parameter).getD (.parameter parameter)).map fun ty =>
        (replacement? bindings ty).getD ty) := by
  refine .map (fun ty listed => ?_) fun ty given => Refers.Within.getD (fun new found => ?_) given
  · obtain ⟨parameter, -, rfl⟩ := List.mem_map.mp listed
    exact (within_binding stored parameter).getD (within_parameterType parameter)
  · obtain ⟨parameter, -, resolved⟩ := Option.bind_eq_some_iff.mp found
    exact within_resolve? bound parameter new resolved

theorem substituteClass_holds (bound : Within (judgement.Known world) bindings)
    (specializes : ∀ {second}, judgement.Later world second → ∀ {id arguments},
      judgement.Known second (.cls id) → Within (judgement.Known second) arguments →
        judgement.Holds second fun index => (engine index).specialize id arguments)
    {id : ClassId} (given : judgement.Known world (.cls id)) :
    judgement.Holds world fun index => (engine index).substituteClass bindings id := by
  refine judgement.bind judgement.store ?_
  intro second passed store within
  have bound := Judgement.within_later passed bound
  have given := judgement.known_later passed _ given
  have made : judgement.Known second (.cls (store.templateOf id)) :=
    (within.1 id).template.getD given
  refine Judgement.ite (fun _ => judgement.pure given) fun _ => ?_
  refine Judgement.ite (fun _ => judgement.pure given) fun _ => ?_
  exact specializes passed made
    (within_ofTypes (within_replacements (within.1 id).parameters bound _) _)

theorem substituteType_holds (substitutes : judgement.Substitutes engine world bindings)
    {ty : Ty} (given : Within (judgement.Known world) ty) :
    judgement.Holds world fun index => (engine index).substituteType bindings ty := by
  cases ty with
  | cls id =>
    refine judgement.bind (substitutes.substituteClass (judgement.later_refl world) given) ?_
    intro second passed specialized known
    exact judgement.pure known
  | parameter parameter =>
    have resolved := within_resolve? substitutes.within parameter
    exact judgement.pure (resolved.getD (within_parameterType parameter))
  | unknown | function _ | marker _ => exact judgement.pure given

mutual

theorem substitute_holds {world : judgement.World}
    (substitutes : judgement.Substitutes engine world bindings) :
    ∀ {value : Value}, Within (judgement.Known world) value →
      judgement.Holds world fun index => (engine index).substitute bindings value
  | .unknown, given => judgement.pure given
  | .type ty, given => by
    simp only [substitute]
    refine judgement.bind (substituteType_holds substitutes (Ty.Stands.mentions given)) ?_
    intro second passed replaced within
    exact judgement.pure within.ofType
  | .union alternatives, given => by
    simp only [substitute]
    refine judgement.bind (substituteAll_holds substitutes ((within_union _).mp given).2) ?_
    intro second passed replaced within
    refine judgement.reads ?_
    intro third again store _ closed
    exact judgement.pure (closed _ (Judgement.within_later again within))
  | .object (.parameter parameter) content, given => by
    have resolved := within_resolve? substitutes.within parameter
    simp only [substitute]
    cases found : bindings.resolve? parameter with
    | none => exact judgement.pure given
    | some ty =>
      cases ty with
      | cls id =>
        refine judgement.bind judgement.store ?_
        intro second passed store within
        exact judgement.pure (within_newObject within
          (judgement.known_later passed _ (resolved _ found)))
      | unknown | parameter _ | function _ | marker _ =>
        exact judgement.pure (resolved _ found).ofTy
  | .object (.cls id) content, given => by
    simp only [substitute]
    have object := given.objectType
    refine judgement.bind (substitutes.substituteClass (judgement.later_refl world) object) ?_
    intro second passed specialized known
    have onward := substitutes.later passed
    have kept := judgement.known_later passed _ object
    match content with
    | .plain =>
      refine Judgement.ite (fun _ => judgement.pure kept) fun _ => ?_
      refine judgement.bind judgement.store ?_
      intro third again store within
      exact judgement.pure (within_newObject within (judgement.known_later again _ known))
    | .constant _ => exact judgement.pure kept
    | .sequence ⟨items, _⟩ =>
      have inside := ((within_sequence _ _ _).mp given).2
      refine judgement.bind (substituteAll_holds onward (Judgement.within_later passed inside)) ?_
      intro third again replaced within
      exact judgement.pure ((within_sequence _ _ _).mpr
        ⟨judgement.known_later again _ known, within⟩)
    | .mapping ⟨entries, _⟩ =>
      have inside := ((within_mapping _ _ _).mp given).2
      refine judgement.bind
        (substituteEntries_holds onward (Judgement.within_later passed inside)) ?_
      intro third again replaced within
      exact judgement.pure ((within_mapping _ _ _).mpr
        ⟨judgement.known_later again _ known, within⟩)
    | .iterator element =>
      have inside := ((within_iterator _ _).mp given).2
      refine judgement.bind (substitute_holds onward (Judgement.within_later passed inside)) ?_
      intro third again replaced within
      exact judgement.pure ((within_iterator _ _).mpr
        ⟨judgement.known_later again _ known, within⟩)
  | .object .unknown _, given => judgement.pure given
  | .object (.function _) _, given => judgement.pure given
  | .object (.marker _) _, given => judgement.pure given

theorem substituteAll_holds {world : judgement.World}
    (substitutes : judgement.Substitutes engine world bindings) :
    ∀ {values : List Value}, Within (judgement.Known world) values →
      judgement.Holds world fun index => (engine index).substituteAll bindings values
  | [], given => judgement.pure given
  | value :: rest, given => by
    rw [within_cons] at given
    simp only [substituteAll]
    refine judgement.bind (substitute_holds substitutes given.1) ?_
    intro second passed first within
    refine judgement.bind (substituteAll_holds (substitutes.later passed)
      (Judgement.within_later passed given.2)) ?_
    intro third again others listed
    exact judgement.pure ((within_cons _ _).mpr ⟨Judgement.within_later again within, listed⟩)

theorem substituteEntries_holds {world : judgement.World}
    (substitutes : judgement.Substitutes engine world bindings) :
    ∀ {entries : List (Value × Value)}, Within (judgement.Known world) entries →
      judgement.Holds world fun index => (engine index).substituteEntries bindings entries
  | [], given => judgement.pure given
  | (key, value) :: rest, given => by
    rw [within_cons, within_pair] at given
    simp only [substituteEntries]
    refine judgement.bind (substitute_holds substitutes given.1.1) ?_
    intro second passed newKey keyWithin
    refine judgement.bind (substitute_holds (substitutes.later passed)
      (Judgement.within_later passed given.1.2)) ?_
    intro third again newValue valueWithin
    have further := judgement.later_trans passed again
    refine judgement.bind (substituteEntries_holds (substitutes.later further)
      (Judgement.within_later further given.2)) ?_
    intro fourth onward others listed
    refine judgement.pure ((within_cons _ _).mpr ⟨⟨?_, ?_⟩, listed⟩)
    · exact Judgement.within_later (judgement.later_trans again onward) keyWithin
    · exact Judgement.within_later onward valueWithin

end

theorem substituteBases_holds {bases : List Ty} : ∀ {world : judgement.World},
    judgement.Substitutes engine world bindings → Within (judgement.Known world) bases →
      judgement.Holds world fun index => (engine index).substituteBases bindings bases := by
  induction bases with
  | nil => exact fun _ given => judgement.pure given
  | cons base rest inductionHypothesis =>
    intro world substitutes given
    rw [within_cons] at given
    cases base with
    | marker => exact inductionHypothesis substitutes given.2
    | cls id =>
      refine judgement.bind
        (substitutes.substituteClass (judgement.later_refl world) given.1) ?_
      intro second passed specialized known
      refine judgement.bind (inductionHypothesis (substitutes.later passed)
        (Judgement.within_later passed given.2)) ?_
      intro third again others listed
      exact judgement.pure
        ((within_cons _ _).mpr ⟨judgement.known_later again _ known, listed⟩)
    | unknown | parameter _ | function _ =>
      refine judgement.bind (inductionHypothesis substitutes given.2) ?_
      intro second passed others listed
      exact judgement.pure
        ((within_cons _ _).mpr ⟨Judgement.within_later passed given.1, listed⟩)

theorem copyMembers_holds {target : ClassId} {members : List (String × Value)} :
    ∀ {world : judgement.World}, judgement.Substitutes engine world bindings →
      (∀ {second}, judgement.Later world second → ∀ name ∈ members.map (·.1), ∀ {value},
        Within (judgement.Known second) value → judgement.Holds second fun _ =>
          Analysis.modifyStore fun store => (store.addMember target name value true).2) →
        Within (judgement.Known world) members → judgement.Holds world fun index =>
          (engine index).copyMembers bindings target members := by
  induction members with
  | nil => exact fun _ _ _ => judgement.pure trivial
  | cons member rest inductionHypothesis =>
    obtain ⟨name, value⟩ := member
    intro world substitutes adds given
    rw [within_cons] at given
    refine judgement.bind (substitute_holds substitutes given.1.2) ?_
    intro second passed replaced within
    refine judgement.bind (adds passed name List.mem_cons_self within) ?_
    intro third again _ _
    have further := judgement.later_trans passed again
    exact inductionHypothesis (substitutes.later further)
      (fun onward other listed =>
        adds (judgement.later_trans further onward) other (List.mem_cons_of_mem _ listed))
      (Judgement.within_later further given.2)

/-- There are no markers among substituted bases. -/
theorem unmarked_substituteBases {engine : Engine} {bindings : Bindings}
    {environment : Environment} {bases : List Ty} :
    ∀ {before after : Progress} {found : List Ty},
      engine.substituteBases bindings bases environment before = .ok found after →
        ∀ base ∈ found, base.asMarker? = none := by
  induction bases with
  | nil =>
    rintro before after found ⟨⟩ base ⟨⟩
  | cons base rest inductionHypothesis =>
    intro before after found returned
    cases base with
    | marker => exact inductionHypothesis returned
    | cls id =>
      obtain ⟨specialized, middle, -, continued⟩ := Analysis.bind_eq_ok.mp returned
      obtain ⟨others, last, listed, ending⟩ := Analysis.bind_eq_ok.mp continued
      cases ending
      exact List.forall_mem_cons.mpr ⟨rfl, inductionHypothesis listed⟩
    | unknown | parameter _ | function _ =>
      obtain ⟨others, last, listed, ending⟩ := Analysis.bind_eq_ok.mp returned
      cases ending
      exact List.forall_mem_cons.mpr ⟨rfl, inductionHypothesis listed⟩

/-- So what goes on with them may drop the markers first. -/
theorem substituteBases_bind {α : Type} (engine : Engine) (bindings : Bindings)
    (bases : List Ty) (next : List Ty → Analysis α) :
    engine.substituteBases bindings bases >>= next =
      engine.substituteBases bindings bases >>= fun found =>
        next (found.filter fun base => base.asMarker?.isNone) := by
  funext environment before
  rw [Analysis.bind_apply, Analysis.bind_apply]
  cases returned : engine.substituteBases bindings bases environment before with
  | error => rfl
  | ok found after =>
    have all : found.filter (fun base => base.asMarker?.isNone) = found :=
      List.filter_eq_self.mpr fun base listed => by
        rw [unmarked_substituteBases returned base listed]
        rfl
    dsimp only
    rw [all]

/-- A placeholder can be made if bases without markers and members that are not had by nature
can be given to it. -/
theorem materialize_holds {evidence : Evidence}
    (substitutes : judgement.Substitutes engine world evidence.bindings)
    (template placeholder : ClassId)
    (derives : ∀ {second}, judgement.Later world second → ∀ {bases : List Ty},
      Within (judgement.Known second) bases → (∀ base ∈ bases, base.asMarker? = none) →
        judgement.Holds second fun _ => Analysis.modifyStore fun store =>
          store.setBases placeholder (evidence.bases.foldl (addDiscovered store) bases))
    (adds : ∀ {second}, judgement.Later world second → ∀ name ∉ structuralMembers, ∀ {value},
      Within (judgement.Known second) value → judgement.Holds second fun _ =>
        Analysis.modifyStore fun store => (store.addMember placeholder name value true).2) :
    judgement.Holds world fun index =>
      (engine index).materialize template placeholder evidence := by
  refine judgement.bind judgement.store ?_
  intro second passed store within
  have substitutes := substitutes.later passed
  refine Eq.mpr (congrArg (judgement.Holds second)
    (funext fun index => substituteBases_bind (engine index) _ _ _)) ?_
  refine judgement.bind (substituteBases_holds substitutes (within.1 template).bases) ?_
  intro third again bases given
  have further := judgement.later_trans passed again
  have kept : Within (judgement.Known third) (bases.filter fun base => base.asMarker?.isNone) :=
    fun base listed => given base (List.mem_filter.mp listed).1
  refine judgement.bind (derives further kept fun base listed =>
    Option.isNone_iff_eq_none.mp (List.mem_filter.mp listed).2) ?_
  intro fourth onward _ _
  have further := judgement.later_trans further onward
  refine judgement.bind judgement.store ?_
  intro fifth lastly store within
  have further := judgement.later_trans further lastly
  have members : Within (judgement.Known fifth)
      ((store.classAt template).members.entries.filter fun member =>
        !structuralMembers.contains member.1) :=
    fun member listed => ⟨trivial, (within.1 template).members member.2
      (List.mem_map_of_mem (List.mem_filter.mp listed).1)⟩
  refine copyMembers_holds (substitutes.later ?_) (fun ending name listed => adds ?_ name ?_)
    members
  · exact judgement.later_trans again (judgement.later_trans onward lastly)
  · exact judgement.later_trans further ending
  · obtain ⟨member, among, rfl⟩ := List.mem_map.mp listed
    simpa using (List.mem_filter.mp among).2

end Engine

end TypeInference
