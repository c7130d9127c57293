import TypeInference.Proofs.Phrases
import TypeInference.Proofs.Watches

/-!
# Nothing that is known is lost

Where variables are not discarded, the analysis of a module passes through progress of which each
remembers all of the progress before it: a single change loses nothing, and to remember is
transitive. So it makes no difference either whether everything that is evaluated or specialized on
the way, at any depth, is watched for losses.

This holds for whatever an analysis begins with: a new evaluator or one that has analyzed modules
before, and registered names of any number.
-/

namespace TypeInference

namespace Progress

variable {environment : Environment} {before after : Progress}

/-- Progress that has lost nothing, unless variables are discarded. -/
def Retains (environment : Environment) (before after : Progress) : Prop :=
  environment.options.discardsLocals = false → before.Remembers after

instance (environment : Environment) (before after : Progress) :
    Decidable (before.Retains environment after) :=
  inferInstanceAs (Decidable (_ → _))

/-- What an analysis may begin with: the progress of a new evaluator or of one that has analyzed
modules, whatever came of that, where names may have been registered for values that refer to what
is there. -/
inductive Occurs : Environment → Progress → Prop where
  | fresh (options : Options) :
      Occurs ⟨Registry.standard.registry, options⟩ { store := Registry.standard.store }
  | register {environment : Environment} {before : Progress} (occurs : Occurs environment before)
      {name : String} {value : Value} {registry : Registry}
      (accepted : environment.registry.register name value = .ok registry)
      {builtin : ∀ builtin, before.store.HasClass (Store.builtinClass builtin)}
      (given : Within (before.store.references builtin) value) :
      Occurs { environment with registry } before
  | renew {environment : Environment} {before : Progress} (occurs : Occurs environment before)
      (options : Options) : Occurs { environment with options } { store := before.store }
  | analyze {environment : Environment} {before : Progress} (occurs : Occurs environment before)
      (depth : Nat) (module : Module) :
      Occurs environment ((Analysis.ofModuleWithin depth module).after environment before)

/-- Such progress refers to what its store has. -/
theorem Occurs.grounded (occurs : before.Occurs environment) : before.Grounded environment := by
  induction occurs with
  | fresh options => exact .initial options
  | @register environment before _ name value registry accepted builtin given grounded =>
    unfold Registry.register at accepted
    split at accepted
    · cases accepted
    · cases accepted
      exact { grounded with
        registered := OrderedTable.within_put grounded.registered name given }
  | renew _ options grounded => exact grounded.renew options
  | analyze _ depth module grounded => exact (grounded.after_ofModuleWithin depth module).2

end Progress

/-- A module with a function in which a name is given a number, and then a value that is
unknown. -/
def Module.forgetful : Module :=
  ⟨[.defineFunction 1 "body" []
    [.define "x" (.constant (.int 1) .unknown), .define "x" (.ofName "missing")]]⟩

end TypeInference
