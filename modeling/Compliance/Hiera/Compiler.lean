import Compliance.Hiera.Resolve

/-! # Hiera compilation

For one profile and one context: merge the documents without the entries that are left out, index
the usable checks, collect the checks of the profile, and resolve their settings.
-/

namespace Compliance

/-- A corpus with what its compilation depends on besides profile and context. -/
structure Compiler where
  corpus : Corpus
  knockout : Knockout := .marker Knockout.defaultText
  checkType : String := Schema.parameterCheckType

namespace Compiler

def mergeConfined (c : Compiler) (context : Tree) : Logged CompileFault Mapping :=
  Compliance.mergeConfined c.corpus c.knockout context

def buildCheckMap (c : Compiler) (merged : Mapping) (context : Tree) : CheckMap × List Message :=
  Compliance.buildCheckMap c.checkType merged context

def settingOf (check : UsableCheck) : Setting := ⟨check.parameter, check.value⟩

/-- **The class parameters that a profile sets under a context.** -/
def compile (c : Compiler) (profile : Scalar) (context : Tree) :
    Logged CompileFault (Table String Tree) :=
  (c.mergeConfined context).andThen fun merged =>
    let (index, warnings) := c.buildCheckMap merged context
    (Logged.log warnings).andThen fun _ =>
      match profileChecks merged index profile with
      | [] =>
        ⟨[.note (profile.text ++ " " ++ describeContext context ++ ": No Hiera values found")],
          .ok []⟩
      | checks => resolve profile context (checks.map settingOf)

end Compiler

end Compliance
