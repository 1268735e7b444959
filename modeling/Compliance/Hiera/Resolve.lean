import Compliance.Hiera.CheckMap

/-! # The values of the parameters

The checks that a profile pulls in set parameters one after the other. Mappings merge, sequences
unite, and for anything else the later value wins; a change of kind discards what was there.

* `profileChecks`: the checks of a profile by name, then by control, then by CE.
* `resolveStep`: what one more setting does to the value of its parameter.
* `resolve`: all settings in order; parameters do not influence one another.
-/

namespace Compliance

/-- A value for a parameter. -/
structure Setting where
  parameter : String
  value : Tree

/-- The checks that one kind of reference of a profile pulls in. -/
def referenced (profile : Mapping) (name : String) (index : Table Scalar (List UsableCheck)) :
    List UsableCheck :=
  ((Tree.mapField? profile name).getD []).flatMap fun (key, enabled) =>
    if enabled.isSet then (index.get? key).getD [] else []

/-- The body of a profile; one that is not there or no mapping is empty. -/
def profileBody (merged : Mapping) (profile : Scalar) : Mapping :=
  ((((Tree.mapField? merged "profiles").getD []).get? profile).map Tree.entries).getD []

/-- **The checks that a profile pulls in**, by name, by control and by CE. -/
def profileChecks (merged : Mapping) (index : CheckMap) (profile : Scalar) : List UsableCheck :=
  let body := profileBody merged profile
  referenced body "checks" index.checks ++ referenced body "controls" index.controls ++
    referenced body "ces" index.ces

/-- The value of a parameter after one more setting, with the one message about it. -/
def resolveStep (label parameter : String) (previous value : Tree) : Logged CompileFault Tree :=
  match previous.kind?, value.kind? with
  | .error fault, _ => .stop (.kind fault)
  | .ok _, .error fault => .stop (.kind fault)
  | .ok before, .ok after =>
    if before ≠ after then
      ⟨[.error (label ++ ": key " ++ parameter ++ " type mismatch (previous value: "
        ++ previous.render ++ " (" ++ before.name ++ "), new value: " ++ value.render ++ " ("
        ++ after.name ++ "))")], .ok value⟩
    else
      match previous, value with
      | .map old, .map new =>
        ⟨[.note (label ++ ": Merging Hash values for " ++ parameter)],
          .ok (.map (deepMerge .unite old new))⟩
      | .seq old, .seq new =>
        ⟨[.note (label ++ ": Merging Array values for " ++ parameter)],
          .ok (.seq (unique (old ++ new)))⟩
      | _, _ =>
        let text := label ++ ": key " ++ parameter ++ " redefined"
        if previous.equals value then ⟨[.note text], .ok value⟩
        else
          ⟨[.warning (text ++ " (previous value: " ++ previous.render ++ ", new value: "
            ++ value.render ++ ")")], .ok value⟩

/-- The data after one more setting. -/
def resolveSetting (label : String) (data : Table String Tree) (setting : Setting) :
    Logged CompileFault (Table String Tree) :=
  match data.get? setting.parameter with
  | none => .done (data.insert setting.parameter setting.value)
  | some previous =>
    (resolveStep label setting.parameter previous setting.value).andThen fun value =>
      .done (data.insert setting.parameter value)

/-- **The values of the parameters** that the settings give in order. -/
def resolve (profile : Scalar) (context : Tree) (settings : List Setting) :
    Logged CompileFault (Table String Tree) :=
  let label := profile.text ++ " " ++ describeContext context
  Logged.fold settings [] (resolveSetting label)

end Compliance
