import Compliance.Hiera.ConfinedMerge

/-! # The checks by name, control and CE

A check is usable when it is of the wanted type and its settings name a parameter and a value. The
usable checks of the merged data are indexed by their name, by the controls that they or their CEs
switch on, and by their CEs.

* `UsableCheck.of?`: a usable check, or the first thing that keeps a check from being one.
* `CheckMap.add`: what one usable check adds to the index; a check that reaches a control on several
  ways is listed once for each.
* `buildCheckMap`: the index of all checks in order, with a warning for each that is not usable.
-/

namespace Compliance

/-- A check that can set its parameter. -/
structure UsableCheck where
  body : Mapping
  parameter : String
  value : Tree

/-- What keeps a check from setting a parameter. -/
inductive Unusable where
  | otherType
  | noSettings
  | noParameter
  | noValue (parameter : String)
deriving DecidableEq, Repr

def Unusable.message : Unusable → String
  | .otherType => "Not a Puppet parameter"
  | .noSettings => "Missing required 'settings' Hash"
  | .noParameter => "Missing required key 'parameter' or wrong data type"
  | .noValue parameter => "Missing required key 'value' for parameter " ++ parameter

/-- The check as a usable one of the wanted type. -/
def UsableCheck.of? (checkType : String) (check : Tree) : Except Unusable UsableCheck :=
  match check with
  | .map body =>
    if ((Tree.field? body "type").map (Tree.equals · (.str checkType))).getD false then
      match Tree.mapField? body "settings" with
      | none => .error .noSettings
      | some settings =>
        match Tree.field? settings "parameter" with
        | some (.str parameter) =>
          match Tree.field? settings "value" with
          | some value => .ok ⟨body, parameter, value⟩
          | none => .error (.noValue parameter)
        | _ => .error .noParameter
    else .error .otherType
  | _ => .error .otherType

/-- The usable checks by name, by control and by CE. -/
structure CheckMap where
  checks : Table Scalar (List UsableCheck) := []
  controls : Table Scalar (List UsableCheck) := []
  ces : Table Scalar (List UsableCheck) := []

/-- Lists the check once more under the key. -/
def listUnder (index : Table Scalar (List UsableCheck)) (key : Scalar) (check : UsableCheck) :
    Table Scalar (List UsableCheck) :=
  index.insert key ((index.get? key).getD [] ++ [check])

/-- The controls that a body switches on. -/
def controlsOn (body : Mapping) : List Scalar :=
  ((Tree.mapField? body "controls").getD []).filterMap fun (control, enabled) =>
    if enabled.isSet then some control else none

/-- The CEs that a check names and that are there, each as often as it is named. -/
def knownCes (ces body : Mapping) : List String :=
  match Tree.field? body "ces" with
  | some (.seq items) =>
    items.filterMap fun t =>
      match t with
      | .str name => if (Tree.field? ces name).isSome then some name else none
      | _ => none
  | _ => []

/-- The controls of a CE. -/
def ceControlsOn (ces : Mapping) (name : String) : List Scalar :=
  controlsOn (((Tree.field? ces name).map Tree.entries).getD [])

/-- Lists a usable check under its name, its controls, its CEs and their controls. -/
def CheckMap.add (ces : Mapping) (index : CheckMap) (name : Scalar) (check : UsableCheck) :
    CheckMap :=
  let named := knownCes ces check.body
  { checks := index.checks.insert name [check]
    controls :=
      (controlsOn check.body ++ named.flatMap (ceControlsOn ces)).foldl
        (fun t control => listUnder t control check) index.controls
    ces := named.foldl (fun t ce => listUnder t (.str ce) check) index.ces }

/-- One check of the merged data: indexed or reported. -/
def CheckMap.addOrReport (checkType label : String) (ces : Mapping) (index : CheckMap)
    (name : Scalar) (check : Tree) : CheckMap × List Message :=
  match UsableCheck.of? checkType check with
  | .ok usable => (index.add ces name usable, [])
  | .error reason =>
    (index, [.warning ("check " ++ name.text ++ " " ++ label ++ ": " ++ reason.message)])

/-- **The index of the checks** of the merged data, with a warning for each that is not usable. -/
def buildCheckMap (checkType : String) (merged : Mapping) (context : Tree) :
    CheckMap × List Message :=
  let ces := (Tree.mapField? merged "ce").getD []
  let label := describeContext context
  ((Tree.mapField? merged "checks").getD []).foldl
    (fun (index, messages) (name, check) =>
      let (index, more) := index.addOrReport checkType label ces name check
      (index, messages ++ more))
    ({}, [])

end Compliance
