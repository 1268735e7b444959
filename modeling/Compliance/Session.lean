import Compliance.Lint

/-! # Sessions

A lint run that has started, with what it keeps from one call to the next: the names of its profiles
and the contexts, once it has looked for them, and everything that it has reported.

* `Session.profiles`, `Session.contexts`: looked up in the documents the first time, and kept; that
  there are no profiles is not kept.
* `Session.compile`, `Session.validate`: the compilations; a fault in one profile is reported and
  leaves the others alone.
* `Session.start`: loads, checks the documents and validates, unless there are no documents.
* `Session.serve`: one call.
-/

namespace Compliance

/-- A lint run with what it keeps between calls. -/
structure Session where
  lint : Lint
  keptProfiles : Option (List Scalar) := none
  keptContexts : Option (List Mapping) := none
  diagnostics : Diagnostics := {}

namespace Session

def record (σ : Session) (ms : List Message) : Session :=
  { σ with diagnostics := σ.diagnostics.addAll ms }

/-- The names of the profiles, if there are any. -/
def profiles (σ : Session) : Option (List Scalar) × Session :=
  match σ.keptProfiles with
  | some names => (some names, σ)
  | none =>
    match σ.lint.profiles with
    | none => (none, σ)
    | some names => (some names, { σ with keptProfiles := some names })

/-- The contexts to compile under. -/
def contexts (σ : Session) : List Mapping × Session :=
  match σ.keptContexts with
  | some contexts => (contexts, σ)
  | none => (σ.lint.contexts, { σ with keptContexts := some σ.lint.contexts })

/-- The class parameters that a profile sets under a context. -/
def compile (σ : Session) (profile : Scalar) (context : Tree) :
    Except CompileFault (Table String Tree) × Session :=
  let run := σ.lint.compile profile context
  (run.outcome, σ.record run.messages)

/-- Goes on where a step ended, unless it ended with a fault. -/
def andThen {ε α β : Type} (step : Except ε α × Session)
    (next : α → Session → Except ε β × Session) : Except ε β × Session :=
  match step with
  | (.error e, σ) => (.error e, σ)
  | (.ok a, σ) => next a σ

/-- Compiles a profile under contexts until there is a fault. -/
def compileUnder (σ : Session) (profile : Scalar) : List Tree → Except CompileFault Unit × Session
  | [] => (.ok (), σ)
  | context :: contexts =>
    andThen (σ.compile profile context) fun _ σ => σ.compileUnder profile contexts

/-- Compiles a profile without a context and then under every context, until there is a fault. -/
def compileAll (σ : Session) (profile : Scalar) : Except CompileFault Unit × Session :=
  andThen (σ.compile profile .null) fun _ σ =>
    let (contexts, σ) := σ.contexts
    σ.compileUnder profile (contexts.map .map)

/-- Compiles a profile, and reports the fault if there is one. -/
def validateProfile (σ : Session) (profile : Scalar) : Session :=
  match σ.compileAll profile with
  | (.ok (), σ) => σ
  | (.error e, σ) =>
    σ.record [.error (profile.text ++ ": failed to compile Hiera data: " ++ e.message)]

/-- Compiles every profile. -/
def validate (σ : Session) : Session :=
  match σ.profiles with
  | (none, σ) => σ.record [.note "No profiles found, unable to validate Hiera data"]
  | (some names, σ) => names.foldl validateProfile σ

/-- The files, profiles and messages so far; none if a profile's name is not a text. -/
def report (σ : Session) : Option Lint.Report × Session :=
  let (names, σ) := σ.profiles
  let texts := (names.getD []).mapM Lint.nameText?
  (texts.map fun texts => ⟨Lint.version, σ.lint.files, texts, σ.diagnostics⟩, σ)

/-- **A session over some paths.** -/
def start (d : Disk) (paths : List String) (config : Mapping) : Except LintFault Session := do
  let settings ← Lint.Settings.ofConfig config
  let step := (Store.new settings.dataDirs settings.fileTypes).load d paths
  match step.outcome with
  | .error e => throw (.load e)
  | .ok corpus =>
    let σ : Session := {
      lint := ⟨corpus, settings.knockout⟩
      diagnostics := .ofMessages step.messages }
    if corpus.isEmpty then return σ
    return (σ.record σ.lint.schemaMessages).validate

/-! ## Calls -/

/-- What a session can be asked. -/
inductive Call where
  | compile (profile : Scalar) (context : Tree)
  | validate
  | report
  | profiles
  | contexts

/-- What it answers. -/
inductive Answer where
  | compiled (outcome : Except CompileFault (Table String Tree))
  | validated
  | reported (report : Option Lint.Report)
  | profiles (names : Option (List Scalar))
  | contexts (contexts : List Mapping)

/-- One call. -/
def serve (σ : Session) : Call → Answer × Session
  | .compile profile context =>
    let (outcome, σ) := σ.compile profile context
    (.compiled outcome, σ)
  | .validate => (.validated, σ.validate)
  | .report =>
    let (report, σ) := σ.report
    (.reported report, σ)
  | .profiles =>
    let (names, σ) := σ.profiles
    (.profiles names, σ)
  | .contexts =>
    let (contexts, σ) := σ.contexts
    (.contexts contexts, σ)

/-- The session after calls. -/
def after (σ : Session) (calls : List Call) : Session :=
  calls.foldl (fun σ call => (σ.serve call).2) σ

end Session

end Compliance
