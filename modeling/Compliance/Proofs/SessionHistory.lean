import Compliance.Proofs.Loading
import Compliance.Proofs.LoggedFacts
import Compliance.Proofs.Reach
import Compliance.Session

/-! # Calls on a session do not depend on the calls before them

A session keeps what it has looked up, and its messages are shared by all calls. Neither shows:
every call answers, and reports, as if it were the first.

* `Faithful`: what is kept is what would be looked up again.
* `Reports`: a step that keeps a session faithful, and what it reports.
* `serve_faithful`, `after_faithful`: one call, and a run of calls.
* `profileMessages_done`, `profileMessages_cut`: the block of a profile in a validation.
* `validate_section`, `validate_noSection`: the blocks are those of the merged section, in order.
* `start_agrees`: a session starts as a run does.
* `Steady`, `start_steady`: all of this for every session that starts.
-/

namespace Compliance

/-! ## What the documents alone answer -/

namespace Lint

/-- The contexts of a validation: none, then every context. -/
def passes (l : Lint) : List Tree := .null :: l.contexts.map .map

def answer (l : Lint) (reported : Diagnostics) : Session.Call → Session.Answer
  | .compile profile context => .compiled (l.compile profile context).outcome
  | .validate => .validated
  | .report => .reported (l.report? reported)
  | .profiles => .profiles l.profiles
  | .contexts => .contexts l.contexts

def reports (l : Lint) : Session.Call → List Message
  | .compile profile context => (l.compile profile context).messages
  | .validate => l.validate
  | .report | .profiles | .contexts => []

/-- One compilation of a validation, without its result. -/
def pass (l : Lint) (profile : Scalar) (context : Tree) : Logged CompileFault Unit :=
  (l.compile profile context).andThen fun _ => .done ()

theorem pass_andThen {α : Type} (l : Lint) (profile : Scalar) (context : Tree)
    (next : Unit → Logged CompileFault α) : (l.pass profile context).andThen next =
      (l.compile profile context).andThen fun _ => next () := by
  unfold pass Logged.andThen
  cases (l.compile profile context).outcome with
  | error fault => rfl
  | ok data => simp [Logged.done]

theorem pass_messages (l : Lint) (profile : Scalar) (context : Tree) :
    (l.pass profile context).messages = (l.compile profile context).messages := by
  unfold pass Logged.andThen
  cases (l.compile profile context).outcome with
  | error fault => rfl
  | ok data => simp [Logged.done]

theorem pass_ok {l : Lint} {profile : Scalar} {context : Tree}
    (h : ∃ data, (l.compile profile context).outcome = .ok data) :
    (l.pass profile context).outcome = .ok () := by
  obtain ⟨data, hdata⟩ := h
  exact Logged.andThen_ok.mpr ⟨data, hdata, rfl⟩

theorem pass_error {l : Lint} {profile : Scalar} {context : Tree} {fault : CompileFault}
    (h : (l.compile profile context).outcome = .error fault) :
    (l.pass profile context).outcome = .error fault := by
  unfold pass Logged.andThen
  rw [h]

theorem profileMessages_eq_match (l : Lint) (profile : Scalar) : l.profileMessages profile =
    match (l.compileAll profile).outcome with
    | .ok () => (l.compileAll profile).messages
    | .error e => (l.compileAll profile).messages ++
        [.error (profile.text ++ ": failed to compile Hiera data: " ++ e.message)] := rfl

/-- **The block of a profile that compiles**: the messages of its compilations, in order. -/
theorem profileMessages_done {l : Lint} {profile : Scalar}
    (h : ∀ context ∈ l.passes, ∃ data, (l.compile profile context).outcome = .ok data) :
    l.profileMessages profile =
      l.passes.flatMap fun context => (l.compile profile context).messages := by
  have hrun : l.compileAll profile =
      ⟨l.passes.flatMap fun context => (l.pass profile context).messages, .ok ()⟩ :=
    Logged.each_done fun context hc => pass_ok (h context hc)
  rw [profileMessages_eq_match, hrun]
  simp only [pass_messages]

/-- **The block of a profile that does not**: it ends with the first fault, as one error. -/
theorem profileMessages_cut {l : Lint} {profile : Scalar} {before after : List Tree}
    {context : Tree} {fault : CompileFault} (hpasses : l.passes = before ++ context :: after)
    (hbefore : ∀ other ∈ before, ∃ data, (l.compile profile other).outcome = .ok data)
    (h : (l.compile profile context).outcome = .error fault) :
    l.profileMessages profile =
      (before.flatMap fun other => (l.compile profile other).messages) ++
        (l.compile profile context).messages ++
        [.error (profile.text ++ ": failed to compile Hiera data: " ++ fault.message)] := by
  have hrun : Logged.each (before ++ context :: after) (l.pass profile) =
      ⟨(before.flatMap fun other => (l.pass profile other).messages) ++
        (l.pass profile context).messages, .error fault⟩ :=
    Logged.each_cut (fun other hm => pass_ok (hbefore other hm)) (pass_error h)
  rw [← hpasses] at hrun
  have hall : l.compileAll profile = _ := hrun
  rw [profileMessages_eq_match, hall]
  simp only [pass_messages]

/-- The run has documents, and the profiles of their merged view are these. -/
def HasSection (l : Lint) (entries : Mapping) : Prop :=
  l.corpus.isEmpty = false ∧ Tree.field? l.corpus.merged "profiles" = some (.map entries)

theorem profiles_eq_some {l : Lint} {names : List Scalar} :
    l.profiles = some names ↔ ∃ entries, l.HasSection entries ∧ names = entries.map (·.1) := by
  unfold profiles merged? HasSection
  cases hempty : l.corpus.isEmpty with
  | true => simp
  | false =>
    rw [if_neg Bool.false_ne_true, Option.bind_some, Option.map_eq_some_iff]
    constructor
    · rintro ⟨entries, hsection, rfl⟩
      exact ⟨entries, ⟨rfl, Tree.mapField?_eq_some.mp hsection⟩, rfl⟩
    · rintro ⟨entries, ⟨-, hsection⟩, rfl⟩
      exact ⟨entries, Tree.mapField?_eq_some.mpr hsection, rfl⟩

/-- **A validation has the blocks of the merged profiles**, in their order. -/
theorem validate_section {l : Lint} {entries : Mapping} (h : l.HasSection entries) :
    l.validate = entries.flatMap fun e => l.profileMessages e.1 := by
  have hnames : l.profiles = some (entries.map (·.1)) := profiles_eq_some.mpr ⟨entries, h, rfl⟩
  unfold validate
  rw [hnames]
  exact List.flatMap_map (·.1) l.profileMessages entries

theorem validate_noSection {l : Lint} (h : ∀ entries, ¬ l.HasSection entries) :
    l.validate = [.note "No profiles found, unable to validate Hiera data"] := by
  unfold validate
  cases hnames : l.profiles with
  | none => rfl
  | some names =>
    obtain ⟨entries, hsection, -⟩ := profiles_eq_some.mp hnames
    exact absurd hsection (h entries)

end Lint

namespace Session

variable {l : Lint} {σ σ' σ'' : Session} {ms ns : List Message}

/-! ## Faithful sessions -/

/-- **A session keeps what would be looked up again.** -/
structure Faithful (l : Lint) (σ : Session) : Prop where
  lint : σ.lint = l
  profiles : ∀ names, σ.keptProfiles = some names → l.profiles = some names
  contexts : ∀ contexts, σ.keptContexts = some contexts → contexts = l.contexts

/-- A step that ends faithful and reports messages. -/
structure Reports (l : Lint) (σ : Session) (ms : List Message) (σ' : Session) : Prop where
  faithful : Faithful l σ'
  diagnostics : σ'.diagnostics = σ.diagnostics.addAll ms

theorem Faithful.silent (h : Faithful l σ) : Reports l σ [] σ := ⟨h, rfl⟩

theorem Faithful.record (h : Faithful l σ) (ms : List Message) : Reports l σ ms (σ.record ms) :=
  ⟨⟨h.lint, h.profiles, h.contexts⟩, rfl⟩

theorem Reports.trans (h : Reports l σ ms σ') (h' : Reports l σ' ns σ'') :
    Reports l σ (ms ++ ns) σ'' := by
  refine ⟨h'.faithful, ?_⟩
  rw [h'.diagnostics, h.diagnostics, Diagnostics.addAll_append]

/-! ## Steps -/

theorem profiles_faithful (h : Faithful l σ) :
    σ.profiles.1 = l.profiles ∧ Reports l σ [] σ.profiles.2 := by
  unfold profiles
  split
  · rename_i names hkept
    exact ⟨(h.profiles names hkept).symm, h.silent⟩
  rename_i hkept
  split
  · rename_i hnone
    exact ⟨h.lint ▸ hnone.symm, h.silent⟩
  · rename_i names hsome
    have hnames : l.profiles = some names := h.lint ▸ hsome
    refine ⟨hnames.symm, ⟨h.lint, ?_, h.contexts⟩, rfl⟩
    rintro _ ⟨⟩
    exact hnames

theorem contexts_faithful (h : Faithful l σ) :
    σ.contexts.1 = l.contexts ∧ Reports l σ [] σ.contexts.2 := by
  unfold contexts
  split
  · rename_i contexts hkept
    exact ⟨h.contexts contexts hkept, h.silent⟩
  · refine ⟨h.lint ▸ rfl, ⟨h.lint, h.profiles, ?_⟩, rfl⟩
    rintro _ ⟨⟩
    exact h.lint ▸ rfl

section
variable {ε α β : Type}

/-- A step that ends and reports as the documents alone say. -/
structure Follows (l : Lint) (σ : Session) (run : Logged ε α) (step : Except ε α × Session) :
    Prop where
  outcome : step.1 = run.outcome
  reports : Reports l σ run.messages step.2

theorem Follows.andThen {run : Logged ε α} {step : Except ε α × Session}
    {f : α → Logged ε β} {next : α → Session → Except ε β × Session}
    (h : Follows l σ run step)
    (hnext : ∀ a σ', Faithful l σ' → Follows l σ' (f a) (next a σ')) :
    Follows l σ (run.andThen f) (andThen step next) := by
  obtain ⟨outcome, σ'⟩ := step
  obtain ⟨hout, hreports⟩ := h
  dsimp only at hout hreports
  unfold Logged.andThen Session.andThen
  rw [← hout]
  cases outcome with
  | error e => exact ⟨rfl, hreports⟩
  | ok a =>
    have hrest := hnext a σ' hreports.faithful
    exact ⟨hrest.outcome, hreports.trans hrest.reports⟩

end

theorem compile_faithful (h : Faithful l σ) (profile : Scalar) (context : Tree) :
    Follows l σ (l.compile profile context) (σ.compile profile context) := by
  unfold compile
  rw [h.lint]
  exact ⟨rfl, h.record _⟩

theorem compileUnder_faithful (profile : Scalar) : ∀ (contexts : List Tree) {σ : Session},
    Faithful l σ →
    Follows l σ (Logged.each contexts (l.pass profile)) (σ.compileUnder profile contexts)
  | [], σ, h => ⟨rfl, h.silent⟩
  | context :: contexts, σ, h => by
    rw [compileUnder, Logged.each, Lint.pass_andThen]
    exact (compile_faithful h profile context).andThen fun _ σ' h' =>
      compileUnder_faithful profile contexts h'

theorem compileAll_faithful (h : Faithful l σ) (profile : Scalar) :
    Follows l σ (l.compileAll profile) (σ.compileAll profile) := by
  have hpasses : l.compileAll profile = (l.compile profile .null).andThen fun _ =>
      Logged.each (l.contexts.map .map) (l.pass profile) :=
    Lint.pass_andThen l profile .null _
  rw [hpasses, compileAll]
  -- the contexts are looked up only now, after the compilation without one
  refine (compile_faithful h profile .null).andThen fun _ σ' h' => ?_
  obtain ⟨hcontexts, hlooked⟩ := contexts_faithful h'
  generalize σ'.contexts = found at hcontexts hlooked
  obtain ⟨contexts, σ''⟩ := found
  obtain rfl : contexts = l.contexts := hcontexts
  have hrest := compileUnder_faithful profile (l.contexts.map .map) hlooked.faithful
  exact ⟨hrest.outcome, hlooked.trans hrest.reports⟩

theorem validateProfile_faithful (h : Faithful l σ) (profile : Scalar) :
    Reports l σ (l.profileMessages profile) (σ.validateProfile profile) := by
  obtain ⟨hout, hreports⟩ := compileAll_faithful h profile
  rw [Lint.profileMessages_eq_match, ← hout]
  unfold validateProfile
  generalize σ.compileAll profile = step at hreports
  obtain ⟨outcome, σ'⟩ := step
  cases outcome with
  | error fault => exact hreports.trans (hreports.faithful.record _)
  | ok u => exact hreports

theorem validateProfiles_faithful (names : List Scalar) : ∀ {σ : Session}, Faithful l σ →
    Reports l σ (names.flatMap l.profileMessages) (names.foldl validateProfile σ) := by
  induction names with
  | nil => exact fun h => h.silent
  | cons profile names ih =>
    intro σ h
    have hfirst := validateProfile_faithful h profile
    exact hfirst.trans (ih hfirst.faithful)

theorem validate_faithful (h : Faithful l σ) : Reports l σ l.validate σ.validate := by
  obtain ⟨hnames, hlooked⟩ := profiles_faithful h
  unfold validate Lint.validate
  rw [← hnames]
  generalize σ.profiles = found at hlooked
  obtain ⟨names, σ'⟩ := found
  cases names with
  | none => exact hlooked.trans (hlooked.faithful.record _)
  | some names => exact hlooked.trans (validateProfiles_faithful names hlooked.faithful)

theorem report_faithful (h : Faithful l σ) :
    σ.report.1 = l.report? σ.diagnostics ∧ Reports l σ [] σ.report.2 := by
  obtain ⟨hnames, hlooked⟩ := profiles_faithful h
  unfold report Lint.report?
  rw [← hnames]
  generalize σ.profiles = found at hlooked
  obtain ⟨names, σ'⟩ := found
  have hsame : σ'.diagnostics = σ.diagnostics := hlooked.diagnostics
  have hlint : σ'.lint = l := hlooked.faithful.lint
  refine ⟨?_, hlooked⟩
  dsimp only
  rw [hlint, hsame]
  cases (names.getD []).mapM Lint.nameText? <;> rfl

/-! ## Calls -/

/-- **One call** answers and reports as the documents alone say, and keeps the session faithful. -/
theorem serve_faithful (h : Faithful l σ) (call : Call) :
    (σ.serve call).1 = l.answer σ.diagnostics call ∧
      Reports l σ (l.reports call) (σ.serve call).2 := by
  cases call with
  | compile profile context =>
    obtain ⟨hout, hreports⟩ := compile_faithful h profile context
    exact ⟨congrArg Answer.compiled hout, hreports⟩
  | validate => exact ⟨rfl, validate_faithful h⟩
  | report =>
    obtain ⟨hreport, hreports⟩ := report_faithful h
    exact ⟨congrArg Answer.reported hreport, hreports⟩
  | profiles =>
    obtain ⟨hnames, hreports⟩ := profiles_faithful h
    exact ⟨congrArg Answer.profiles hnames, hreports⟩
  | contexts =>
    obtain ⟨hcontexts, hreports⟩ := contexts_faithful h
    exact ⟨congrArg Answer.contexts hcontexts, hreports⟩

theorem after_faithful (calls : List Call) : ∀ {σ : Session}, Faithful l σ →
    Reports l σ (calls.flatMap l.reports) (σ.after calls) := by
  induction calls with
  | nil => exact fun h => h.silent
  | cons call calls ih =>
    intro σ h
    have hfirst := (serve_faithful h call).2
    exact hfirst.trans (ih hfirst.faithful)

/-! ## Sessions that start -/

/-- The reports of a construction, once the documents are loaded. -/
theorem construct_faithful (h : Faithful l σ) : Reports l σ l.messages
    (if l.corpus.isEmpty then σ else (σ.record l.schemaMessages).validate) := by
  unfold Lint.messages
  split
  · exact h.silent
  · have hschema := h.record l.schemaMessages
    exact hschema.trans (validate_faithful hschema.faithful)

/-- The run is about what its paths give under its configuration, and this is what loading them
reports. -/
structure Loads (d : Disk) (paths : List String) (settings : Lint.Settings) (l : Lint)
    (loaded : List Message) : Prop where
  corpus : ((Store.new settings.dataDirs settings.fileTypes).load d paths).outcome = .ok l.corpus
  messages : ((Store.new settings.dataDirs settings.fileTypes).load d paths).messages = loaded
  knockout : l.knockout = settings.knockout

/-- **A session starts as a run does**, and ends at the same faults. Its messages are those of the
run: what loading reports, then what there is to report about the documents. -/
theorem start_agrees (d : Disk) (paths : List String) (config : Mapping) :
    (∃ fault, start d paths config = .error fault ∧ Lint.start d paths config = .error fault) ∨
      ∃ σ settings loaded, start d paths config = .ok σ ∧
        Lint.start d paths config = .ok (σ.lint, loaded ++ σ.lint.messages) ∧
        Lint.Settings.ofConfig config = .ok settings ∧ Loads d paths settings σ.lint loaded ∧
        Faithful σ.lint σ ∧ σ.diagnostics = .ofMessages (loaded ++ σ.lint.messages) := by
  unfold start Lint.start
  cases Lint.Settings.ofConfig config with
  | error fault => exact .inl ⟨fault, rfl, rfl⟩
  | ok settings =>
    simp only [bind, Except.bind]
    generalize hstep : (Store.new settings.dataDirs settings.fileTypes).load d paths = step
    cases houtcome : step.outcome with
    | error fault => exact .inl ⟨.load fault, rfl, rfl⟩
    | ok corpus =>
      let fresh : Session :=
        { lint := ⟨corpus, settings.knockout⟩, diagnostics := .ofMessages step.messages }
      have hfresh : Faithful fresh.lint fresh := by
        refine ⟨rfl, ?_, ?_⟩
        · rintro names ⟨⟩
        · rintro contexts ⟨⟩
      obtain ⟨hfaithful, hdiagnostics⟩ := construct_faithful hfresh
      refine .inr ⟨_, settings, step.messages, (apply_ite Except.ok _ _ _).symm, ?_⟩
      rw [hfaithful.lint]
      refine ⟨rfl, rfl, ⟨hstep ▸ houtcome, hstep ▸ rfl, rfl⟩, hfaithful, ?_⟩
      rw [hdiagnostics]
      exact (Diagnostics.addAll_append {} step.messages fresh.lint.messages).symm

/-- The answer without the messages of a report. -/
def Answer.silent : Answer → Answer
  | .reported report => .reported (report.map fun report => { report with diagnostics := {} })
  | answer => answer

theorem silent_answer (l : Lint) (reported reported' : Diagnostics) (call : Call) :
    (l.answer reported call).silent = (l.answer reported' call).silent := by
  cases call with
  | report =>
    unfold Lint.answer Lint.report? Answer.silent
    cases (l.profiles.getD []).mapM Lint.nameText? <;> rfl
  | _ => rfl

theorem diagnostics_of_report? {reported : Diagnostics} {report : Lint.Report}
    (h : l.report? reported = some report) : report.diagnostics = reported := by
  unfold Lint.report? at h
  cases hnames : (l.profiles.getD []).mapM Lint.nameText? with
  | none =>
    rw [hnames] at h
    cases h
  | some names =>
    rw [hnames] at h
    obtain rfl := Option.some.inj h
    rfl

theorem after_append (σ : Session) (calls more : List Call) :
    σ.after (calls ++ more) = (σ.after calls).after more := by
  unfold after
  rw [List.foldl_append]

/-- **Calls on a session do not depend on the calls before them.** -/
structure Steady (σ₀ : Session) : Prop where
  /-- A call gives what it would have given at first, the messages in a report apart. -/
  answers : ∀ calls call, ((σ₀.after calls).serve call).1.silent = (σ₀.serve call).1.silent
  /-- In a report stand all messages so far. -/
  reported : ∀ calls report, ((σ₀.after calls).serve .report).1 = .reported (some report) →
    report.diagnostics = (σ₀.after calls).diagnostics
  /-- A call adds the messages that it would have added at first. -/
  adds : ∀ calls call, ((σ₀.after calls).serve call).2.diagnostics =
    (σ₀.after calls).diagnostics.addAll (σ₀.lint.reports call)
  /-- Messages stay as they are and where they are. -/
  keeps : ∀ calls more level, (σ₀.after calls).diagnostics.atLevel level <+:
    (σ₀.after (calls ++ more)).diagnostics.atLevel level
  /-- The last messages of the construction are those of a validation. -/
  constructed : σ₀.lint.corpus.isEmpty = false → ∃ earlier,
    σ₀.diagnostics = (Diagnostics.ofMessages earlier).addAll (σ₀.lint.reports .validate)
  /-- A validation adds the blocks of the profiles of the merged view, in their order there. -/
  blocks : ∀ entries, σ₀.lint.corpus.isEmpty = false →
    Tree.field? σ₀.lint.corpus.merged "profiles" = some (.map entries) →
    σ₀.lint.reports .validate = entries.flatMap fun e => σ₀.lint.profileMessages e.1
  /-- It adds one note if there are no documents, or their merged view has no such mapping. -/
  noProfiles : (σ₀.lint.corpus.isEmpty = true ∨
      ∀ entries, Tree.field? σ₀.lint.corpus.merged "profiles" ≠ some (.map entries)) →
    σ₀.lint.reports .validate = [.note "No profiles found, unable to validate Hiera data"]
  /-- A profile is compiled without a context, and under those of the merged confine clauses. -/
  passes : σ₀.lint.corpus.isEmpty = false → σ₀.lint.passes =
    .null :: (expandConfines (collectConfines (.map σ₀.lint.corpus.merged))).map .map
  /-- A block has the messages of all compilations, without a context and under each, in order. -/
  done : ∀ profile,
    (∀ context ∈ σ₀.lint.passes, ∃ data, (σ₀.lint.compile profile context).outcome = .ok data) →
    σ₀.lint.profileMessages profile =
      σ₀.lint.passes.flatMap fun context => (σ₀.lint.compile profile context).messages
  /-- It is cut at the first fault, which adds one error. -/
  cut : ∀ profile before context after fault, σ₀.lint.passes = before ++ context :: after →
    (∀ other ∈ before, ∃ data, (σ₀.lint.compile profile other).outcome = .ok data) →
    (σ₀.lint.compile profile context).outcome = .error fault →
    σ₀.lint.profileMessages profile =
      (before.flatMap fun other => (σ₀.lint.compile profile other).messages) ++
        (σ₀.lint.compile profile context).messages ++
        [.error (profile.text ++ ": failed to compile Hiera data: " ++ fault.message)]

/-- **Every session that starts is steady**, and it is about what its paths give. -/
theorem start_steady (d : Disk) (paths : List String) (config : Mapping) (σ₀ : Session)
    (h : start d paths config = .ok σ₀) :
    (∃ settings loaded, Lint.Settings.ofConfig config = .ok settings ∧
      Loads d paths settings σ₀.lint loaded) ∧ Steady σ₀ := by
  obtain ⟨fault, hfault, -⟩ |
      ⟨σ, settings, loaded, hstart, -, hsettings, hloads, hfaithful, hdiagnostics⟩ :=
    start_agrees d paths config
  · cases hfault.symm.trans h
  have hsame : σ = σ₀ := Except.ok.inj (hstart.symm.trans h)
  subst σ
  refine ⟨⟨settings, loaded, hsettings, hloads⟩, ?_⟩
  have hafter : ∀ calls, Reports σ₀.lint σ₀ (calls.flatMap σ₀.lint.reports) (σ₀.after calls) :=
    fun calls => after_faithful calls hfaithful
  have hserve : ∀ calls call,
      ((σ₀.after calls).serve call).1 = σ₀.lint.answer (σ₀.after calls).diagnostics call ∧
        Reports σ₀.lint (σ₀.after calls) (σ₀.lint.reports call) ((σ₀.after calls).serve call).2 :=
    fun calls call => serve_faithful (hafter calls).faithful call
  exact {
    answers := by
      intro calls call
      rw [(hserve calls call).1, (serve_faithful hfaithful call).1]
      exact silent_answer _ _ _ call
    reported := by
      intro calls report hreport
      rw [(hserve calls .report).1] at hreport
      exact diagnostics_of_report? (Answer.reported.inj hreport)
    adds := fun calls call => (hserve calls call).2.diagnostics
    keeps := by
      intro calls more level
      have hmore := after_faithful more (hafter calls).faithful
      rw [after_append, hmore.diagnostics, Diagnostics.atLevel_addAll]
      exact List.prefix_append _ _
    constructed := by
      intro hfull
      refine ⟨loaded ++ σ₀.lint.schemaMessages, ?_⟩
      rw [hdiagnostics, Lint.messages, hfull, Diagnostics.ofMessages, Diagnostics.ofMessages,
        ← Diagnostics.addAll_append, List.append_assoc]
      rfl
    blocks := fun entries hfull hsection => Lint.validate_section ⟨hfull, hsection⟩
    noProfiles := by
      intro hnone
      refine Lint.validate_noSection fun entries ⟨hfull, hsection⟩ => ?_
      rcases hnone with hempty | hnone
      · rw [hempty] at hfull
        cases hfull
      · exact hnone entries hsection
    passes := by
      intro hfull
      unfold Lint.passes Lint.contexts Lint.merged?
      rw [hfull]
      rfl
    done := fun profile => Lint.profileMessages_done
    cut := fun profile before context after fault => Lint.profileMessages_cut }

/-- Two profiles, and a check that is confined to one system. -/
def confinedText : String := "".intercalate [
  "\x7b\"profiles\": \x7b\"base\": \x7b\"checks\": \x7b\"c\": true\x7d\x7d, ",
  "\"bare\": \x7b\"ces\": [\"x\"]\x7d\x7d, \"checks\": \x7b\"c\": \x7b",
  "\"type\": \"puppet-class-parameter\", ",
  "\"settings\": \x7b\"parameter\": \"p\", \"value\": 1\x7d, ",
  "\"confine\": \x7b\"os\": \"RedHat\"\x7d\x7d\x7d\x7d"]

def confinedDisk : Disk := Disk.oneFile "base.json" confinedText.toUTF8

/-- A marker of bytes cannot be held against the texts of a list. -/
def bytesMarker : Mapping := [(.str "knockout_prefix", .foreign (.bytes [0x2D, 0x2D]))]

/-- The session starts, and every validation has these passes and adds these messages. -/
def Validates (d : Disk) (paths : List String) (config : Mapping) (passes : List String)
    (ms : List Message) : Prop :=
  ∃ σ₀, start d paths config = .ok σ₀ ∧ Steady σ₀ ∧ σ₀.lint.passes.map describeContext = passes ∧
    ∀ calls, ((σ₀.after calls).serve .validate).2.diagnostics =
      (σ₀.after calls).diagnostics.addAll ms

/-- The passes and the messages of a run's validation. -/
def validation (started : Except LintFault (Lint × List Message)) :
    Option (List String × List Message) :=
  started.toOption.map fun run => (run.1.passes.map describeContext, run.1.validate)

/-- A profile has its messages without a context and under the one that there is. A marker of bytes
cuts every block at its first compilation, and leaves the next block alone. -/
theorem start_steady_confined :
    Validates confinedDisk ["base.json"] []
      ["(no confinement data)", "(confined: \x7bos: \"RedHat\"\x7d)"] [
      .note "bare (no confinement data): No Hiera values found",
      .note "bare (confined: \x7bos: \"RedHat\"\x7d): No Hiera values found"] ∧
    Validates confinedDisk ["base.json"] bytesMarker
      ["(no confinement data)", "(confined: \x7bos: \"RedHat\"\x7d)"] [
      .error ("base: failed to compile Hiera data: " ++
        "startswith first arg must be str or a tuple of str, not bytes"),
      .error ("bare: failed to compile Hiera data: " ++
        "startswith first arg must be str or a tuple of str, not bytes")] := by
  have hvalidates : ∀ config passes ms,
      validation (Lint.start confinedDisk ["base.json"] config) = some (passes, ms) →
      Validates confinedDisk ["base.json"] config passes ms := by
    intro config passes ms hv
    unfold validation at hv
    obtain ⟨fault, -, hrun⟩ | ⟨σ₀, _, _, hstart, hrun, -⟩ :=
      start_agrees confinedDisk ["base.json"] config
    · rw [hrun] at hv
      cases hv
    · rw [hrun] at hv
      obtain ⟨rfl, rfl⟩ := Prod.mk.inj (Option.some.inj hv)
      have hsteady : Steady σ₀ := (start_steady _ _ _ _ hstart).2
      exact ⟨σ₀, hstart, hsteady, rfl, fun calls => hsteady.adds calls .validate⟩
  exact ⟨hvalidates _ _ _ (by decide +kernel), hvalidates _ _ _ (by decide +kernel)⟩

end Session

end Compliance
