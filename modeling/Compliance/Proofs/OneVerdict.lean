import Compliance.CommandLine.Run
import Compliance.Proofs.Loading
import Compliance.Proofs.MergeInvariant
import Compliance.Proofs.ReportFacts
import Compliance.Proofs.StartedRuns
import Compliance.Proofs.UnionFacts

/-! # One verdict in every format

A run fails by its errors, and by its warnings where the configuration is strict. The exit code, the
counts of a JUnit report and the last line of the text each decide this anew; they agree.

* `Reporting`: what a configuration says about the output and the exit codes.
* `Fails`: the verdict. `Outcome.Exits`, `Outcome.Reports`, `IsLastLine`: where it shows.
* `exitCode_verdict`, `failures_pos`, `presentText_lastLine`: each place by itself.
* `ofOptions_cases`: the two ways in which a run comes to an exit code.
* `same_code`: the code does not depend on the output.
* `ofArgs_oneVerdict`: a run as a whole.
-/

namespace Compliance

namespace CommandLine

/-! ## What a configuration says -/

/-- The integer that a value counts as; a truth value counts as one or zero. -/
def integer? : Tree → Option Int
  | .int n => some n
  | .bool b => some (if b then 1 else 0)
  | _ => none

/-- What a configuration says about the output of a run and its exit codes. -/
structure Reporting where
  format : Tree
  verbose : Tree
  strict : Tree
  ok : Int
  errors : Int
  input : Int

/-- The configuration has an integer for an exit code. -/
def HasCode (config : Mapping) (name : String) (n : Int) : Prop :=
  ∃ code, settingAt (.map config) ["ci", "exit_codes", name] = .ok code ∧ integer? code = some n

/-- The configuration has mappings with all their keys, and says this. -/
structure Reporting.Of (r : Reporting) (config : Mapping) : Prop where
  format : settingAt (.map config) ["output", "format"] = .ok r.format
  verbose : settingAt (.map config) ["output", "verbose"] = .ok r.verbose
  strict : settingAt (.map config) ["ci", "strict"] = .ok r.strict
  ok : HasCode config "ok" r.ok
  errors : HasCode config "errors" r.errors
  input : HasCode config "input" r.input

/-- **A run fails** by an error, or where it is strict by a warning. -/
def Fails (strict : Tree) (found : Diagnostics) : Prop :=
  found.errors ≠ [] ∨ strict.hasContent = true ∧ found.warnings ≠ []

instance (strict : Tree) (found : Diagnostics) : Decidable (Fails strict found) :=
  inferInstanceAs (Decidable (_ ∨ _))

theorem exists_scalar_of_integer? {t : Tree} {n : Int} (h : integer? t = some n) :
    ∃ s : Scalar, t = .scalar s ∧ s.ident = .number n ∧ s.isNaN = false := by
  unfold integer? at h
  split at h
  · obtain rfl := Option.some.inj h
    exact ⟨_, rfl, rfl, rfl⟩
  · rename_i b
    obtain rfl := Option.some.inj h
    exact ⟨_, rfl, by cases b <;> rfl, rfl⟩
  · cases h

theorem equals_of_integer? {t u : Tree} {m n : Int} (ht : integer? t = some m)
    (hu : integer? u = some n) : t.equals u = decide (m = n) := by
  obtain ⟨a, rfl, ha, hnan⟩ := exists_scalar_of_integer? ht
  obtain ⟨b, rfl, hb, -⟩ := exists_scalar_of_integer? hu
  have hsame : (a == b) = decide (m = n) := by
    rw [Bool.eq_iff_iff, Scalar.beq_iff, ha, hb, decide_eq_true_iff, Scalar.Ident.number.injEq]
    exact Rat.intCast_inj
  rw [Tree.equals, Tree.alike, hsame, Tree.isNaN, hnan, Bool.not_false, Bool.and_true]

theorem exitStatus_of_integer? {code : Tree} {n : Int} (h : integer? code = some n) :
    exitStatus code = (n, "") := by
  unfold integer? at h
  split at h
  · exact congrArg (·, "") (Option.some.inj h)
  · exact congrArg (·, "") (Option.some.inj h)
  · cases h

theorem settingAt_concat {t u : Tree} {names : List String} {name : String} :
    settingAt t (names ++ [name]) = .ok u ↔
      ∃ outer, settingAt t names = .ok outer ∧ setting outer name = .ok u := by
  induction names generalizing t with
  | nil =>
    rw [List.nil_append, settingAt]
    cases h : setting t name with
    | error e => simp [settingAt, h, bind, Except.bind]
    | ok v => simp [settingAt, h, bind, Except.bind]
  | cons first names ih =>
    rw [List.cons_append, settingAt, settingAt]
    cases setting t first with
    | error e => simp [bind, Except.bind]
    | ok v => exact ih

/-! ## Where the verdict shows -/

/-- The run ends with an exit status, and prints nothing more for it. -/
def Outcome.Exits (run : Outcome) (n : Int) : Prop :=
  ∃ code, run.ending = .code code ∧ exitStatus code = (n, "")

def Ending.isCrash : Ending → Bool
  | .crash _ => true
  | _ => false

/-- The run tells how many messages count as failures: in the line that it prints, and in the report
that stands in its output file. -/
def Outcome.Reports (run : Outcome) (output : Option String) (failures : Nat) : Prop :=
  let target := Path.ofText ((output.filter fun s => !s.isEmpty).getD Run.junitFile)
  (∃ total : Nat, run.printed = CommandLine.printed ("  JUnit " ++ toString total ++
    " results, " ++ toString failures ++ " failures written to ") target.text) ∧
  ∃ report, run.disk.readBytes target = .ok (Xml.document report).toUTF8 ∧
    Xml.attribute? "failures" report = some (toString failures)

/-- The line is the last one of a text. -/
def IsLastLine (line text : String) : Prop :=
  '\n' ∉ line.toList ∧ ∃ before, text = before ++ "\n" ++ line ++ "\n"

/-- The last line of a run with a verdict: the files that were checked, and what was found. -/
def verdictLine (verdict : String) (files : Nat) (found : Diagnostics) : String :=
  "  " ++ verdict ++ " Checked " ++ toString files ++ " files: " ++ toString found.errors.length
    ++ " errors, " ++ toString found.warnings.length ++ " warnings, "
    ++ toString found.notes.length ++ " notes"

/-! ## Each place by itself -/

/-- **The exit code tells the verdict.** -/
theorem exitCode_verdict {config : Mapping} {r : Reporting} (hr : r.Of config)
    (found : Diagnostics) : ∃ code, exitCode (.map config) found = .ok code ∧
      integer? code = some (if Fails r.strict found then r.errors else r.ok) := by
  obtain ⟨good, hgood, hok⟩ := hr.ok
  obtain ⟨bad, hbad, herrors⟩ := hr.errors
  have hcodes : ∀ {name code}, settingAt (.map config) ["ci", "exit_codes", name] = .ok code →
      ∃ codes, settingAt (.map config) ["ci", "exit_codes"] = .ok codes ∧
        setting codes name = .ok code := fun {name code} h =>
    settingAt_concat.mp (show settingAt _ (["ci", "exit_codes"] ++ [name]) = .ok code from h)
  obtain ⟨codes, hat, hgood⟩ := hcodes hgood
  obtain ⟨_, hsame, hbad⟩ := hcodes hbad
  obtain rfl := Except.ok.inj (hat.symm.trans hsame)
  unfold exitCode
  rw [hat, hr.strict]
  simp only [bind, Except.bind, hgood, hbad]
  by_cases hf : Fails r.strict found
  · refine ⟨bad, ?_, by rw [if_pos hf, herrors]⟩
    rcases hf with herr | ⟨hstrict, hwarn⟩
    · simp [herr]
    · simp [hstrict, hwarn]
  · refine ⟨good, ?_, by rw [if_neg hf, hok]⟩
    obtain ⟨herr, hwarn⟩ := not_or.mp hf
    rw [Classical.not_not.mp herr, List.isEmpty_nil, Bool.not_true, if_neg Bool.false_ne_true]
    exact if_neg fun h => hwarn (by simpa using h)

/-- **The count of failures tells the verdict.** -/
theorem failures_pos (strict : Tree) (found : Diagnostics) :
    0 < JUnit.failures strict.hasContent found ↔ Fails strict found := by
  rw [JUnit.failures_eq, Fails, ← List.length_pos_iff, ← List.length_pos_iff]
  cases strict.hasContent with
  | false => simp
  | true =>
    rw [if_pos rfl, and_iff_right rfl]
    omega

/-! ## The formats -/

/-- A run ends with this code, or by a fault. -/
def Outcome.EndsWith (run : Outcome) (code : Tree) : Prop :=
  run.ending.isCrash = true ∨ run.ending = .code code

namespace Run

theorem presentJson_ends (r : Run) (code : Tree) : (r.presentJson code).EndsWith code := by
  unfold presentJson
  split
  · exact .inl rfl
  · dsimp only
    split
    · exact .inr rfl
    · split
      · exact .inr rfl
      · exact .inl rfl

theorem presentJUnit_ends (r : Run) (code : Tree) : (r.presentJUnit code).EndsWith code := by
  unfold presentJUnit
  split
  · exact .inl rfl
  · dsimp only
    split
    · exact .inl rfl
    · exact .inr rfl

theorem presentText_ends (r : Run) (code : Tree) : (r.presentText code).EndsWith code := by
  unfold presentText
  dsimp only
  split
  · exact .inl rfl
  · split
    · exact .inr rfl
    · split
      · exact .inl rfl
      · exact .inr rfl

/-- **Every format ends with the code that it is given.** -/
theorem present_ends (r : Run) (format code : Tree) : (r.present format code).EndsWith code := by
  unfold present
  split
  · exact presentJson_ends r code
  · split
    · exact presentJUnit_ends r code
    · exact presentText_ends r code

/-- A report that is written has the count of failures in its root and in the line about it. -/
theorem presentJUnit_reports {r : Run} {code strict : Tree}
    (hstrict : settingAt r.config ["ci", "strict"] = .ok strict)
    (hends : (r.presentJUnit code).ending.isCrash = false) :
    (r.presentJUnit code).Reports r.output (JUnit.failures strict.hasContent r.diagnostics) := by
  unfold presentJUnit at hends ⊢
  rw [hstrict] at hends ⊢
  dsimp only at hends ⊢
  split at hends
  · cases hends
  · rename_i disk s hexport
    obtain ⟨rfl, time, hfile⟩ := JUnit.export_ok hexport
    refine ⟨⟨_, rfl⟩, _, hfile, ?_⟩
    cases r.timestamp <;> rfl

/-! ## Text -/

theorem newline_not_mem_toDigits (n : Nat) : '\n' ∉ Nat.toDigits 10 n := fun h =>
  absurd (Nat.isDigit_of_mem_toDigits (by decide) (by decide) h) (by decide)

theorem newline_not_mem_verdictLine {verdict : String} (h : '\n' ∉ verdict.toList) (files : Nat)
    (found : Diagnostics) : '\n' ∉ (verdictLine verdict files found).toList := by
  unfold verdictLine
  simp [h, newline_not_mem_toDigits]

theorem summary_eq (verdict : String) (files : Nat) (found : Diagnostics) :
    summary verdict files found = "\n" ++ verdictLine verdict files found ++ "\n" := by
  unfold summary verdictLine
  simp only [String.append_assoc]
  rfl

/-- **The last line of text** is the verdict by the exit code. -/
theorem presentText_lastLine {r : Run} {code verbose good : Tree}
    (hverbose : settingAt r.config ["output", "verbose"] = .ok verbose)
    (hgood : settingAt r.config ["ci", "exit_codes", "ok"] = .ok good)
    (hfiles : r.lint.files ≠ []) :
    IsLastLine (verdictLine (if code.equals good then "OK" else "FAIL") r.lint.files.length
      r.diagnostics) (r.presentText code).printed := by
  obtain ⟨before, hprinted⟩ : ∃ before, (r.presentText code).printed = before ++
      summary (if code.equals good then "OK" else "FAIL") r.lint.files.length r.diagnostics := by
    unfold presentText
    rw [hverbose, hgood]
    dsimp only
    rw [if_neg (by simpa using hfiles)]
    exact ⟨_, rfl⟩
  refine ⟨newline_not_mem_verdictLine (by split <;> decide) _ _, before, ?_⟩
  rw [hprinted, summary_eq]
  simp only [String.append_assoc]

/-! ## Whole runs -/

/-- **How a run comes to an exit code**: a path is missing, or what has been found is presented. -/
theorem ofOptions_cases {d : Disk} {duration : Scalar} {timestamp : Option String} {o : Options}
    {config : Mapping}
    (hconfig : Config.effective d (Path.ofText ".") o.configPath? (overridesOf o) = .ok config)
    (hends : (ofOptions d duration timestamp o).ending.isCrash = false) :
    (∃ path code, Lint.start d o.places config = .error (.load (.missing path)) ∧
      settingAt (.map config) ["ci", "exit_codes", "input"] = .ok code ∧
      (ofOptions d duration timestamp o).ending = .code code) ∨
    ∃ format lint messages code, settingAt (.map config) ["output", "format"] = .ok format ∧
      Lint.start d o.places config = .ok (lint, messages) ∧
      exitCode (.map config) (.ofMessages messages) = .ok code ∧
      ofOptions d duration timestamp o = present ⟨d, .map config, o.output, lint,
        .ofMessages messages, duration, timestamp⟩ format code ∧
      (ofOptions d duration timestamp o).ending = .code code := by
  unfold ofOptions at hends ⊢
  rw [hconfig] at hends ⊢
  dsimp only at hends ⊢
  cases hformat : settingAt (.map config) ["output", "format"] with
  | error e =>
    rw [hformat] at hends
    cases hends
  | ok format =>
    rw [hformat] at hends
    dsimp only at hends ⊢
    cases hstart : Lint.start d o.places config with
    | error fault =>
      rw [hstart] at hends
      dsimp only at hends ⊢
      unfold loadFailure at hends ⊢
      split at hends
      · cases hends
      · cases hends
      · cases hends
      · cases hends
      · rename_i path
        cases hinput : settingAt (.map config) ["ci", "exit_codes", "input"] with
        | error e =>
          rw [hinput] at hends
          cases hends
        | ok code => exact .inl ⟨path, code, rfl, rfl, rfl⟩
    | ok run =>
      obtain ⟨lint, messages⟩ := run
      rw [hstart] at hends
      dsimp only at hends ⊢
      cases hcode : exitCode (.map config) (.ofMessages messages) with
      | error e =>
        rw [hcode] at hends
        cases hends
      | ok code =>
        rw [hcode] at hends
        dsimp only at hends ⊢
        refine .inr ⟨format, lint, messages, code, rfl, rfl, hcode, rfl, ?_⟩
        exact (present_ends _ format code).resolve_left (by rw [hends]; exact Bool.false_ne_true)

end Run

/-! ## The output changes nothing else -/

theorem get?_overridesOf {o o' : Options} (hstrict : o'.strict = o.strict) {name : String}
    (hname : name ≠ "output") :
    Table.get? (overridesOf o) (.str name) = Table.get? (overridesOf o') (.str name) := by
  have haway : (Scalar.str "output" == .str name) = false :=
    Bool.eq_false_iff.mpr fun h => hname (Scalar.str.inj (beq_str.mp h)).symm
  simp only [overridesOf, Config.fields, Tree.entries, List.map_cons, Table.get?_cons, haway,
    hstrict, Bool.false_eq_true, if_false]

theorem distinct_overridesOf (o : Options) : Table.Distinct (overridesOf o) :=
  List.pairwise_pair.mpr rfl

/-- The configurations of two runs that differ in their output differ there only. -/
theorem field?_effective {d : Disk} {o o' : Options} {config config' : Mapping}
    (hfile : o'.config = o.config) (hstrict : o'.strict = o.strict)
    (h : Config.effective d (Path.ofText ".") o.configPath? (overridesOf o) = .ok config)
    (h' : Config.effective d (Path.ofText ".") o'.configPath? (overridesOf o') = .ok config')
    (name : String) (hname : name ≠ "output") :
    Tree.field? config name = Tree.field? config' name := by
  unfold Config.effective Options.configPath? at h h'
  rw [hfile] at h'
  cases hload : Config.load d (Path.ofText ".")
      ((o.config.filter fun s => !s.isEmpty).map Path.ofText) with
  | error e =>
    rw [hload] at h
    cases h
  | ok loaded =>
    rw [hload] at h h'
    obtain rfl := Except.ok.inj h
    obtain rfl := Except.ok.inj h'
    unfold Tree.field? Config.layered
    rw [get?_deepMerge (distinct_overridesOf o), get?_deepMerge (distinct_overridesOf o'),
      get?_overridesOf hstrict hname]

theorem settingAt_congr {config config' : Mapping} {name : String}
    (h : Tree.field? config name = Tree.field? config' name) (names : List String) :
    settingAt (.map config) (name :: names) = settingAt (.map config') (name :: names) := by
  rw [settingAt, settingAt, setting, setting, h]

theorem exitCode_congr {config config' : Mapping}
    (h : Tree.field? config "ci" = Tree.field? config' "ci") (found : Diagnostics) :
    exitCode (.map config) found = exitCode (.map config') found := by
  unfold exitCode
  rw [settingAt_congr h, settingAt_congr h]

namespace Run

/-- **Two runs that differ in their output end with the same code.** -/
theorem same_code {d : Disk} {duration duration' : Scalar} {timestamp timestamp' : Option String}
    {o o' : Options} {config : Mapping} (hpaths : o'.paths = o.paths)
    (hfile : o'.config = o.config) (hstrict : o'.strict = o.strict)
    (hconfig : Config.effective d (Path.ofText ".") o.configPath? (overridesOf o) = .ok config)
    (hends : (ofOptions d duration timestamp o).ending.isCrash = false)
    (hends' : (ofOptions d duration' timestamp' o').ending.isCrash = false) :
    ∃ code, (ofOptions d duration timestamp o).ending = .code code ∧
      (ofOptions d duration' timestamp' o').ending = .code code := by
  obtain ⟨config', hconfig'⟩ : ∃ config',
      Config.effective d (Path.ofText ".") o'.configPath? (overridesOf o') = .ok config' := by
    cases h : Config.effective d (Path.ofText ".") o'.configPath? (overridesOf o') with
    | ok config' => exact ⟨config', rfl⟩
    | error e =>
      unfold ofOptions at hends'
      rw [h] at hends'
      cases hends'
  have hsame := field?_effective hfile hstrict hconfig hconfig'
  have hci := hsame "ci" (by decide)
  -- both runs start the same, so they come to their codes the same way
  have hplaces : o'.places = o.places := by rw [Options.places, Options.places, hpaths]
  have hstart : Lint.start d o'.places config' = Lint.start d o.places config := by
    rw [hplaces, Lint.start_congr hsame]
  obtain ⟨path, code, hmissing, hcode, hend⟩ |
    ⟨_, lint, messages, code, -, hfound, hcode, -, hend⟩ := ofOptions_cases hconfig hends
  · obtain ⟨_, code', -, hcode', hend'⟩ | ⟨_, _, _, _, -, hfound', -⟩ :=
      ofOptions_cases hconfig' hends'
    · rw [← settingAt_congr hci, hcode] at hcode'
      obtain rfl := Except.ok.inj hcode'
      exact ⟨code, hend, hend'⟩
    · rw [hstart, hmissing] at hfound'
      cases hfound'
  · obtain ⟨_, _, hmissing', -⟩ | ⟨_, _, _, code', -, hfound', hcode', -, hend'⟩ :=
      ofOptions_cases hconfig' hends'
    · rw [hstart, hfound] at hmissing'
      cases hmissing'
    · rw [hstart, hfound] at hfound'
      obtain ⟨-, rfl⟩ := Prod.mk.inj (Except.ok.inj hfound')
      rw [← exitCode_congr hci, hcode] at hcode'
      obtain rfl := Except.ok.inj hcode'
      exact ⟨code, hend, hend'⟩

end Run

/-- A run tells the verdict about what it has found: by its exit status, in the report that it has
written, and at the end of the text that it has printed. -/
structure Outcome.Tells (run : Outcome) (r : Reporting) (output : Option String) (lint : Lint)
    (found : Diagnostics) : Prop where
  exits : run.Exits (if Fails r.strict found then r.errors else r.ok)
  junit : r.format = .str "junit" → ∃ n, run.Reports output n ∧ (0 < n ↔ Fails r.strict found)
  text : r.format ≠ .str "json" → r.format ≠ .str "junit" → lint.files ≠ [] → r.ok ≠ r.errors →
    IsLastLine (verdictLine (if Fails r.strict found then "FAIL" else "OK") lint.files.length found)
      run.printed

namespace Run

theorem present_tells {config : Mapping} {r : Reporting} (hr : r.Of config) {run : Run}
    {code : Tree} (hconfig : run.config = .map config)
    (hcode : exitCode (.map config) run.diagnostics = .ok code)
    (hends : (run.present r.format code).ending.isCrash = false) :
    (run.present r.format code).Tells r run.output run.lint run.diagnostics := by
  obtain ⟨_, hsame, hint⟩ := exitCode_verdict hr run.diagnostics
  obtain rfl := Except.ok.inj (hcode.symm.trans hsame)
  refine ⟨⟨code, ?_, exitStatus_of_integer? hint⟩, fun hformat => ?_,
    fun hjson hjunit hfiles hne => ?_⟩
  · exact (present_ends run r.format code).resolve_left (by rw [hends]; exact Bool.false_ne_true)
  · have hjunit : run.present r.format code = run.presentJUnit code := by
      rw [hformat]
      rfl
    rw [hjunit] at hends ⊢
    exact ⟨_, presentJUnit_reports (hconfig ▸ hr.strict) hends, failures_pos _ _⟩
  · have htext : run.present r.format code = run.presentText code := by
      unfold present
      rw [if_neg (mt equals_str.mp hjson : ¬ r.format.equals (.str Format.json.name) = true),
        if_neg (mt equals_str.mp hjunit : ¬ r.format.equals (.str Format.junit.name) = true)]
    obtain ⟨good, hgood, hok⟩ := hr.ok
    have hlast : IsLastLine _ (run.presentText code).printed :=
      presentText_lastLine (hconfig ▸ hr.verbose) (hconfig ▸ hgood) hfiles
    rw [equals_of_integer? hint hok] at hlast
    rw [htext]
    -- the codes differ, so the code is the good one only if the run does not fail
    by_cases hf : Fails r.strict run.diagnostics
    · simpa [hf, hne.symm] using hlast
    · simpa [hf] using hlast

/-- **One verdict in every format.** A run that is not ended by a fault exits by the verdict about
what it has found, or with the code for a missing path; a JUnit report counts failures, and the last
line of text says so, if the run fails; and the output changes nothing about the code. -/
theorem ofArgs_oneVerdict (d : Disk) (duration : Scalar) (timestamp : Option String)
    {args : List String} {o : Options} {config : Mapping} {r : Reporting}
    (hargs : readRequest (isThere d) args = .ok (.run o))
    (hconfig : Config.effective d (Path.ofText ".") o.configPath? (overridesOf o) = .ok config)
    (hr : r.Of config) (hends : (ofArgs d duration timestamp args).ending.isCrash = false) :
    ((∃ path ∈ o.places, d.contains (Path.ofText path) = false) →
      (ofArgs d duration timestamp args).Exits r.input) ∧
    ((∀ path ∈ o.places, d.contains (Path.ofText path) = true) →
      ∃ lint messages, Lint.start d o.places config = .ok (lint, messages) ∧
        (ofArgs d duration timestamp args).Tells r o.output lint (.ofMessages messages)) ∧
    ∀ (duration' : Scalar) (timestamp' : Option String) (args' : List String) (o' : Options),
      readRequest (isThere d) args' = .ok (.run o') →
      o'.paths = o.paths → o'.config = o.config → o'.strict = o.strict →
      (ofArgs d duration' timestamp' args').ending.isCrash = false →
      ∃ code, (ofArgs d duration timestamp args).ending = .code code ∧
        (ofArgs d duration' timestamp' args').ending = .code code := by
  have hrun : ∀ {duration timestamp args o}, readRequest (isThere d) args = .ok (.run o) →
      ofArgs d duration timestamp args = ofOptions d duration timestamp o := fun h => by
    rw [ofArgs, h]
  rw [hrun hargs] at hends ⊢
  refine ⟨?_, ?_, fun duration' timestamp' args' o' hargs' hpaths hfile hstrict hends' => ?_⟩
  · rintro ⟨path, hpath, haway⟩
    obtain ⟨_, code, -, hcode, hend⟩ | ⟨_, _, _, _, -, hstart, -⟩ := ofOptions_cases hconfig hends
    · obtain ⟨input, hinput, hint⟩ := hr.input
      obtain rfl := Except.ok.inj (hcode.symm.trans hinput)
      exact ⟨code, hend, exitStatus_of_integer? hint⟩
    · rw [Lint.contains_of_start hstart path hpath] at haway
      cases haway
  · intro hpaths
    obtain ⟨_, _, hmissing, -⟩ |
      ⟨format, lint, messages, code, hformat, hstart, hcode, hpresent, -⟩ :=
        ofOptions_cases hconfig hends
    · obtain ⟨path, hpath, haway⟩ := Lint.missing_of_start hmissing
      rw [hpaths path hpath] at haway
      cases haway
    · obtain rfl := Except.ok.inj (hformat.symm.trans hr.format)
      rw [hpresent] at hends ⊢
      exact ⟨lint, messages, hstart, present_tells hr rfl hcode hends⟩
  · rw [hrun hargs'] at hends' ⊢
    exact same_code hpaths hfile hstrict hconfig hends hends'

/-- A document with a key too many. -/
def extraKey : Disk := Disk.oneFile "a.yaml" "version: 2.0.0\nextra: 1\n".toUTF8

def strictly : Options := ⟨["a.yaml"], false, true, none, none, none⟩

def strictReporting : Reporting := ⟨.str "text", .bool false, .bool true, 0, 1, 2⟩

/-- A warning fails a strict run, as text and as a JUnit report. -/
theorem ofArgs_oneVerdict_strict :
    readRequest (isThere extraKey) ["a.yaml", "-s"] = .ok (.run strictly) ∧
    Config.effective extraKey (Path.ofText ".") strictly.configPath? (overridesOf strictly) =
      .ok (Config.layered [] (overridesOf strictly)) ∧
    strictReporting.Of (Config.layered [] (overridesOf strictly)) ∧
    (ofArgs extraKey (.int 0) none ["a.yaml", "-s"]).ending.isCrash = false ∧
    (ofArgs extraKey (.int 0) none ["a.yaml", "-s"]).Exits 1 ∧
    (∃ files found, IsLastLine (verdictLine "FAIL" files found)
      (ofArgs extraKey (.int 0) none ["a.yaml", "-s"]).printed) ∧
    (ofArgs extraKey (.int 0) none ["a.yaml", "-s", "-f", "junit"]).Exits 1 := by
  have hargs : readRequest (isThere extraKey) ["a.yaml", "-s"] = .ok (.run strictly) := rfl
  have hconfig : Config.effective extraKey (Path.ofText ".") strictly.configPath?
      (overridesOf strictly) = .ok (Config.layered [] (overridesOf strictly)) := by
    have hmissing : extraKey.readBytes (strictly.configPath?.getD
        ((Path.ofText ".").join (Path.ofText Config.fileName))) = .error .notFound := by
      rw [Disk.readBytes, if_neg (by decide +kernel)]
      rfl
    rw [Config.effective, Config.load, Config.loadFrom, hmissing]
    rfl
  have hr : strictReporting.Of (Config.layered [] (overridesOf strictly)) :=
    ⟨rfl, rfl, rfl, ⟨.int 0, rfl, rfl⟩, ⟨.int 1, rfl, rfl⟩, ⟨.int 2, rfl, rfl⟩⟩
  have hends : (ofArgs extraKey (.int 0) none ["a.yaml", "-s"]).ending.isCrash = false := by
    decide +kernel
  obtain ⟨-, htells, hsame⟩ := ofArgs_oneVerdict extraKey (.int 0) none hargs hconfig hr hends
  obtain ⟨lint, messages, hstart, hrun⟩ := htells (by decide +kernel)
  have hfound : ((Lint.start extraKey ["a.yaml"] (Config.layered [] (overridesOf strictly))).map
      fun run => run.1.files.isEmpty || (Diagnostics.ofMessages run.2).warnings.isEmpty).toOption =
      some false := by decide +kernel
  have hsome : (lint.files.isEmpty || (Diagnostics.ofMessages messages).warnings.isEmpty) =
      false := by
    rw [show strictly.places = ["a.yaml"] from rfl] at hstart
    rw [hstart] at hfound
    exact Option.some.inj hfound
  obtain ⟨hfiles, hwarnings⟩ := Bool.or_eq_false_iff.mp hsome
  have hfails : Fails strictReporting.strict (.ofMessages messages) := by
    refine .inr ⟨rfl, fun h => ?_⟩
    rw [h] at hwarnings
    cases hwarnings
  have hexits := hrun.exits
  have htext : ∀ s, "text" ≠ s → strictReporting.format ≠ .str s := fun _ hne h =>
    hne (Scalar.str.inj (Tree.scalar.inj h))
  have hlast := hrun.text (htext _ (by decide)) (htext _ (by decide))
    (fun h => by rw [h] at hfiles; cases hfiles) (by decide)
  rw [if_pos hfails] at hexits hlast
  refine ⟨hargs, hconfig, hr, hends, hexits, ⟨_, _, hlast⟩, ?_⟩
  obtain ⟨code, hcode, hcode'⟩ := hsame (.int 0) none ["a.yaml", "-s", "-f", "junit"]
    { strictly with format := some .junit } rfl rfl rfl rfl (by decide +kernel)
  obtain ⟨other, hother, hstatus⟩ := hexits
  obtain rfl := Ending.code.inj (hcode.symm.trans hother)
  exact ⟨code, hcode', hstatus⟩

end Run

end CommandLine

end Compliance
