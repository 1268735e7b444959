import Compliance.Lint
import Compliance.Proofs.LoadOrder

/-! # What a start tells

* `Store.contains_of_reached`, `Store.missing_of_reached`: whether all paths are there shows in what
  the store reaches, by recursion on the paths.
* `Lint.ofConfig_fault`: a configuration never stands for a missing path.
* `Lint.contains_of_start`, `Lint.missing_of_start`: so it shows in how a run starts.
* `Lint.start_congr`: what a start reads of the configuration.
-/

namespace Compliance

/-! ## Paths that are there -/

namespace Store

variable {s : Store} {d : Disk}

theorem discover_ne_missing (s : Store) (d : Disk) (module : Path) (path : String) :
    s.discover d module ≠ .error (.missing path) := by
  have hgo : ∀ dirs : List Tree, discover.go s d module dirs ≠ .error (.missing path) := by
    intro dirs
    induction dirs with
    | nil => exact fun h => by cases h
    | cons t dirs ih =>
      rw [discover.go.eq_def]
      split
      · rename_i h
        cases h
      · rename_i h
        obtain ⟨-, rfl⟩ := List.cons.inj h
        dsimp only
        split
        · exact fun h => by cases h
        cases hrest : discover.go s d module dirs with
        | error fault =>
          rw [hrest] at ih
          exact fun h => ih (congrArg Except.error (Except.error.inj h))
        | ok files => exact fun h => by cases h
      · exact fun h => by cases h
  exact hgo s.dataDirs

theorem candidates_missing {path missing : String}
    (h : s.candidates d path = .error (.missing missing)) :
    d.contains (Path.ofText path) = false := by
  unfold candidates at h
  unfold Disk.contains
  split at h
  · cases h
  split at h
  · exact absurd h (discover_ne_missing s d _ missing)
  · cases h
  · rename_i fault hfind
    rw [hfind]
    rfl

theorem contains_of_candidates {path : String} {files : List String}
    (h : s.candidates d path = .ok files) : d.contains (Path.ofText path) = true := by
  unfold candidates at h
  unfold Disk.contains
  split at h
  · cases h
  split at h
  · rename_i entries hfind
    rw [hfind]
    rfl
  · rename_i bytes hfind
    rw [hfind]
    rfl
  · cases h

theorem contains_of_reached : ∀ {paths : List String}, (s.reached d paths).2 = none →
    ∀ path ∈ paths, d.contains (Path.ofText path) = true
  | [], _ => fun _ h => absurd h List.not_mem_nil
  | path :: paths, h => by
    rw [reached] at h
    cases hfiles : s.candidates d path with
    | error fault =>
      rw [hfiles] at h
      cases h
    | ok files =>
      rw [hfiles] at h
      exact List.forall_mem_cons.mpr ⟨contains_of_candidates hfiles, contains_of_reached h⟩

theorem missing_of_reached : ∀ {paths : List String} {missing : String},
    (s.reached d paths).2 = some (.missing missing) →
    ∃ path ∈ paths, d.contains (Path.ofText path) = false
  | [], _, h => by cases h
  | path :: paths, missing, h => by
    rw [reached] at h
    cases hfiles : s.candidates d path with
    | error fault =>
      rw [hfiles] at h
      obtain rfl := Option.some.inj h
      exact ⟨path, List.mem_cons_self, candidates_missing hfiles⟩
    | ok files =>
      rw [hfiles] at h
      obtain ⟨later, hlater, haway⟩ := missing_of_reached h
      exact ⟨later, List.mem_cons_of_mem _ hlater, haway⟩

/-- **What has been loaded was there.** -/
theorem contains_of_load {paths : List String} {corpus : Corpus}
    (h : (s.load d paths).outcome = .ok corpus) :
    ∀ path ∈ paths, d.contains (Path.ofText path) = true := by
  refine contains_of_reached (s := s) ?_
  rw [load_outcome] at h
  cases hfault : (s.reached d paths).2 with
  | none => rfl
  | some fault =>
    rw [hfault] at h
    cases hgather : s.gather d [] (s.reached d paths).1 with
    | error e =>
      rw [hgather] at h
      cases h
    | ok documents =>
      rw [hgather] at h
      cases h

end Store

namespace Lint

variable {d : Disk} {paths : List String} {config : Mapping}

theorem contains_of_start {run : Lint × List Message} (h : start d paths config = .ok run) :
    ∀ path ∈ paths, d.contains (Path.ofText path) = true := by
  unfold start at h
  cases hsettings : Settings.ofConfig config with
  | error fault =>
    rw [hsettings] at h
    cases h
  | ok settings =>
    simp only [hsettings, bind, Except.bind] at h
    split at h
    · cases h
    · rename_i corpus hload
      exact Store.contains_of_load hload

theorem error_of_bind {ε α β : Type} {x : Except ε α} {f : α → Except ε β} {e : ε}
    (h : x >>= f = .error e) : x = .error e ∨ ∃ a, x = .ok a ∧ f a = .error e := by
  cases x with
  | error fault => exact .inl (congrArg Except.error (Except.error.inj h))
  | ok a => exact .inr ⟨a, rfl, h⟩

theorem members_fault {t : Tree} {fault : LintFault} (h : members t = .error fault) :
    ∃ type, fault = .setting type := by
  unfold members at h
  split at h
  case h_7 => exact ⟨_, (Except.error.inj h).symm⟩
  all_goals cases h

theorem fileTypesOf_fault {names : List Tree} {fault : LintFault}
    (h : fileTypesOf names = .error fault) : ∃ type, fault = .setting type := by
  induction names with
  | nil => cases h
  | cons t names ih =>
    rw [fileTypesOf.eq_def] at h
    split at h
    case h_1 => cases h
    case h_2 => exact ⟨_, (Except.error.inj h).symm⟩
    case h_3 _ s r heq =>
      obtain ⟨-, rfl⟩ := List.cons.inj heq
      cases hrest : fileTypesOf names with
      | error e =>
        rw [hrest] at h
        exact ih (hrest.trans h)
      | ok types =>
        rw [hrest] at h
        cases h
    case h_4 _ s r heq =>
      obtain ⟨-, rfl⟩ := List.cons.inj heq
      exact ih h
    case h_5 => exact ⟨_, (Except.error.inj h).symm⟩

theorem ofConfig_fault {fault : LintFault} (h : Settings.ofConfig config = .error fault) :
    ∃ type, fault = .setting type := by
  unfold Settings.ofConfig at h
  dsimp only at h
  rcases error_of_bind h with hdirs | ⟨dirs, -, h⟩
  · exact members_fault hdirs
  rcases error_of_bind h with htypes | ⟨names, -, h⟩
  · exact members_fault htypes
  rcases error_of_bind h with hnames | ⟨types, -, h⟩
  · exact fileTypesOf_fault hnames
  · cases h

theorem missing_of_start {missing : String}
    (h : start d paths config = .error (.load (.missing missing))) :
    ∃ path ∈ paths, d.contains (Path.ofText path) = false := by
  unfold start at h
  rcases error_of_bind h with hsettings | ⟨settings, -, h⟩
  · obtain ⟨type, hfault⟩ := ofConfig_fault hsettings
    cases hfault
  · dsimp only at h
    split at h
    · rename_i fault hload
      obtain rfl := LintFault.load.inj (Except.error.inj h)
      exact Store.missing_of_reached (Store.reached_of_missing rfl hload)
    · cases h

/-- **What a run finds** depends on three settings only. -/
theorem start_congr {config' : Mapping}
    (h : ∀ name, name ≠ "output" → Tree.field? config name = Tree.field? config' name) :
    start d paths config = start d paths config' := by
  have hsettings : Settings.ofConfig config = Settings.ofConfig config' := by
    unfold Settings.ofConfig
    dsimp only
    rw [h _ (by decide), h _ (by decide), h _ (by decide)]
  unfold start
  rw [hsettings]

end Lint

end Compliance
