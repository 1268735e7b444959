import Compliance.Proofs.CheckIndex
import Compliance.Proofs.LoggedFacts
import Compliance.Hiera.Compiler

/-! # What a compilation reports

Merging and indexing warn and note, and only a change of kind is an error. Its text begins with the
profile and a blank, so it is never mistaken for the failure of a compilation, whose text goes on
with a colon.

* `Quiet`: no message is an error.
* `quiet_mergeConfined`, `quiet_buildCheckMap`: merging and indexing are quiet.
* `error_of_compile`: how every error of a compilation begins.
-/

namespace Compliance

def Quiet (messages : List Message) : Prop := ∀ m ∈ messages, m.level ≠ .error

theorem quiet_nil : Quiet [] := fun _ h => absurd h List.not_mem_nil

theorem quiet_singleton {m : Message} (h : m.level ≠ .error) : Quiet [m] := fun _ hm => by
  rw [List.mem_singleton.mp hm]
  exact h

theorem quiet_warning (text : String) : Quiet [.warning text] :=
  quiet_singleton Level.noConfusion

theorem quiet_note (text : String) : Quiet [.note text] := quiet_singleton Level.noConfusion

theorem Quiet.append {ms ns : List Message} (hm : Quiet ms) (hn : Quiet ns) : Quiet (ms ++ ns) :=
  fun m h => (List.mem_append.mp h).elim (hm m) (hn m)

/-! ## Merging -/

theorem quiet_shouldDelete (file : String) (key : Scalar) (specification context : Tree) :
    Quiet (shouldDelete file key specification context).2 := by
  unfold shouldDelete
  split
  · exact quiet_nil
  · exact quiet_nil
  · exact quiet_warning _

theorem quiet_applyConfinement (file : String) (section_ context : Tree) :
    Quiet (applyConfinement file section_ context).2 := by
  unfold applyConfinement
  split
  · exact quiet_nil
  · intro m hm
    obtain ⟨j, hj, hm⟩ := List.mem_flatMap.mp hm
    obtain ⟨e, -, rfl⟩ := List.mem_map.mp hj
    exact quiet_shouldDelete _ _ _ _ m hm
  · exact quiet_nil

theorem quiet_redefinition (file label : String) (merged : Mapping) (key : Scalar) (value : Tree) :
    Quiet (redefinition file label merged key value) := by
  unfold redefinition
  split
  · exact quiet_nil
  split
  · exact quiet_nil
  · dsimp only
    split
    · exact quiet_note _
    · exact quiet_warning _

theorem quiet_mergeSectionLogged (knockout : Knockout) (context : Tree) (file : String)
    (merged : Mapping) (key : Scalar) (value : Tree) :
    Quiet (mergeSectionLogged knockout context file merged key value).messages := by
  have hquiet := (quiet_applyConfinement file value context).append
    (quiet_redefinition file (describeContext context) merged key
      (applyConfinement file value context).1)
  unfold mergeSectionLogged
  dsimp only
  split
  · exact hquiet
  · exact hquiet

/-- **Merging a context reports no error.** -/
theorem quiet_mergeConfined (corpus : Corpus) (knockout : Knockout) (context : Tree) :
    Quiet (mergeConfined corpus knockout context).messages := fun m hm => by
  obtain ⟨⟨file, key, value⟩, -, merged, hm⟩ := Logged.mem_fold hm
  exact quiet_mergeSectionLogged knockout context file merged key value m hm

/-! ## Indexing -/

/-- **Indexing the checks reports no error.** -/
theorem quiet_buildCheckMap (checkType : String) (merged : Mapping) (context : Tree) :
    Quiet (buildCheckMap checkType merged context).2 := by
  rw [buildCheckMap_eq]
  intro m hm
  obtain ⟨e, -, hm⟩ := List.mem_flatMap.mp hm
  split at hm
  · cases hm
  · exact quiet_warning _ m hm

/-! ## Resolving -/

theorem error_of_resolveStep {label parameter : String} {previous value : Tree} {m : Message}
    (h : m ∈ (resolveStep label parameter previous value).messages) (he : m.level = .error) :
    label.toList <+: m.text.toList := by
  unfold resolveStep at h
  split at h
  · cases h
  · cases h
  split at h
  · rw [List.mem_singleton.mp h]
    simp only [Message.error, String.toList_append, List.append_assoc]
    exact List.prefix_append _ _
  split at h
  · exact absurd he (quiet_note _ m h)
  · exact absurd he (quiet_note _ m h)
  · dsimp only at h
    split at h
    · exact absurd he (quiet_note _ m h)
    · exact absurd he (quiet_warning _ m h)

theorem error_of_resolve {profile : Scalar} {context : Tree} {settings : List Setting}
    {m : Message} (h : m ∈ (resolve profile context settings).messages) (he : m.level = .error) :
    (profile.text ++ " ").toList <+: m.text.toList := by
  obtain ⟨setting, -, data, hm⟩ := Logged.mem_fold h
  unfold resolveSetting at hm
  split at hm
  · cases hm
  rcases Logged.mem_andThen hm with hstep | ⟨value, -, hdone⟩
  · refine List.IsPrefix.trans ?_ (error_of_resolveStep hstep he)
    rw [String.toList_append (s := profile.text ++ " ")]
    exact List.prefix_append _ _
  · cases hdone

/-- **Every error of a compilation begins with the profile and a blank.** -/
theorem error_of_compile {c : Compiler} {profile : Scalar} {context : Tree} {m : Message}
    (h : m ∈ (c.compile profile context).messages) (he : m.level = .error) :
    (profile.text ++ " ").toList <+: m.text.toList := by
  rcases Logged.mem_andThen h with hmerge | ⟨merged, -, h⟩
  · exact absurd he (quiet_mergeConfined _ _ _ m hmerge)
  rcases Logged.mem_andThen h with hindex | ⟨-, -, h⟩
  · exact absurd he (quiet_buildCheckMap _ _ _ m hindex)
  · split at h
    · exact absurd he (quiet_note _ m h)
    · exact error_of_resolve h he

end Compliance
