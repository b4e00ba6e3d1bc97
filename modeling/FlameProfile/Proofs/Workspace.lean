import Mathlib
import FlameProfile.Workspace

/-!
# Files that last

A path leads to the same place as long as the directories on the way stay. A file that is
written is what its path leads to from then on, and a file elsewhere stays as it was.
Directories are created only where nothing stands, so that creating them leaves every file
where it was.
-/

namespace FlameProfile

/-- A path is one name, and not one that leads to where it is or back. -/
def Path.IsPlain (path : String) : Prop :=
  names path = [path] ∧ stays path = false ∧ path ≠ ".."

instance : DecidablePred Path.IsPlain := fun path =>
  inferInstanceAs (Decidable (Path.names path = [path] ∧ Path.stays path = false ∧ path ≠ ".."))

namespace Workspace

/-- Every directory of a workspace is a directory of another one. -/
def KeepsDirectories (first second : Workspace) : Prop :=
  ∀ place, first.find? place = some .directory → second.find? place = some .directory

/-- All that stands in a workspace stands in another one. -/
def Extends (first second : Workspace) : Prop :=
  ∀ place entry, first.find? place = some entry → second.find? place = some entry

variable {first second third workspace written : Workspace}

/-- A workspace has all that it has. -/
theorem extends_self (workspace : Workspace) : workspace.Extends workspace :=
  fun _ _ stands => stands

/-- What one workspace adds to another is added to all that the other had. -/
theorem Extends.trans
    (former : first.Extends second)
    (latter : second.Extends third) :
    first.Extends third :=
  fun place entry stands => latter place entry (former place entry stands)

/-- Where everything stays, directories do. -/
theorem Extends.keepsDirectories
    (grows : first.Extends second) :
    first.KeepsDirectories second :=
  fun place stands => grows place .directory stands

/-! ## Where paths lead -/

/-- Names lead to the same place where the directories on the way stay. -/
theorem walk_of_keepsDirectories
    (keeps : first.KeepsDirectories second)
    {place found : Place}
    {names : List String}
    (walked : first.walk place names = .ok found) :
    second.walk place names = .ok found := by
  induction names generalizing place with
  | nil => exact walked
  | cons name rest inductionHypothesis =>
      rw [walk] at walked
      split at walked
      next => cases walked
      next => cases walked
      next directory =>
        rw [walk, keeps place directory]
        exact inductionHypothesis walked

/-- A path leads where it led as long as the directories stay. -/
theorem locate_of_keepsDirectories
    (keeps : first.KeepsDirectories second)
    {names : List String}
    {place : Place}
    (located : first.locate names = .ok place) :
    second.locate names = .ok place :=
  walk_of_keepsDirectories keeps located

/-- A path that is read leads to a file. -/
theorem read_eq_ok_iff
    {path : String}
    {content : ByteArray} :
    workspace.read path = .ok content ↔
      path ≠ "" ∧ ∃ place,
        workspace.locate (Path.names path) = .ok place ∧
        workspace.find? place = some (.file content) := by
  rw [read, lookup]
  by_cases empty : path = ""
  · simp [empty]
  · rw [if_neg empty]
    cases located : workspace.locate (Path.names path) with
    | error fault => simp
    | ok place =>
        cases stands : workspace.find? place with
        | none => simp [stands]
        | some entry => cases entry <;> simp [stands, empty]

/-- A file that stays in its place is read as before. -/
theorem read_of_find?
    (keeps : first.KeepsDirectories second)
    {path : String}
    {content : ByteArray}
    (isRead : first.read path = .ok content)
    (stays : ∀ place, first.locate (Path.names path) = .ok place →
      second.find? place = first.find? place) :
    second.read path = .ok content := by
  obtain ⟨nonempty, place, located, stands⟩ := read_eq_ok_iff.mp isRead
  exact read_eq_ok_iff.mpr ⟨nonempty, place, locate_of_keepsDirectories keeps located,
    (stays place located).trans stands⟩

/-- A file is read as before where everything stays. -/
theorem Extends.read
    (grows : first.Extends second)
    {path : String}
    {content : ByteArray}
    (isRead : first.read path = .ok content) :
    second.read path = .ok content := by
  obtain ⟨nonempty, place, located, stands⟩ := read_eq_ok_iff.mp isRead
  exact read_eq_ok_iff.mpr ⟨nonempty, place,
    locate_of_keepsDirectories grows.keepsDirectories located, grows place _ stands⟩

/-! ## Files that are written -/

/-- What is put where no directory stands stands there. -/
theorem find?_put_of_not_directory
    {place : Place}
    (notDirectory : workspace.find? place ≠ some .directory)
    (entry : Entry) :
    (workspace.put place entry).find? place = some entry := by
  have inside : ¬ (place = ["/"] ∨ place.all (fun name => name = "..") = true) := by
    intro outside
    exact notDirectory (by rw [find?, if_pos outside])
  obtain ⟨notRoot, notAbove⟩ := not_or.mp inside
  exact find?_put_same workspace entry notRoot (Bool.eq_false_iff.mpr notAbove)

/-- An entry that takes the place of no directory leaves all of them. -/
theorem keepsDirectories_put
    {place : Place}
    (notDirectory : workspace.find? place ≠ some .directory)
    (entry : Entry) :
    workspace.KeepsDirectories (workspace.put place entry) := by
  intro other stands
  by_cases same : other = place
  · exact absurd (same ▸ stands) notDirectory
  · rwa [find?_put_other workspace entry same]

/-- A file is written at the place that its path leads to, where no directory stands. -/
theorem exists_of_write_eq_ok
    {path : String}
    {content : ByteArray}
    (isWritten : workspace.write path content = .ok written) :
    path ≠ "" ∧ ∃ place,
      workspace.locate (Path.names path) = .ok place ∧
      workspace.find? place ≠ some .directory ∧
      written = workspace.put place (.file content) := by
  rw [write] at isWritten
  split at isWritten
  next => cases isWritten
  next nonempty =>
    simp only at isWritten
    split at isWritten
    next => cases isWritten
    next place located =>
      split at isWritten
      next => cases isWritten
      next notDirectory =>
        split at isWritten
        next whole =>
          rw [whole] at located
          exact ⟨nonempty, place, located, notDirectory, (Except.ok.inj isWritten).symm⟩
        next => cases isWritten

/-- Writing a file removes no directory. -/
theorem keepsDirectories_of_write
    {path : String}
    {content : ByteArray}
    (isWritten : workspace.write path content = .ok written) :
    workspace.KeepsDirectories written := by
  obtain ⟨-, place, -, notDirectory, rfl⟩ := exists_of_write_eq_ok isWritten
  exact keepsDirectories_put notDirectory _

/-- What is written is read back. -/
theorem read_of_write
    {path : String}
    {content : ByteArray}
    (isWritten : workspace.write path content = .ok written) :
    written.read path = .ok content := by
  have keeps := keepsDirectories_of_write isWritten
  obtain ⟨nonempty, place, located, notDirectory, rfl⟩ := exists_of_write_eq_ok isWritten
  exact read_eq_ok_iff.mpr ⟨nonempty, place, locate_of_keepsDirectories keeps located,
    find?_put_of_not_directory notDirectory _⟩

/-- A file at another place is not written to. -/
theorem read_other_of_write
    {path other : String}
    {content old : ByteArray}
    (isWritten : workspace.write path content = .ok written)
    (isRead : workspace.read other = .ok old)
    (apart : written.locate (Path.names path) ≠ written.locate (Path.names other)) :
    written.read other = .ok old := by
  have keeps := keepsDirectories_of_write isWritten
  obtain ⟨-, place, located, notDirectory, rfl⟩ := exists_of_write_eq_ok isWritten
  refine read_of_find? keeps isRead fun otherPlace otherLocated => ?_
  apply find?_put_other
  rintro rfl
  exact apart ((locate_of_keepsDirectories keeps located).trans
    (locate_of_keepsDirectories keeps otherLocated).symm)

/-! ## Plain file names -/

/-- A plain name leads into the working directory. -/
theorem locate_plain
    (workspace : Workspace)
    {path : String}
    (plain : Path.IsPlain path) :
    workspace.locate (Path.names path) = .ok [path] := by
  obtain ⟨names, moves, forward⟩ := plain
  have named : path ≠ "" := by
    rintro rfl
    exact absurd moves (by decide)
  have begins : Path.start [path] = ([], [path]) := by
    unfold Path.start
    split
    next same => exact absurd (List.cons.inj same).1 named
    next => rfl
  have step : Path.step [] path = [path] := by
    rw [Path.step, moves, if_neg Bool.false_ne_true, if_neg forward, List.nil_append]
  have here : workspace.find? [] = some .directory := by simp [find?]
  rw [locate, names, begins, walk, here]
  simp only [step, walk]

/-- A file with a plain name is written wherever no directory has the name. -/
theorem write_plain
    {path : String}
    (plain : Path.IsPlain path)
    (free : workspace.find? [path] ≠ some .directory)
    (content : ByteArray) :
    workspace.write path content = .ok (workspace.put [path] (.file content)) := by
  have named : path ≠ "" := by
    rintro rfl
    exact absurd plain.2.1 (by decide)
  have located := workspace.locate_plain plain
  have whole : ([path].reverse.dropWhile fun name => name = "").reverse = [path] := by
    simp [named]
  rw [plain.1] at located
  rw [write, if_neg named, plain.1]
  simp only [whole, located, if_true]

/-- A file that is put somewhere is no directory. -/
theorem find?_put_file_ne_directory
    {place other : Place}
    {content : ByteArray}
    (free : workspace.find? other ≠ some .directory) :
    (workspace.put place (.file content)).find? other ≠ some .directory := by
  by_cases same : other = place
  · rw [same, find?_put_of_not_directory (same ▸ free)]
    simp
  · rwa [find?_put_other workspace _ same]

/-! ## Directories that are created -/

/-- An entry at a vacant place leaves all others. -/
theorem extends_put
    {place : Place}
    (vacant : workspace.find? place = none)
    (entry : Entry) :
    workspace.Extends (workspace.put place entry) := by
  intro other old stands
  by_cases same : other = place
  · rw [same, vacant] at stands
    cases stands
  · rwa [find?_put_other workspace entry same]

/-- Creating a directory leaves all that there was. -/
theorem extends_of_createDirectory
    {names : List String}
    (created : workspace.createDirectory names = .ok written) :
    workspace.Extends written := by
  rw [createDirectory] at created
  split at created
  next => cases created
  next place located =>
    split at created
    next => cases created
    next vacant => exact Except.ok.inj created ▸ extends_put vacant _

/-- To make sure of a directory leaves all that there was. -/
theorem extends_of_ensureDirectory
    {names : List String}
    (ensured : workspace.ensureDirectory names = .ok written) :
    workspace.Extends written := by
  rw [ensureDirectory] at ensured
  split at ensured
  next created => exact Except.ok.inj ensured ▸ extends_of_createDirectory created
  next =>
    split at ensured
    next => exact Except.ok.inj ensured ▸ extends_self workspace
    next => cases ensured

/-- Creating directories leaves all that stands, even where it fails. -/
theorem extends_createDirectories
    (workspace : Workspace)
    (names : List String) :
    workspace.Extends (workspace.createDirectories names).2 := by
  induction names with
  | nil => exact extends_self workspace
  | cons name outer inductionHypothesis =>
      rw [createDirectories]
      split
      next => exact inductionHypothesis
      next =>
        split
        next ensured => exact extends_of_ensureDirectory ensured
        next =>
          split
          next surrounded => simpa only [surrounded] using inductionHypothesis
          next extended surrounded =>
            have grows : workspace.Extends extended := by
              simpa only [surrounded] using inductionHypothesis
            split
            next ensured => exact grows.trans (extends_of_ensureDirectory ensured)
            next => exact grows
        next => exact extends_self workspace

end Workspace
end FlameProfile
