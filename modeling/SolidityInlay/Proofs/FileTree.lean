import SolidityInlay.File.Tree

/-!
# Reading what was written to a file tree

A path leads through directories only, so a change to what is no directory bends no path that led
somewhere before. A file that is written is therefore read back under its path, one that is removed
is not found there, and directories stay.

Main statements: `FileTree.readBytes_write`, `FileTree.readBytes_remove`,
`FileTree.isDirectory_write`, `FileTree.isDirectory_makeDirectories`.
-/

namespace SolidityInlay

@[simp] theorem mapError_ok {α ε ε' : Type} (f : ε → ε') (a : α) :
    (.ok a : Except ε α).mapError f = .ok a := rfl

/-- Naming an error otherwise makes no result of it. -/
theorem eq_ok_of_mapError {α ε ε' : Type} {f : ε → ε'} {result : Except ε α} {a : α}
    (h : result.mapError f = .ok a) : result = .ok a := by
  cases result with
  | error e => cases h
  | ok b =>
    cases h
    rfl

namespace FileTree

variable {t t' : FileTree} {path other : Path} {here place found : Place} {pieces : List Text}
  {content : Bytes}

/-! ## Paths through a changed tree -/

/-- What is put where there was no directory leaves the directories as they are. -/
theorem get?_put_directory (changed : t.get? place ≠ some .directory) (entry : Entry)
    (h : t.get? here = some .directory) : (t.put place entry).get? here = some .directory := by
  have apart : here ≠ place := by
    rintro rfl
    exact changed h
  rw [get?_put_of_ne t entry apart, h]

/-- Pieces that lead somewhere pass directories only. -/
theorem follow_cons {piece : Text} (h : t.follow here (piece :: pieces) = .ok found) :
    t.get? here = some .directory := by
  rw [follow] at h
  split at h
  · cases h
  · cases h
  · assumption

/-- Pieces lead where they led after an entry has been put where no directory is. -/
theorem follow_put (changed : t.get? place ≠ some .directory) (entry : Entry)
    (h : t.follow here pieces = .ok found) :
    (t.put place entry).follow here pieces = .ok found := by
  induction pieces generalizing here with
  | nil => exact h
  | cons piece pieces ih =>
    have passed := follow_cons h
    have kept := get?_put_directory changed entry passed
    rw [follow, passed] at h
    rw [follow, kept]
    grind

theorem placeOf_put (changed : t.get? place ≠ some .directory) (entry : Entry)
    (h : t.placeOf path = .ok found) : (t.put place entry).placeOf path = .ok found := by
  unfold placeOf at h ⊢
  split at h
  · cases h
  · split at h
    · cases h
    · rw [if_neg ‹_›, if_neg ‹_›]
      exact follow_put changed entry h

/-- Everything at or below an erased place is gone. -/
theorem get?_erase_below (root : here ≠ []) (below : place.isPrefixOf here = true) :
    (t.erase place).get? here = none := by
  simp only [get?, erase, List.isEmpty_iff, root, if_false, Option.map_eq_none_iff,
    List.find?_eq_none, List.mem_filter]
  rintro e ⟨_, kept⟩ same
  rw [beq_iff_eq] at same
  simp only [same, below, Bool.not_true, Bool.false_eq_true] at kept

/-- Everything beside an erased place is as it was. -/
theorem get?_erase_beside (beside : place.isPrefixOf here = false) :
    (t.erase place).get? here = t.get? here := by
  have kept : (t.entries.filter fun e => !place.isPrefixOf e.1).find? (fun e => e.1 == here) =
      t.entries.find? fun e => e.1 == here := by
    rw [List.find?_filter]
    congr 1
    funext e
    by_cases same : e.1 = here
    · rw [same, beside]
      simp
    · simp [same]
  simp only [get?, erase, kept]

/-- Erasing takes entries away and changes none. -/
theorem get?_erase_cases (t : FileTree) (place here : Place) :
    (t.erase place).get? here = t.get? here ∨ (t.erase place).get? here = none := by
  by_cases root : here = []
  · exact .inl (by simp [get?, root])
  · cases below : place.isPrefixOf here with
    | true => exact .inr (get?_erase_below root below)
    | false => exact .inl (get?_erase_beside below)

/-- After erasing, pieces lead where they led, or what they passed is gone. -/
theorem follow_erase (place : Place) (h : t.follow here pieces = .ok found) :
    (t.erase place).follow here pieces = .ok found ∨
      (t.erase place).follow here pieces = .error .notFound := by
  induction pieces generalizing here with
  | nil => exact .inl h
  | cons piece pieces ih =>
    have passed := follow_cons h
    rw [follow, passed] at h
    rcases get?_erase_cases t place here with same | gone
    · rw [follow, same, passed]
      grind
    · right
      rw [follow, gone]

/-- After an erasure a path leads where it led, or nowhere. -/
theorem placeOf_erase (place : Place) (h : t.placeOf path = .ok found) :
    (t.erase place).placeOf path = .ok found ∨ (t.erase place).placeOf path = .error .notFound := by
  unfold placeOf at h ⊢
  split at h
  · cases h
  · split at h
    · cases h
    · rw [if_neg ‹_›, if_neg ‹_›]
      exact follow_erase place h

/-! ## Entries at paths -/

/-- A path can be read exactly if it leads to a file. -/
theorem readBytes_eq_ok_iff :
    t.readBytes path = .ok content ↔
      ∃ place, t.placeOf path = .ok place ∧ t.get? place = some (.file content) := by
  simp only [readBytes, entry, bind, Except.bind]
  grind

theorem isDirectory_iff :
    t.isDirectory path = true ↔
      ∃ place, t.placeOf path = .ok place ∧ t.get? place = some .directory := by
  simp only [isDirectory, entry, bind, Except.bind]
  grind

/-- A write that succeeds puts the file where its path leads, and no directory was there. -/
theorem exists_of_write (h : t.write path content = .ok t') :
    ∃ place, t.placeOf path = .ok place ∧ t.get? place ≠ some .directory ∧
      t' = t.put place (.file content) := by
  unfold write at h
  grind

/-- A file that is there can be written. -/
theorem write_of_readBytes {old : Bytes} (h : t.readBytes path = .ok old) (content : Bytes) :
    ∃ t', t.write path content = .ok t' := by
  obtain ⟨place, leads, file⟩ := readBytes_eq_ok_iff.1 h
  exact ⟨_, by simp only [write, leads, file]; rfl⟩

theorem ne_nil_of_get? (h : t.get? place ≠ some .directory) : place ≠ [] := by
  rintro rfl
  exact h rfl

/-- What is written is read. -/
theorem readBytes_write (h : t.write path content = .ok t') : t'.readBytes path = .ok content := by
  obtain ⟨place, leads, changed, rfl⟩ := exists_of_write h
  refine readBytes_eq_ok_iff.2 ⟨place, placeOf_put changed _ leads, ?_⟩
  exact get?_put_same t _ (ne_nil_of_get? changed)

/-- Writing a file leaves every directory. -/
theorem isDirectory_write (h : t.write path content = .ok t') (directory : t.isDirectory other) :
    t'.isDirectory other := by
  obtain ⟨place, _, changed, rfl⟩ := exists_of_write h
  obtain ⟨found, leads, there⟩ := isDirectory_iff.1 directory
  exact isDirectory_iff.2
    ⟨found, placeOf_put changed _ leads, get?_put_directory changed _ there⟩

/-- What is removed is not found. -/
theorem readBytes_remove (h : t.remove path = .ok t') :
    t'.readBytes path = .error .notFound := by
  simp only [remove, bind, Except.bind] at h
  split at h
  · cases h
  · rename_i place leads
    split at h
    · rename_i file
      cases h
      have root : place ≠ [] := ne_nil_of_get? (t := t) (by simp [file])
      have gone : (t.erase place).get? place = none :=
        get?_erase_below root (List.isPrefixOf_iff_prefix.2 (List.prefix_refl place))
      rcases placeOf_erase place leads with same | lost
      · simp [readBytes, entry, bind, Except.bind, same, gone]
      · simp [readBytes, entry, bind, Except.bind, lost]
    · cases h
    · cases h

/-! ## Directories -/

theorem isDirectory_makeDirectory (h : t.makeDirectory path = .ok t') : t'.isDirectory path := by
  simp only [makeDirectory, bind, Except.bind] at h
  split at h
  · cases h
  · rename_i place leads
    split at h
    · cases h
    · rename_i missing _
      cases h
      have changed : t.get? place ≠ some .directory := by simp [missing]
      refine isDirectory_iff.2 ⟨place, placeOf_put changed _ leads, ?_⟩
      exact get?_put_same t _ (ne_nil_of_get? changed)
    · cases h
    · cases h

theorem isDirectory_ensureDirectory (h : t.ensureDirectory path = .ok t') :
    t'.isDirectory path := by
  unfold ensureDirectory at h
  split at h
  · rename_i made
    cases h
    exact isDirectory_makeDirectory made
  · split at h
    · cases h
      assumption
    · cases h

/-- A directory that was made, with those above it, is there. -/
theorem isDirectory_makeDirectories (named : path.text ≠ "")
    (h : t.makeDirectories path = .ok t') : t'.isDirectory path := by
  rw [makeDirectories, makeDirectoriesFrom, if_neg (by simpa using named)] at h
  split at h
  · split at h
    · simp only [bind, Except.bind] at h
      split at h
      · cases h
      · exact isDirectory_ensureDirectory h
    · cases h
  · exact isDirectory_ensureDirectory h

/-- Making a directory that is there changes nothing. -/
theorem makeDirectories_of_isDirectory (h : t.isDirectory path) :
    t.makeDirectories path = .ok t := by
  obtain ⟨place, leads, there⟩ := isDirectory_iff.1 h
  have taken : t.makeDirectory path = .error .alreadyExists := by
    simp [makeDirectory, bind, Except.bind, leads, there]
  have ensured : t.ensureDirectory path = .ok t := by
    simp [ensureDirectory, taken, h]
  simp [makeDirectories, makeDirectoriesFrom, ensured]

end FileTree

end SolidityInlay
