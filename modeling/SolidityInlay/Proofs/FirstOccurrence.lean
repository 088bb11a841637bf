import SolidityInlay.Proofs.Duplicates

/-!
# The first declaration of a name wins

A set of declarations keeps the first declaration of each name, in order, and one duplicate for each
later one that disagrees with the first. Nothing else is lost but repetitions of what was kept. What
further declarations add comes behind what is there, and a set of declarations that are kept already
is built again without change.

Main definitions: `DeclarationSet.firstOccurrences`, `DeclarationSet.KeepsFirst`. Main statement:
`DeclarationSet.keepsFirst_build`.
-/

namespace SolidityInlay.DeclarationSet

def isNew (before : List Declaration) (name : String) : Bool := before.all fun e => e.name != name

/-- The declarations whose name is new where they stand, in order. -/
def firstOccurrences (ds : List Declaration) : List Declaration :=
  (ds.zipIdx.filter fun p => isNew (ds.take p.2) p.1.name).map Prod.fst

/-- The set has the first declaration of each name, and of the others each that disagrees with the
first as a duplicate. -/
structure KeepsFirst (ds : List Declaration) (set : DeclarationSet) : Prop where
  entries : set.entries = firstOccurrences ds
  sublist : set.entries.Sublist ds
  distinct : (set.entries.map Declaration.name).Nodup
  get : ∀ name, set.get? name = ds.find? fun d => d.name == name
  duplicates : set.duplicates = ds.filterMap (duplicate? ds)
  /-- A declaration agrees with what is kept of its name, or is a duplicate of that. -/
  covered : ∀ d ∈ ds, ∃ first ∈ set.entries, first.name = d.name ∧
    (first.signature = d.signature ∨ ⟨d.name, first.origin, d.origin⟩ ∈ set.duplicates)
  distinctNames : set.duplicateNames.Nodup
  duplicateNames : ∀ name, name ∈ set.duplicateNames ↔
    ∃ d ∈ ds, ∃ e ∈ ds, d.name = name ∧ e.name = name ∧ d.signature ≠ e.signature

/-! ## What is kept -/

theorem isNew_iff {ds : List Declaration} {name : String} :
    isNew ds name = true ↔ ∀ e ∈ ds, e.name ≠ name := by
  simp [isNew]

theorem isNew_eq_isNone_find? (ds : List Declaration) (name : String) :
    isNew ds name = (ds.find? fun d => d.name == name).isNone := by
  rw [Bool.eq_iff_iff, isNew_iff]
  simp

/-- A declaration at the end is a first occurrence exactly if its name is new. -/
theorem firstOccurrences_concat (ds : List Declaration) (d : Declaration) :
    firstOccurrences (ds ++ [d]) =
      firstOccurrences ds ++ if isNew ds d.name then [d] else [] := by
  -- what stands before a declaration is the same in the longer list
  have before : ∀ p ∈ ds.zipIdx, (ds ++ [d]).take p.2 = ds.take p.2 := by
    intro p hp
    exact List.take_append_of_le_length (List.snd_lt_of_mem_zipIdx hp).le
  have front : ds.zipIdx.filter (fun p => isNew ((ds ++ [d]).take p.2) p.1.name) =
      ds.zipIdx.filter fun p => isNew (ds.take p.2) p.1.name :=
    List.filter_congr fun p hp => by rw [before p hp]
  rw [firstOccurrences, firstOccurrences, List.zipIdx_append, List.filter_append, front,
    List.map_append]
  by_cases new : isNew ds d.name <;> simp [new]

/-- The entries of a set are the first occurrences, in order. -/
theorem entries_build (ds : List Declaration) : (build ds).entries = firstOccurrences ds := by
  induction ds using List.reverseRecOn with
  | nil => rfl
  | append_singleton ds d ih =>
    rw [build_concat, firstOccurrences_concat, ← ih, add, get?_build, isNew_eq_isNone_find?]
    cases ds.find? (fun e => e.name == d.name) with
    | none => simp
    | some first =>
      by_cases same : first.signature = d.signature <;> simp [same]

theorem firstOccurrences_sublist (ds : List Declaration) : (firstOccurrences ds).Sublist ds := by
  have kept := (List.filter_sublist (l := ds.zipIdx)
    (p := fun p => isNew (ds.take p.2) p.1.name)).map Prod.fst
  rwa [List.zipIdx_map_fst] at kept

/-- First occurrences have different names. -/
theorem nodup_firstOccurrences (ds : List Declaration) :
    ((firstOccurrences ds).map Declaration.name).Nodup := by
  induction ds using List.reverseRecOn with
  | nil => exact List.nodup_nil
  | append_singleton ds d ih =>
    -- what is kept is declared, so a new name is not among the names kept
    have absent (new : isNew ds d.name = true) :
        d.name ∉ (firstOccurrences ds).map Declaration.name := by
      intro mem
      obtain ⟨e, kept, same⟩ := List.mem_map.1 mem
      exact isNew_iff.1 new e ((firstOccurrences_sublist ds).subset kept) same
    rw [firstOccurrences_concat]
    split
    · rename_i new
      rw [List.map_append, List.map_singleton, ← List.concat_eq_append]
      exact (List.nodup_concat _ _).2 ⟨absent new, ih⟩
    · simpa using ih

/-! ## Steps -/

/-- A further declaration adds behind what is there. -/
theorem prefix_add (set : DeclarationSet) (d : Declaration) :
    set.entries <+: (set.add d).entries ∧ set.duplicates <+: (set.add d).duplicates := by
  unfold add
  split
  · exact ⟨List.prefix_append _ _, List.prefix_rfl⟩
  · split
    · exact ⟨List.prefix_rfl, List.prefix_rfl⟩
    · exact ⟨List.prefix_rfl, List.prefix_append _ _⟩

/-- Adding declarations only appends, to the entries and to the duplicates. -/
theorem prefix_build (xs ys : List Declaration) :
    (build xs).entries <+: (build (xs ++ ys)).entries ∧
      (build xs).duplicates <+: (build (xs ++ ys)).duplicates := by
  induction ys using List.reverseRecOn with
  | nil => simp
  | append_singleton ys d ih =>
    obtain ⟨entries, duplicates⟩ := prefix_add (build (xs ++ ys)) d
    rw [← List.append_assoc, build_concat]
    exact ⟨ih.1.trans entries, ih.2.trans duplicates⟩

/-- Declarations of different names are all kept. -/
theorem build_of_nodup {ds : List Declaration} (h : (ds.map Declaration.name).Nodup) :
    build ds = ⟨ds, []⟩ := by
  induction ds using List.reverseRecOn with
  | nil => rfl
  | append_singleton ds d ih =>
    rw [List.map_append, List.map_singleton, ← List.concat_eq_append, List.nodup_concat] at h
    have new : ds.find? (fun e => e.name == d.name) = none := by
      rw [List.find?_eq_none]
      intro e he
      have : e.name ∈ ds.map Declaration.name := List.mem_map_of_mem he
      grind
    rw [build_concat, add, get?_build, new, ih h.2]

/-! ## Duplicate names -/

theorem duplicateNames_concat (es : List Declaration) (ds : List Duplicate) (d : Duplicate) :
    duplicateNames ⟨es, ds ++ [d]⟩ =
      duplicateNames ⟨es, ds⟩ ++ if d.name ∈ duplicateNames ⟨es, ds⟩ then [] else [d.name] := by
  simp only [duplicateNames, List.foldl_append, List.foldl_cons, List.foldl_nil,
    List.contains_iff_mem]
  split <;> simp

theorem nodup_duplicateNames (set : DeclarationSet) : set.duplicateNames.Nodup := by
  obtain ⟨es, ds⟩ := set
  induction ds using List.reverseRecOn with
  | nil => exact List.nodup_nil
  | append_singleton ds d ih =>
    rw [duplicateNames_concat]
    split
    · simpa using ih
    · rename_i new
      rw [← List.concat_eq_append]
      exact (List.nodup_concat _ _).2 ⟨new, ih⟩

theorem mem_duplicateNames {set : DeclarationSet} {name : String} :
    name ∈ set.duplicateNames ↔ ∃ d ∈ set.duplicates, d.name = name := by
  obtain ⟨es, ds⟩ := set
  induction ds using List.reverseRecOn with
  | nil => simp [duplicateNames]
  | append_singleton ds d ih =>
    rw [duplicateNames_concat, List.mem_append, ih]
    simp only [List.mem_append, List.mem_singleton, or_and_right, exists_or, exists_eq_left]
    split <;> grind

/-- A declaration is a duplicate exactly if its interface is not that of the first of its name. -/
theorem duplicate?_eq_some_iff {ds : List Declaration} {d : Declaration} {dup : Duplicate} :
    duplicate? ds d = some dup ↔ ∃ first, ds.find? (fun e => e.name == d.name) = some first ∧
      first.signature ≠ d.signature ∧ dup = ⟨d.name, first.origin, d.origin⟩ := by
  simp only [duplicate?, Option.bind_eq_some_iff]
  grind

/-- There is a first declaration of the name of every declaration. -/
theorem exists_find? {ds : List Declaration} {d : Declaration} (h : d ∈ ds) :
    ∃ first, ds.find? (fun e => e.name == d.name) = some first ∧ first.name = d.name := by
  have found : (ds.find? fun e => e.name == d.name).isSome := by
    simpa using ⟨d, h, rfl⟩
  obtain ⟨first, first?⟩ := Option.isSome_iff_exists.1 found
  exact ⟨first, first?, by simpa using List.find?_some first?⟩

/-- A name has duplicates if and only if it is declared with two interfaces. -/
theorem mem_duplicateNames_build {ds : List Declaration} {name : String} :
    name ∈ (build ds).duplicateNames ↔
      ∃ d ∈ ds, ∃ e ∈ ds, d.name = name ∧ e.name = name ∧ d.signature ≠ e.signature := by
  simp only [mem_duplicateNames, duplicates_build, List.mem_filterMap, duplicate?_eq_some_iff]
  constructor
  · rintro ⟨_, ⟨d, hd, first, found, differs, rfl⟩, rfl⟩
    have named : first.name = d.name := by simpa using List.find?_some found
    exact ⟨first, List.mem_of_find?_eq_some found, d, hd, named, rfl, differs⟩
  · rintro ⟨d, hd, e, he, rfl, same, differs⟩
    obtain ⟨first, found, -⟩ := exists_find? hd
    -- one of two signatures that differ is not that of the first
    by_cases agrees : first.signature = d.signature
    · refine ⟨_, ⟨e, he, first, same ▸ found, fun eq => differs (agrees.symm.trans eq), rfl⟩, same⟩
    · exact ⟨_, ⟨d, hd, first, found, agrees, rfl⟩, rfl⟩

/-- No declaration is lost: an entry has its name and interface, or it is told as a duplicate. -/
theorem exists_entry_of_mem {ds : List Declaration} {d : Declaration} (h : d ∈ ds) :
    ∃ first ∈ (build ds).entries, first.name = d.name ∧ (first.signature = d.signature ∨
      ⟨d.name, first.origin, d.origin⟩ ∈ (build ds).duplicates) := by
  obtain ⟨first, found, named⟩ := exists_find? h
  have kept : (build ds).get? d.name = some first := by rw [get?_build, found]
  refine ⟨first, List.mem_of_find?_eq_some kept, named, ?_⟩
  by_cases agrees : first.signature = d.signature
  · exact .inl agrees
  · right
    rw [duplicates_build, List.mem_filterMap]
    exact ⟨d, h, duplicate?_eq_some_iff.2 ⟨first, found, agrees, rfl⟩⟩

/-! ## Sets of declarations -/

/-- The first declaration of a name wins and nothing is lost. More declarations only add to the
lists, and what was kept is kept again. -/
theorem keepsFirst_build (ds : List Declaration) :
    KeepsFirst ds (build ds) ∧
    (∀ more, (build ds).entries <+: (build (ds ++ more)).entries ∧
      (build ds).duplicates <+: (build (ds ++ more)).duplicates) ∧
    build (build ds).entries = ⟨(build ds).entries, []⟩ := by
  have distinct : ((build ds).entries.map Declaration.name).Nodup := by
    rw [entries_build]
    exact nodup_firstOccurrences ds
  refine ⟨?_, prefix_build ds, build_of_nodup distinct⟩
  exact {
    entries := entries_build ds
    sublist := entries_build ds ▸ firstOccurrences_sublist ds
    distinct := distinct
    get := get?_build ds
    duplicates := duplicates_build ds
    covered := fun d hd => exists_entry_of_mem hd
    distinctNames := nodup_duplicateNames _
    duplicateNames := fun name => mem_duplicateNames_build }

end SolidityInlay.DeclarationSet
