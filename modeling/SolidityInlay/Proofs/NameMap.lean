import Mathlib.Data.List.Sort
import SolidityInlay.NameMap

/-!
# Laws of maps from names

Looking up after an insertion, the names of a map, and maps built from entries that are sorted
already.
-/

namespace SolidityInlay

variable {α β : Type}

theorem find?_insertSorted_same (name : String) (value : α) (entries : List (String × α)) :
    (insertSorted name value entries).find? (fun e => e.1 == name) = some (name, value) := by
  induction entries with
  | nil => simp [insertSorted]
  | cons head rest ih =>
    rw [insertSorted]
    split
    · simp
    · split
      · simp
      · rename_i _ ne
        rw [List.find?_cons_of_neg (by simpa using Ne.symm ne), ih]

theorem find?_insertSorted_of_ne {name other : String} (h : other ≠ name) (value : α)
    (entries : List (String × α)) :
    (insertSorted name value entries).find? (fun e => e.1 == other) =
      entries.find? (fun e => e.1 == other) := by
  have skip : (name == other) = false := by simpa using Ne.symm h
  induction entries with
  | nil => simp [insertSorted, skip]
  | cons head rest ih =>
    rw [insertSorted]
    split
    · simp [skip]
    · split
      · rename_i _ eq
        have : (head.1 == other) = false := eq ▸ skip
        simp [skip, this]
      · rw [List.find?_cons, List.find?_cons, ih]

/-- A name above all others goes to the end. -/
theorem insertSorted_of_forall_lt {name : String} {value : α} {entries : List (String × α)}
    (h : ∀ e ∈ entries, e.1 < name) :
    insertSorted name value entries = entries ++ [(name, value)] := by
  induction entries with
  | nil => rfl
  | cons head rest ih =>
    have below := h head (by simp)
    rw [insertSorted, if_neg (Std.not_lt.2 (Std.le_of_lt below)), if_neg (Std.ne_of_lt below).symm,
      ih fun e he => h e (by simp [he]), List.cons_append]

/-- Inserting sorted entries one after another keeps them as they are. -/
theorem foldl_insertSorted {entries before : List (String × α)}
    (h : SortedByName (before ++ entries)) :
    entries.foldl (fun sorted e => insertSorted e.1 e.2 sorted) before = before ++ entries := by
  induction entries generalizing before with
  | nil => simp
  | cons e rest ih =>
    have below : ∀ b ∈ before, b.1 < e.1 := fun b hb =>
      (List.pairwise_append.1 h).2.2 b hb e (by simp)
    rw [List.foldl_cons, insertSorted_of_forall_lt below, ih (by simpa using h)]
    simp

theorem sortedByName_iff {entries : List (String × α)} :
    SortedByName entries ↔ (entries.map Prod.fst).Pairwise (· < ·) :=
  List.pairwise_map.symm

namespace NameMap

theorem ext_entries {m n : NameMap α} (h : m.entries = n.entries) : m = n := by
  cases m
  cases n
  simpa using h

@[simp] theorem get?_insert_same (m : NameMap α) (name : String) (value : α) :
    (m.insert name value).get? name = some value := by
  simp [get?, insert, find?_insertSorted_same]

theorem get?_insert_of_ne (m : NameMap α) {name other : String} (h : other ≠ name) (value : α) :
    (m.insert name value).get? other = m.get? other := by
  simp [get?, insert, find?_insertSorted_of_ne h]

@[simp] theorem get?_empty (name : String) : (empty : NameMap α).get? name = none := rfl

theorem pairwise_names (m : NameMap α) : m.names.Pairwise (· < ·) := by
  exact sortedByName_iff.1 m.sorted

theorem mem_names (m : NameMap α) (name : String) : name ∈ m.names ↔ (m.get? name).isSome := by
  simp [names, get?]

/-- The names are the only sorted list of what can be looked up. -/
theorem eq_names {m : NameMap α} {ns : List String} (sorted : ns.Pairwise (· < ·))
    (h : ∀ n, n ∈ ns ↔ (m.get? n).isSome) : ns = m.names :=
  sorted.eq_of_mem_iff m.pairwise_names fun n => by rw [h, mem_names]

theorem foldl_insert (entries : List (String × α)) (m : NameMap α) :
    (entries.foldl (fun m (e : String × α) => m.insert e.1 e.2) m).entries =
      entries.foldl (fun sorted e => insertSorted e.1 e.2 sorted) m.entries := by
  induction entries generalizing m with
  | nil => rfl
  | cons e rest ih =>
    rw [List.foldl_cons, List.foldl_cons, ih]
    rfl

/-- A map is built again from its entries. -/
theorem ofList_entries (m : NameMap α) : ofList m.entries = m := by
  apply ext_entries
  rw [ofList, foldl_insert]
  exact foldl_insertSorted m.sorted

end NameMap

end SolidityInlay
