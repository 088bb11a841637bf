/-!
# Maps from names

Entries sorted by name, each name once, so that equal maps have equal entries and listing them needs
no sorting.

Main definitions: `NameMap`, `NameMap.insert`, `NameMap.get?`, `NameMap.ofList`.
-/

namespace SolidityInlay

/-- Puts an entry into sorted entries; an entry of the same name is replaced. -/
def insertSorted {α : Type} (name : String) (value : α) :
    List (String × α) → List (String × α)
  | [] => [(name, value)]
  | (k, v) :: rest =>
    if name < k then (name, value) :: (k, v) :: rest
    else if name = k then (name, value) :: rest
    else (k, v) :: insertSorted name value rest

/-- Entries in strictly increasing order of their names. -/
def SortedByName {α : Type} (entries : List (String × α)) : Prop :=
  entries.Pairwise fun a b => a.1 < b.1

theorem mem_insertSorted {α : Type} {name : String} {value : α} {e : String × α}
    {entries : List (String × α)} (h : e ∈ insertSorted name value entries) :
    e = (name, value) ∨ e ∈ entries := by
  induction entries with
  | nil => simpa [insertSorted] using h
  | cons head rest ih =>
    rw [insertSorted] at h
    split at h
    · simpa using h
    · split at h
      · simp only [List.mem_cons] at h
        exact h.imp_right (by simp [·])
      · simp only [List.mem_cons] at h
        rcases h with rfl | h
        · simp
        · exact (ih h).imp_right (by simp [·])

theorem sortedByName_insertSorted {α : Type} (name : String) (value : α)
    {entries : List (String × α)} (h : SortedByName entries) :
    SortedByName (insertSorted name value entries) := by
  induction entries with
  | nil => simp [insertSorted, SortedByName]
  | cons head rest ih =>
    obtain ⟨below, tail⟩ := List.pairwise_cons.1 h
    rw [insertSorted]
    split
    · rename_i lt
      refine List.pairwise_cons.2 ⟨fun e he => ?_, h⟩
      rcases List.mem_cons.1 he with rfl | he
      · exact lt
      · exact String.lt_trans lt (below e he)
    · rename_i notLt
      split
      · rename_i eq
        exact List.pairwise_cons.2 ⟨fun e he => eq ▸ below e he, tail⟩
      · rename_i ne
        refine List.pairwise_cons.2 ⟨fun e he => ?_, ih tail⟩
        rcases mem_insertSorted he with rfl | he
        · exact (Std.lt_trichotomy _ _).resolve_left notLt |>.resolve_left ne
        · exact below e he

structure NameMap (α : Type) where
  entries : List (String × α)
  sorted : SortedByName entries
deriving Repr

namespace NameMap

variable {α β : Type}

def empty : NameMap α := ⟨[], List.Pairwise.nil⟩

instance : Inhabited (NameMap α) := ⟨empty⟩

def insert (m : NameMap α) (name : String) (value : α) : NameMap α :=
  ⟨insertSorted name value m.entries, sortedByName_insertSorted name value m.sorted⟩

/-- The map with these entries; the last of equal names is kept. -/
def ofList (entries : List (String × α)) : NameMap α :=
  entries.foldl (fun m (name, value) => m.insert name value) empty

def get? (m : NameMap α) (name : String) : Option α :=
  (m.entries.find? fun e => e.1 == name).map Prod.snd

def contains (m : NameMap α) (name : String) : Bool := (m.get? name).isSome

def names (m : NameMap α) : List String := m.entries.map Prod.fst

def isEmpty (m : NameMap α) : Bool := m.entries.isEmpty

def size (m : NameMap α) : Nat := m.entries.length

def mapWithName (f : String → α → β) (m : NameMap α) : NameMap β where
  entries := m.entries.map fun e => (e.1, f e.1 e.2)
  sorted := by simpa [SortedByName, List.pairwise_map] using m.sorted

end NameMap

end SolidityInlay
