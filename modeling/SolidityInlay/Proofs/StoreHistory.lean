import Mathlib.Data.List.Dedup
import SolidityInlay.Proofs.Cache
import SolidityInlay.Proofs.FileTree
import SolidityInlay.Store.File

/-!
# The store is a map

A store behaves as a map from builds and keys to units, kept in a file. Whatever is put, cleared
and reopened, looking up gives the unit put last since the store was cleared, and the number of rows
is the number of builds and keys put since.

Main definitions: `StoreOperation`, `StoreReply`, `OpenStore`, `StoreOperation.replies`. Main
statements: `Store.decode?_encode`, `OpenStore.run_eq_replies`.
-/

namespace SolidityInlay

/-! ## The file -/

theorem length_flatMap_insertSorted_le {α : Type} (write : String × α → Bytes) (name : String)
    (value : α) (entries : List (String × α)) :
    ((insertSorted name value entries).flatMap write).length ≤
      (entries.flatMap write).length + (write (name, value)).length := by
  induction entries with
  | nil => simp [insertSorted]
  | cons head rest ih =>
    obtain ⟨k, v⟩ := head
    unfold insertSorted
    split_ifs <;> simp only [List.flatMap_cons, List.length_append] at ih ⊢ <;> omega

namespace Store

def rowSize (name : String) (bytes : Bytes) : Nat :=
  ((Codec.string.pair Codec.bytes).write (name, bytes)).length

theorem lawful_rowsCodec : rowsCodec.Lawful fun _ => True :=
  (Codec.lawful_string.pair Codec.lawful_bytes).list.mono fun _ _ _ _ => ⟨trivial, trivial⟩

/-- A store is read back from its file, if that is smaller than `2 ^ 64` bytes. -/
theorem decode?_encode {s : Store} (size : s.encode.length < 2 ^ 64) :
    decode? s.encode = some s := by
  have rows : (rowsCodec.write s.rows.entries).length < 2 ^ 64 := by
    rw [encode, List.length_append] at size
    omega
  have read := lawful_rowsCodec.read_write s.rows.entries trivial rows []
  rw [List.append_nil] at read
  have marked : formatMark.isPrefixOf s.encode = true :=
    List.isPrefixOf_iff_prefix.2 (List.prefix_append _ _)
  have filled : ¬ s.encode.isEmpty = true := by
    have nonempty := lawful_rowsCodec.nonempty s.rows.entries
    rw [List.isEmpty_iff, encode, List.append_eq_nil_iff]
    rintro ⟨_, none⟩
    rw [none] at nonempty
    exact Nat.lt_irrefl 0 nonempty
  rw [decode?, if_neg filled, if_pos marked, encode, List.drop_left, read]
  simp [NameMap.ofList_entries]

theorem length_encode (s : Store) : s.encode.length = formatMark.length + 8 +
    (s.rows.entries.flatMap (Codec.string.pair Codec.bytes).write).length := by
  rw [encode, rowsCodec, Codec.list, List.length_append, List.length_append, ← Nat.add_assoc]
  simp only [Codec.nat, Bytes.length_littleEndian]
  rfl

theorem length_encode_empty_le (s : Store) : empty.encode.length ≤ s.encode.length := by
  rw [length_encode, length_encode s]
  simp [empty, NameMap.empty]

/-- A new row adds at most its own size to the file. -/
theorem length_encode_putRow_le (s : Store) (name : String) (bytes : Bytes) :
    (s.putRow name bytes).encode.length ≤ s.encode.length + rowSize name bytes := by
  have rows := length_flatMap_insertSorted_le (Codec.string.pair Codec.bytes).write name bytes
    s.rows.entries
  rw [length_encode, length_encode, rowSize]
  simp only [putRow, NameMap.insert]
  omega

end Store

/-! ## Using a store -/

inductive StoreOperation where
  | put (build : String) (key : ContentKey) (unit : CompiledUnit)
  | get (build : String) (key : ContentKey)
  | clear
  | stats
  | reopen

inductive StoreReply where
  | done
  | found (unit : Option CompiledUnit)
  | counted (entries : Nat)
  | failed (failure : StoreFailure)

structure OpenStore where
  root : Path
  files : FileTree
  store : Store

namespace OpenStore

def commit (o : OpenStore) (store : Store) : OpenStore :=
  { o with store, files := store.saveAt o.files o.root }

def act (o : OpenStore) : StoreOperation → StoreReply × OpenStore
  | .put build key unit => (.done, o.commit (o.store.put build key unit))
  | .get build key => (.found (o.store.get? build key), o)
  | .clear => (.done, o.commit o.store.clear)
  | .stats => (.counted o.store.stats.entries, o)
  | .reopen =>
    match Store.openAt o.files o.root with
    | .ok (store, files) => (.done, { o with store, files })
    | .error failure => (.failed failure, o)

def run (o : OpenStore) : List StoreOperation → List StoreReply
  | [] => []
  | operation :: rest => (o.act operation).1 :: (o.act operation).2.run rest

end OpenStore

/-! ## What a map answers -/

abbrev StorePut := (String × ContentKey) × CompiledUnit

namespace StoreOperation

/-- The puts since the last clear, latest first. -/
def puts (before : List StorePut) : StoreOperation → List StorePut
  | put build key unit => ((build, key), unit) :: before
  | clear => []
  | _ => before

/-- The latest unit, under the key it is looked up by; and the number of builds and keys. -/
def reply (before : List StorePut) : StoreOperation → StoreReply
  | get build key =>
    .found ((before.lookup (build, key)).map fun unit => { unit with key := key.hex })
  | stats => .counted (before.map Prod.fst).dedup.length
  | _ => .done

def replies (before : List StorePut) : List StoreOperation → List StoreReply
  | [] => []
  | operation :: rest => operation.reply before :: replies (operation.puts before) rest

def Storable : StoreOperation → Prop
  | put _ _ unit => unit.Storable
  | _ => True

def size : StoreOperation → Nat
  | put build key unit => Store.rowSize (Store.rowName build key) (Row.ofUnit unit).encode
  | _ => 0

end StoreOperation

/-! ## The rows -/

namespace Store

/-- The rows hold the latest of the puts, and no others. -/
structure Represents (s : Store) (puts : List StorePut) : Prop where
  get? : ∀ build key, s.get? build key =
    (puts.lookup (build, key)).map fun unit => { unit with key := key.hex }
  names : ∀ name, name ∈ s.rows.names ↔ ∃ p ∈ puts, rowName p.1.1 p.1.2 = name

theorem represents_empty : empty.Represents [] := by
  constructor
  · intro build key
    rfl
  · intro name
    simp [NameMap.mem_names, empty]

/-- The key of what is put does not matter. -/
theorem get?_put_any {unit : CompiledUnit} (h : unit.Storable) (s : Store) (build : String)
    (key : ContentKey) :
    (s.put build key unit).get? build key = some { unit with key := key.hex } :=
  get?_put (u := { unit with key := key.hex }) ⟨h.plain, h.spans, h.size⟩ s build rfl

/-- After a put the rows hold the latest of the puts, that one included. -/
theorem Represents.put {s : Store} {puts : List StorePut} (h : s.Represents puts) (build : String)
    (key : ContentKey) {unit : CompiledUnit} (storable : unit.Storable) :
    (s.put build key unit).Represents (((build, key), unit) :: puts) := by
  constructor
  · intro build' key'
    by_cases same : build' = build ∧ key' = key
    · obtain ⟨rfl, rfl⟩ := same
      simp [get?_put_any storable]
    · have other : ((build', key') == (build, key)) = false := by simpa using same
      rw [get?_put_of_ne s same, h.get?, List.lookup_cons, other]
  · intro name
    have insert : name ∈ (s.put build key unit).rows.names ↔
        name = rowName build key ∨ name ∈ s.rows.names := by
      by_cases same : name = rowName build key
      · simp [same, NameMap.mem_names, Store.put, putRow]
      · simp [same, NameMap.mem_names, Store.put, putRow, NameMap.get?_insert_of_ne _ same]
    rw [insert, h.names]
    simp [eq_comm]

/-- There is one row for every build and key. -/
theorem Represents.entries {s : Store} {puts : List StorePut} (h : s.Represents puts) :
    s.stats.entries = (puts.map Prod.fst).dedup.length := by
  have injective : Function.Injective fun p : String × ContentKey => rowName p.1 p.2 := by
    intro p q same
    obtain ⟨build, key⟩ := rowName_injective same
    exact Prod.ext build key
  have nodup : ((puts.map Prod.fst).dedup.map fun p => rowName p.1 p.2).Nodup :=
    (List.nodup_dedup _).map injective
  have names : s.rows.names.Nodup := by
    refine s.rows.pairwise_names.imp ?_
    rintro name _ lt rfl
    exact String.lt_irrefl name lt
  have same : s.rows.names.Perm ((puts.map Prod.fst).dedup.map fun p => rowName p.1 p.2) := by
    rw [List.perm_ext_iff_of_nodup names nodup]
    intro name
    simp [h.names]
  simpa [stats, NameMap.size, NameMap.names] using same.length_eq

end Store

/-! ## The file follows the rows -/

namespace OpenStore

structure Saved (o : OpenStore) : Prop where
  directory : o.files.isDirectory (o.root.join Store.directoryName)
  file : ∃ content, o.files.readBytes (Store.pathIn o.root) = .ok content ∧
    Store.decode? content = some o.store

variable {o : OpenStore}

theorem Saved.commit (h : o.Saved) {store : Store} (size : store.encode.length < 2 ^ 64) :
    (o.commit store).Saved := by
  obtain ⟨content, read, _⟩ := h.file
  obtain ⟨files, written⟩ := FileTree.write_of_readBytes read store.encode
  have committed : o.commit store = ⟨o.root, files, store⟩ := by
    unfold OpenStore.commit Store.saveAt
    simp only [written]
  rw [committed]
  refine ⟨FileTree.isDirectory_write written h.directory, _, FileTree.readBytes_write written, ?_⟩
  exact Store.decode?_encode size

/-- A saved store is had back by opening it again. -/
theorem Saved.openAt (h : o.Saved) : Store.openAt o.files o.root = .ok (o.store, o.files) := by
  obtain ⟨content, read, decoded⟩ := h.file
  simp [Store.openAt, FileTree.makeDirectories_of_isDirectory h.directory, read, decoded, bind,
    Except.bind]

theorem join_directoryName_ne (root : Path) : (root.join Store.directoryName).text ≠ "" := by
  have relative : (Store.directoryName.toList.head? == some '/') = false := by decide
  have named : Store.directoryName ≠ "" := by decide
  rw [Path.join, relative]
  split_ifs <;> simp_all

/-- A store that was opened is in its file. -/
theorem saved_of_openAt {t files : FileTree} {root : Path} {store : Store}
    (h : Store.openAt t root = .ok (store, files)) : Saved ⟨root, files, store⟩ := by
  simp only [Store.openAt, bind, Except.bind] at h
  split at h
  · cases h
  · rename_i made created
    have directory := FileTree.isDirectory_makeDirectories (join_directoryName_ne root)
      (eq_ok_of_mapError created)
    split at h
    · split at h
      · cases h
      · rename_i written
        cases h
        have saved := eq_ok_of_mapError written
        refine ⟨FileTree.isDirectory_write saved directory, _, FileTree.readBytes_write saved, ?_⟩
        exact Store.decode?_encode (by decide)
    · cases h
    · rename_i content read
      split at h
      · rename_i decoded
        cases h
        exact ⟨directory, content, read, decoded⟩
      · cases h

/-! ## Runs -/

/-- As long as the file stays small enough, an operation is answered as a map answers it. -/
theorem act_eq_reply {puts : List StorePut} {operation : StoreOperation} (saved : o.Saved)
    (represents : o.store.Represents puts) (storable : operation.Storable)
    (size : o.store.encode.length + operation.size < 2 ^ 64) :
    ∃ o', o.act operation = (operation.reply puts, o') ∧ o'.Saved ∧
      o'.store.Represents (operation.puts puts) ∧
      o'.store.encode.length ≤ o.store.encode.length + operation.size := by
  -- only a put makes the file grow; a clear leaves the smallest file there is
  cases operation with
  | put build key unit =>
    have bound := Store.length_encode_putRow_le o.store (Store.rowName build key)
      (Row.ofUnit unit).encode
    exact ⟨_, rfl, saved.commit (Nat.lt_of_le_of_lt bound size),
      represents.put build key storable, bound⟩
  | get build key =>
    refine ⟨o, ?_, saved, represents, by simp⟩
    simp [act, StoreOperation.reply, represents.get?]
  | clear =>
    have bound := Store.length_encode_empty_le o.store
    exact ⟨_, rfl, saved.commit (Nat.lt_of_le_of_lt bound size), Store.represents_empty, bound⟩
  | stats =>
    refine ⟨o, ?_, saved, represents, by simp⟩
    simp [act, StoreOperation.reply, represents.entries]
  | reopen =>
    refine ⟨o, ?_, saved, represents, by simp⟩
    simp [act, StoreOperation.reply, saved.openAt]

/-- Operations on a store that represents puts are answered as the puts say. -/
theorem run_of_represents {puts : List StorePut} {operations : List StoreOperation}
    (saved : o.Saved) (represents : o.store.Represents puts)
    (storable : ∀ operation ∈ operations, operation.Storable)
    (size : o.store.encode.length + total (operations.map StoreOperation.size) < 2 ^ 64) :
    o.run operations = StoreOperation.replies puts operations := by
  induction operations generalizing o puts with
  | nil => rfl
  | cons operation rest ih =>
    rw [List.map_cons, total_cons] at size
    obtain ⟨o', acted, saved', represents', bound⟩ :=
      act_eq_reply saved represents (storable operation (by simp)) (by omega)
    have later := ih saved' represents' (fun other h => storable other (by simp [h])) (by omega)
    rw [run, StoreOperation.replies, acted, later]

/-- A row is read back from its bytes. A store that is empty at first answers every operation as a
map from builds and keys does, whatever is done with it. -/
theorem run_eq_replies {t files : FileTree} {root : Path} {operations : List StoreOperation}
    (opened : Store.openAt t root = .ok (.empty, files))
    (storable : ∀ operation ∈ operations, operation.Storable)
    (size : Store.empty.encode.length + total (operations.map StoreOperation.size) < 2 ^ 64) :
    run ⟨root, files, .empty⟩ operations = StoreOperation.replies [] operations ∧
      ∀ row : Row, (∀ d ∈ row.diagnostics, ∀ s ∈ d.span, s.start < 2 ^ 64 ∧ s.stop < 2 ^ 64) →
        row.encode.length < 2 ^ 64 → Row.decode? row.encode = some row := by
  constructor
  · exact run_of_represents (saved_of_openAt opened) Store.represents_empty storable size
  · intro row spans small
    exact Row.decode?_encode spans small

/-- A unit is put for a build with a slash in its name and found there until the store is
cleared. -/
def counterOperations : List StoreOperation := [
  .put "0.8.30/linux" zeroKey ⟨"", counterContracts, []⟩, .reopen, .get "0.8.30/linux" zeroKey,
  .get "0.8.30" zeroKey, .stats, .clear, .get "0.8.30/linux" zeroKey]
where
  zeroKey : ContentKey := ⟨List.replicate 32 0, List.length_replicate⟩

theorem run_counterOperations :
    ∃ files, Store.openAt ⟨[], []⟩ ⟨"project"⟩ = .ok (.empty, files) ∧
      run ⟨⟨"project"⟩, files, .empty⟩ counterOperations =
        [.done, .done, .found (some ⟨counterOperations.zeroKey.hex, counterContracts, []⟩),
          .found none, .counted 1, .done, .found none] := by
  obtain ⟨files, opened⟩ :
      ∃ files, Store.openAt ⟨[], []⟩ ⟨"project"⟩ = .ok (.empty, files) := ⟨_, rfl⟩
  have storable : ∀ operation ∈ counterOperations, operation.Storable := by
    simp [counterOperations, StoreOperation.Storable, storable_counter]
  have size : Store.empty.encode.length + total (counterOperations.map StoreOperation.size) <
      2 ^ 64 := by decide +kernel
  exact ⟨files, opened, (run_eq_replies opened storable size).1⟩

end OpenStore

end SolidityInlay
