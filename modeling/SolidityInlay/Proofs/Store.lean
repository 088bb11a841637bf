import SolidityInlay.Proofs.Json
import SolidityInlay.Proofs.Text
import SolidityInlay.Store.Basic

/-!
# The store gives back what was put into it

Formats of stored values read back what they write. A unit whose interfaces are plain JSON is
therefore found again under its build and key, and nothing else is touched: the name of a row
determines both.

Main definitions: `Codec.Lawful`, `CompiledUnit.Storable`. Main statements: `Store.get?_put`,
`Store.get?_put_of_ne`.
-/

namespace SolidityInlay

/-! ## Formats -/

theorem Bytes.toNatLittle_littleEndian (width n : Nat) :
    toNatLittle (littleEndian width n) = n % 256 ^ width := by
  induction width generalizing n with
  | zero => simp [littleEndian, toNatLittle, Nat.mod_one]
  | succ width ih =>
    have byte : (UInt8.ofNat (n % 256)).toNat = n % 256 := by
      rw [UInt8.toNat_ofNat']
      omega
    rw [littleEndian, toNatLittle, ih, byte, Nat.pow_succ, Nat.mul_comm (256 ^ width), Nat.mod_mul]

theorem Bytes.toString?_ofString (s : String) : toString? (ofString s) = some s := by
  have bytes : (⟨(ofString s).toArray⟩ : ByteArray) = s.toByteArray := by
    simp [ofString]
  rw [toString?, bytes, String.fromUTF8?, dif_pos s.isValidUTF8]
  rfl

namespace Codec

variable {α β : Type}

/-- The format reads back every valid value that takes less than `2 ^ 64` bytes. -/
structure Lawful (c : Codec α) (Valid : α → Prop) : Prop where
  nonempty : ∀ a, 0 < (c.write a).length
  read_write : ∀ a, Valid a → (c.write a).length < 2 ^ 64 →
    ∀ rest, c.read (c.write a ++ rest) = some (a, rest)

theorem Lawful.mono {c : Codec α} {Valid Strict : α → Prop} (h : c.Lawful Valid)
    (imp : ∀ a, Strict a → Valid a) : c.Lawful Strict :=
  ⟨h.nonempty, fun a ha => h.read_write a (imp a ha)⟩

theorem lawful_nat {width : Nat} (h : 0 < width) : (nat width).Lawful (· < 256 ^ width) where
  nonempty n := by simpa [nat] using h
  read_write n hn _ rest := by
    have drop : (Bytes.littleEndian width n ++ rest).drop width = rest := by
      rw [List.drop_append_of_le_length (by simp)]
      simp
    have take : (Bytes.littleEndian width n ++ rest).take width = Bytes.littleEndian width n := by
      rw [List.take_append_of_le_length (by simp)]
      simp
    simp [nat, drop, take, Bytes.toNatLittle_littleEndian, Nat.mod_eq_of_lt hn]

theorem lawful_byte : byte.Lawful fun _ => True where
  nonempty _ := by simp [byte]
  read_write _ _ _ _ := by simp [byte]

/-- A description that can be undone is read back like what it describes. -/
theorem Lawful.convert {c : Codec α} {Valid : α → Prop} (h : c.Lawful Valid) {describe : β → α}
    {make : α → Option β} (made : ∀ b, make (describe b) = some b) :
    (c.convert describe make).Lawful fun b => Valid (describe b) where
  nonempty b := h.nonempty (describe b)
  read_write b hb size rest := by
    simp [Codec.convert, h.read_write (describe b) hb size rest, made]

theorem Lawful.pair {c : Codec α} {d : Codec β} {Valid : α → Prop} {Sound : β → Prop}
    (h : c.Lawful Valid) (h' : d.Lawful Sound) :
    (c.pair d).Lawful fun p => Valid p.1 ∧ Sound p.2 where
  nonempty p := by
    have := h.nonempty p.1
    simp [Codec.pair]
    omega
  read_write p hp size rest := by
    simp only [Codec.pair, List.length_append] at size
    simp [Codec.pair, h.read_write p.1 hp.1 (by omega), h'.read_write p.2 hp.2 (by omega)]

/-- As many values are read back as were written. -/
theorem Lawful.readMany {c : Codec α} {Valid : α → Prop} (h : c.Lawful Valid) {as : List α}
    (valid : ∀ a ∈ as, Valid a) (size : (as.flatMap c.write).length < 2 ^ 64) (rest : Bytes) :
    c.readMany as.length (as.flatMap c.write ++ rest) = some (as, rest) := by
  induction as with
  | nil => rfl
  | cons a as ih =>
    simp only [List.flatMap_cons, List.length_append] at size
    have first := h.read_write a (valid a (by simp)) (by omega) (as.flatMap c.write ++ rest)
    have tail := ih (fun b hb => valid b (by simp [hb])) (by omega)
    simp [Codec.readMany, first, tail]

/-- Every value takes at least a byte. -/
theorem Lawful.length_le {c : Codec α} {Valid : α → Prop} (h : c.Lawful Valid) (as : List α) :
    as.length ≤ (as.flatMap c.write).length := by
  induction as with
  | nil => simp
  | cons a as ih =>
    have := h.nonempty a
    rw [List.flatMap_cons, List.length_append, List.length_cons]
    omega

/-- A list is read back by its length, which fits since every value takes a byte. -/
theorem Lawful.list {c : Codec α} {Valid : α → Prop} (h : c.Lawful Valid) :
    c.list.Lawful fun as => ∀ a ∈ as, Valid a where
  nonempty as := by
    rw [Codec.list, List.length_append]
    exact Nat.add_pos_left (by simp [nat]) _
  read_write as valid size rest := by
    have count := h.length_le as
    simp only [Codec.list, List.length_append] at size
    have length := (lawful_nat (show 0 < 8 by decide)).read_write as.length
      (show as.length < 256 ^ 8 by omega) (by omega) (as.flatMap c.write ++ rest)
    simp [Codec.list, length, h.readMany valid (by omega)]

theorem Lawful.option {c : Codec α} {Valid : α → Prop} (h : c.Lawful Valid) :
    c.option.Lawful fun o => ∀ a ∈ o, Valid a where
  nonempty o := by cases o <;> simp [Codec.option]
  read_write o valid size rest := by
    cases o with
    | none => simp [Codec.option]
    | some a =>
      simp only [Codec.option, List.length_cons] at size
      simp [Codec.option, h.read_write a (valid a rfl) (by omega)]

theorem lawful_string : string.Lawful fun _ => True :=
  (lawful_byte.list.convert Bytes.toString?_ofString).mono fun _ _ _ _ => trivial

theorem lawful_bytes : bytes.Lawful fun _ => True :=
  lawful_byte.list.mono fun _ _ _ _ => trivial

theorem lawful_severity : severity.Lawful fun _ => True :=
  ((lawful_nat (by decide)).convert fun s => by cases s <;> rfl).mono fun s _ => by
    cases s <;> decide

theorem lawful_span : span.Lawful fun s => s.start < 2 ^ 64 ∧ s.stop < 2 ^ 64 :=
  ((lawful_nat (by decide)).pair (lawful_nat (by decide))).convert fun _ => rfl

theorem lawful_diagnostic :
    diagnostic.Lawful fun d => ∀ s ∈ d.span, s.start < 2 ^ 64 ∧ s.stop < 2 ^ 64 := by
  have fields := lawful_severity.pair
    (lawful_string.pair (lawful_string.option.pair lawful_span.option))
  refine Lawful.mono (Lawful.convert fields fun _ => rfl) fun d hd => ?_
  exact ⟨trivial, trivial, fun _ _ => trivial, hd⟩

theorem lawful_storedArtifact : storedArtifact.Lawful fun _ => True := by
  have fields := lawful_string.pair (lawful_string.pair (lawful_bytes.pair lawful_bytes))
  refine Lawful.mono (Lawful.convert fields fun _ => rfl) fun _ _ => ?_
  exact ⟨trivial, trivial, trivial, trivial⟩

end Codec

/-! ## Rows -/

namespace Row

/-- A row is read back, if offsets and the whole fit into 64 bits. -/
theorem decode?_encode {row : Row}
    (spans : ∀ d ∈ row.diagnostics, ∀ s ∈ d.span, s.start < 2 ^ 64 ∧ s.stop < 2 ^ 64)
    (size : row.encode.length < 2 ^ 64) : decode? row.encode = some row := by
  have fields := Codec.lawful_storedArtifact.list.pair Codec.lawful_diagnostic.list
  have lawful : codec.Lawful _ := fields.convert fun _ => rfl
  have front := lawful.read_write row ⟨fun _ _ => trivial, spans⟩ size []
  rw [List.append_nil] at front
  simp [decode?, encode, front]

/-- A plain interface is read back from its text. -/
theorem abi?_compact {abi : List Json.Value} (h : (Json.Value.array abi).Plain 127) :
    abi? (Json.Value.array abi).compact = some abi := by
  have form := Json.readForm_render h
  cases h with
  | array items =>
    have values := Json.mapM_map_eq_some fun v hv => (items v hv).value?_form
    rw [← Json.itemForms_eq_map] at values
    rw [abi?, Json.Value.compact, String.toList_ofList, form]
    exact values

end Row

/-- A unit that a row can hold: its interfaces are plain, and offsets and sizes fit into 64 bits. -/
structure CompiledUnit.Storable (u : CompiledUnit) : Prop where
  plain : ∀ e ∈ u.contracts.entries, (Json.Value.array e.2.abi).Plain 127
  spans : ∀ d ∈ u.diagnostics, ∀ s ∈ d.span, s.start < 2 ^ 64 ∧ s.stop < 2 ^ 64
  size : (Row.ofUnit u).encode.length < 2 ^ 64

/-- A storable unit is had back from its row, under its own key. -/
theorem Row.unit?_ofUnit {u : CompiledUnit} (h : u.Storable) {key : ContentKey}
    (hkey : u.key = key.hex) : unit? key (ofUnit u) = some u := by
  have contracts : (ofUnit u).artifacts.mapM (fun a => (abi? a.abi).bind fun abi =>
      some (a.name, (⟨abi, a.creation, a.deployed⟩ : Artifact))) = some u.contracts.entries :=
    Json.mapM_map_eq_some fun e he => by simp [abi?_compact (h.plain e he)]
  simp only [unit?, Option.bind_eq_bind, contracts, Option.bind_some, NameMap.ofList_entries,
    ← hkey]
  rfl

/-! ## Names of rows -/

theorem Hex.encodeByte_injective {a b : UInt8} (h : encodeByte a = encodeByte b) : a = b := by
  have digits : ∀ m < 16, ∀ n < 16, Nat.digitChar m = Nat.digitChar n → m = n := by decide
  have boundA := a.toNat_lt
  have boundB := b.toNat_lt
  simp only [encodeByte, List.cons.injEq, and_true] at h
  have high := digits _ (by omega) _ (by omega) h.1
  have low := digits _ (by omega) _ (by omega) h.2
  exact UInt8.toNat_inj.1 (by omega)

theorem Hex.encode_injective {a b : Bytes} (h : encode a = encode b) : a = b := by
  induction a generalizing b with
  | nil => cases b <;> simp_all [encode, encodeByte]
  | cons x a ih =>
    cases b with
    | nil => simp [encode, encodeByte] at h
    | cons y b =>
      have parts := List.append_inj (by simpa only [encode, List.flatMap_cons] using h)
        (by simp [encodeByte])
      rw [encodeByte_injective parts.1, ih parts.2]

theorem Hex.length_encode (bytes : Bytes) : (encode bytes).length = 2 * bytes.length := by
  induction bytes with
  | nil => rfl
  | cons b bytes ih =>
    simp only [encode, List.flatMap_cons, List.length_append] at ih ⊢
    simp [ih, encodeByte]
    omega

theorem ContentKey.hex_injective {a b : ContentKey} (h : a.hex = b.hex) : a = b := by
  have bytes := Hex.encode_injective (String.ofList_injective h)
  cases a
  cases b
  simpa using bytes

namespace Store

/-- The key takes a fixed number of characters, so a name determines both of its parts. -/
theorem rowName_injective {build build' : String} {key key' : ContentKey}
    (h : rowName build key = rowName build' key') : build = build' ∧ key = key' := by
  have lists := congrArg String.toList h
  simp only [rowName, String.toList_append] at lists
  have sizes : key.hex.toList.length = key'.hex.toList.length := by
    simp [ContentKey.hex, Hex.encodeString, Hex.length_encode, ContentKey.length_bytes]
  obtain ⟨front, back⟩ := List.append_inj' lists sizes
  obtain ⟨name, _⟩ := List.append_inj' front rfl
  exact ⟨String.toList_injective name, ContentKey.hex_injective (String.toList_injective back)⟩

/-- What is put is found, under the key it carries. -/
theorem get?_put {u : CompiledUnit} (h : u.Storable) (s : Store) (build : String) {key : ContentKey}
    (hkey : u.key = key.hex) : (s.put build key u).get? build key = some u := by
  simp [get?, put, putRow, Row.decode?_encode h.spans h.size, Row.unit?_ofUnit h hkey]

/-- Putting a unit touches nothing else. -/
theorem get?_put_of_ne (s : Store) {build build' : String} {key key' : ContentKey}
    (h : ¬ (build' = build ∧ key' = key)) (u : CompiledUnit) :
    (s.put build key u).get? build' key' = s.get? build' key' := by
  have other : rowName build' key' ≠ rowName build key := fun eq => h (rowName_injective eq)
  simp [get?, put, putRow, NameMap.get?_insert_of_ne _ other]

@[simp] theorem get?_empty (build : String) (key : ContentKey) : empty.get? build key = none := rfl

end Store

end SolidityInlay
