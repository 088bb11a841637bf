import SolidityInlay.Proofs.Hex
import SolidityInlay.Proofs.Layout
import SolidityInlay.Proofs.NameMap
import SolidityInlay.Transform.Basic

/-!
# What the runtime is given for a unit

The expression that stands for a site has no control characters, so it takes one line. The payload
in it is JSON text from which the key, the names, the interfaces and the code of a unit can be read,
and which determines them.

Main definitions: `CompiledUnit.Interfaces`, `CompiledUnit.CarriedBy`. Main statement:
`artifactPayload_lossless`.
-/

namespace SolidityInlay

/-! ## Payloads -/

def Text.FreeOfControls (text : Text) : Prop := ∀ c ∈ text, 0x20 ≤ c.toNat

def CompiledUnit.Interfaces (u : CompiledUnit) (P : Json.Value → Prop) : Prop :=
  ∀ e ∈ u.contracts.entries, ∀ v ∈ e.2.abi, P v

def Artifact.CodeAt (v : Json.Value) (field : String) (code : Bytes) : Prop :=
  ∃ digits, v.get? field = some (.string ("0x" ++ digits)) ∧ Hex.decode digits = .ok code

/-- The value has the interface and the code of the artifact. -/
structure Artifact.CarriedBy (a : Artifact) (v : Json.Value) : Prop where
  abi : v.get? "abi" = some (.array a.abi)
  creation : CodeAt v "bytecode" a.creation
  deployed : CodeAt v "deployedBytecode" a.deployed

/-- The value has the key of the unit and its contracts, and no others. -/
structure CompiledUnit.CarriedBy (u : CompiledUnit) (v : Json.Value) : Prop where
  key : v.get? "key" = some (.string u.key)
  contracts : ∃ fields, v.get? "contracts" = some (.object fields) ∧
    fields.map Prod.fst = u.contractNames ∧
    ∀ name a, u.contract? name = some a →
      ∃ c, (Json.Value.object fields).get? name = some c ∧ a.CarriedBy c

/-! ## Texts without controls -/

namespace Text.FreeOfControls

instance (text : Text) : Decidable text.FreeOfControls :=
  decidable_of_iff (text.all fun c => 0x20 ≤ c.toNat) (by simp [FreeOfControls])

theorem append {a b : Text} (ha : a.FreeOfControls) (hb : b.FreeOfControls) :
    (a ++ b).FreeOfControls := by
  intro c hc
  rcases List.mem_append.1 hc with hc | hc
  · exact ha c hc
  · exact hb c hc

theorem cons {c : Char} {text : Text} (hc : 0x20 ≤ c.toNat) (h : text.FreeOfControls) :
    FreeOfControls (c :: text) := append (a := [c]) (by simpa [FreeOfControls] using hc) h

/-- Control characters are escaped in a quoted string. -/
theorem quote (s : String) : FreeOfControls (Json.quoteText s.toList) :=
  fun _ => Json.le_toNat_of_mem_quoteText

theorem integer (n : Int) : FreeOfControls (Json.integerText n) := by
  have digits : FreeOfControls (Nat.toDigits 10 n.natAbs) := by
    intro c hc
    have digit := Nat.isDigit_of_mem_toDigits (by decide) (by decide) hc
    simp only [Char.isDigit, Bool.and_eq_true, decide_eq_true_eq] at digit
    exact Nat.le_trans (by decide) digit.1
  unfold Json.integerText
  split
  · exact cons (by decide) digits
  · exact digits

theorem further {α : Type} {write : α → Text} {as : List α}
    (parts : ∀ a ∈ as, (write a).FreeOfControls) : (Json.further [] write as).FreeOfControls := by
  intro c hc
  obtain ⟨a, ha, hc⟩ := List.mem_flatMap.1 hc
  exact cons (by decide) (parts a ha) c hc

end Text.FreeOfControls

namespace Json.Value

/-- Integral values are written without controls. -/
theorem Integral.freeOfControls {v : Value} (h : v.Integral) : v.render.FreeOfControls := by
  induction h with
  | null =>
    rw [render]
    decide
  | bool b => cases b <;> rw [render] <;> decide
  | integer n => exact .integer n
  | string s =>
    rw [render]
    exact .quote s
  | @array items _ ih =>
    rw [render]
    cases items with
    | nil =>
      rw [renderItems]
      decide
    | cons v vs =>
      rw [renderItems_cons]
      have rest : (further [] render vs).FreeOfControls := .further fun w hw => ih w (by simp [hw])
      have parts := (ih v (by simp)).append rest
      exact (Text.FreeOfControls.cons (by decide) parts).append (by decide)
  | @object fields _ ih =>
    have field (f : String × Value) (hf : f ∈ fields) :
        (fieldText [] render f).FreeOfControls := by
      rw [fieldText]
      exact (Text.FreeOfControls.quote f.1).append (.cons (by decide) (ih f hf))
    rw [render]
    cases fields with
    | nil =>
      rw [renderFields]
      decide
    | cons f fs =>
      rw [renderFields_cons]
      have rest : (further [] (fieldText [] render) fs).FreeOfControls :=
        .further fun g hg => field g (by simp [hg])
      have parts := (field f (by simp)).append rest
      exact (Text.FreeOfControls.cons (by decide) parts).append (by decide)

/-- A value that nests at most so deep nests at most deeper. -/
theorem Plain.mono {depth deeper : Nat} {v : Value} (h : v.Plain depth) (le : depth ≤ deeper) :
    v.Plain deeper := by
  induction h generalizing deeper with
  | null => exact .null
  | bool b => exact .bool b
  | integer low high => exact .integer low high
  | string s => exact .string s
  | array _ ih =>
    obtain _ | deeper := deeper
    · cases le
    · exact .array fun v hv => ih v hv (Nat.le_of_succ_le_succ le)
  | object sorted _ ih =>
    obtain _ | deeper := deeper
    · cases le
    · exact .object sorted fun f hf => ih f hf (Nat.le_of_succ_le_succ le)

theorem Plain.integral {depth : Nat} {v : Value} (h : v.Plain depth) : v.Integral := by
  induction h with
  | null => exact .null
  | bool b => exact .bool b
  | integer _ _ => exact .integer _
  | string s => exact .string s
  | array _ ih => exact .array ih
  | object _ _ ih => exact .object ih

end Json.Value

/-! ## What a payload is -/

open Json (Value)

theorem plain_artifactJson {a : Artifact} {depth : Nat} (h : ∀ v ∈ a.abi, v.Plain depth) :
    (artifactJson a).Plain (depth + 2) := by
  have sorted : ["abi", "bytecode", "deployedBytecode"].Pairwise (· < ·) := by decide
  refine .object (sortedByName_iff.2 sorted) fun f hf => ?_
  simp only [List.mem_cons, List.not_mem_nil, or_false] at hf
  rcases hf with rfl | rfl | rfl
  · exact .array h
  · exact .string _
  · exact .string _

/-- The object of a unit nests four levels more than its interfaces. -/
theorem plain_artifactPayload {u : CompiledUnit} {depth : Nat}
    (h : u.Interfaces (Value.Plain depth)) : (artifactPayload u).Plain (depth + 4) := by
  have sorted : ["contracts", "key"].Pairwise (· < ·) := by decide
  refine .object (sortedByName_iff.2 sorted) fun f hf => ?_
  simp only [List.mem_cons, List.not_mem_nil, or_false] at hf
  rcases hf with rfl | rfl
  · refine .object (by simpa [SortedByName, List.pairwise_map] using u.contracts.sorted) ?_
    intro f hf
    obtain ⟨e, he, rfl⟩ := List.mem_map.1 hf
    exact plain_artifactJson (h e he)
  · exact .string _

theorem integral_artifactPayload {u : CompiledUnit} (h : u.Interfaces Value.Integral) :
    (artifactPayload u).Integral := by
  have artifact (e : String × Artifact) (he : e ∈ u.contracts.entries) :
      (artifactJson e.2).Integral := by
    refine .object fun f hf => ?_
    simp only [List.mem_cons, List.not_mem_nil, or_false] at hf
    rcases hf with rfl | rfl | rfl
    · exact .array (h e he)
    · exact .string _
    · exact .string _
  refine .object fun f hf => ?_
  simp only [List.mem_cons, List.not_mem_nil, or_false] at hf
  rcases hf with rfl | rfl
  · refine .object fun f hf => ?_
    obtain ⟨e, he, rfl⟩ := List.mem_map.1 hf
    exact artifact e he
  · exact .string _

theorem carriedBy_artifactJson (a : Artifact) : a.CarriedBy (artifactJson a) where
  abi := rfl
  creation := ⟨_, rfl, Hex.decode_encodeString _⟩
  deployed := ⟨_, rfl, Hex.decode_encodeString _⟩

theorem carriedBy_artifactPayload (u : CompiledUnit) : u.CarriedBy (artifactPayload u) where
  key := rfl
  contracts := by
    refine ⟨_, rfl, ?_, fun name a found => ⟨artifactJson a, ?_, carriedBy_artifactJson a⟩⟩
    · rw [List.map_map]
      rfl
    · obtain ⟨e, first, rfl⟩ := Option.map_eq_some_iff.1 found
      have shown : (u.contracts.entries.map fun e => (e.1, artifactJson e.2)).find?
          (fun f => f.1 == name) = some (e.1, artifactJson e.2) := by
        rw [List.find?_map]
        exact congrArg (Option.map _) first
      exact congrArg (Option.map Prod.snd) shown

theorem artifactJson_injective {a b : Artifact} (h : artifactJson a = artifactJson b) : a = b := by
  have code {x y : Bytes} (h : "0x" ++ Hex.encodeString x = "0x" ++ Hex.encodeString y) :
      x = y := by
    have read := congrArg Hex.decode ((String.append_right_inj "0x").1 h)
    rw [Hex.decode_encodeString, Hex.decode_encodeString] at read
    exact Except.ok.inj read
  simp only [artifactJson, Value.object.injEq, List.cons.injEq, Prod.mk.injEq, Value.array.injEq,
    Value.string.injEq, true_and, and_true] at h
  obtain ⟨abi, creation, deployed⟩ := h
  cases a
  cases b
  congr
  · exact code creation
  · exact code deployed

/-- Units with the same object have the same key and contracts. -/
theorem artifactPayload_injective {u w : CompiledUnit} (h : artifactPayload u = artifactPayload w) :
    u.key = w.key ∧ u.contracts = w.contracts := by
  simp only [artifactPayload, Value.object.injEq, List.cons.injEq, Prod.mk.injEq,
    Value.string.injEq, true_and, and_true] at h
  obtain ⟨contracts, key⟩ := h
  refine ⟨key, NameMap.ext_entries (List.map_injective_iff.2 ?_ contracts)⟩
  rintro ⟨name, a⟩ ⟨name', b⟩ same
  obtain ⟨names, values⟩ := Prod.mk.inj same
  exact Prod.ext names (artifactJson_injective values)

/-! ## The expression for a site -/

/-- The expression for a site has the object's text as its first argument. -/
theorem toList_constructorText (u : CompiledUnit) (name : Option String) :
    ∃ argument, (constructorText u name).toList =
        "new __SolArtifacts(".toList ++ (artifactPayload u).render ++ (argument ++ [')']) ∧
      Text.FreeOfControls argument := by
  cases name with
  | none => exact ⟨[], by simp [constructorText, artifactsName, Value.compact], nofun⟩
  | some name =>
    have clean : Text.FreeOfControls (',' :: ' ' :: Json.quoteText name.toList) :=
      .cons (by decide) (.cons (by decide) (.quote name))
    refine ⟨_, ?_, clean⟩
    simp [constructorText, artifactsName, Value.compact, Json.quote]

/-- The expression for a unit is one line, in which the unit can be read. -/
theorem artifactPayload_lossless {u : CompiledUnit} (integral : u.Interfaces Value.Integral) :
    (∀ name, (artifactPayload u).render <:+: (constructorText u name).toList ∧
      Text.FreeOfControls (constructorText u name).toList) ∧
    (∀ depth limit, u.Interfaces (Value.Plain depth) → depth + 4 < limit →
      ∃ v, (Json.readForm (artifactPayload u).render).bind (·.value? limit) = some v ∧
        u.CarriedBy v) ∧
    ∀ w, w.Interfaces Value.Integral → (artifactPayload w).compact = (artifactPayload u).compact →
      w.key = u.key ∧ w.contracts = u.contracts := by
  have payload := integral_artifactPayload integral
  refine ⟨fun name => ?_, fun depth limit plain deep => ?_, fun w hw same => ?_⟩
  · obtain ⟨argument, text, clean⟩ := toList_constructorText u name
    rw [text]
    refine ⟨⟨_, _, rfl⟩, .append (.append (by decide) payload.freeOfControls) (clean.append ?_)⟩
    decide
  · -- the items of an interface stand four levels deep in the payload
    obtain ⟨limit, rfl⟩ : ∃ k, limit = k + 1 := ⟨limit - 1, by omega⟩
    have read := (plain_artifactPayload plain).mono (Nat.le_of_lt_succ deep)
    refine ⟨_, ?_, carriedBy_artifactPayload u⟩
    rw [Json.readForm_render read, Option.bind_some, read.value?_form]
  · -- no depth is needed here: texts of integral values are unambiguous at any depth
    apply artifactPayload_injective
    have texts := congrArg (· ++ []) (String.ofList_injective same)
    exact (Json.Layout.unambiguous_text (l := .compact) (integral_artifactPayload hw) _ _ _ payload
      Json.endsNumber_nil Json.endsNumber_nil texts).1

/-- A unit whose key, contract and interface have characters that need escapes. -/
def lineFeedUnit : CompiledUnit where
  key := "a\n"
  contracts := ⟨[("\"\\", ⟨[.object [("\t", .int (-1)), ("type", .null)]], [0x60, 0xff], []⟩)],
    List.pairwise_singleton _ _⟩
  diagnostics := []

theorem artifactPayload_lossless_lineFeed :
    (∀ name, Text.FreeOfControls (constructorText lineFeedUnit name).toList) ∧
    (∃ v, Json.parse (artifactPayload lineFeedUnit).render = some v ∧ lineFeedUnit.CarriedBy v) ∧
    ∀ w, w.Interfaces Value.Integral →
      (artifactPayload w).compact = (artifactPayload lineFeedUnit).compact →
      w.contractNames = ["\"\\"] := by
  have plain : lineFeedUnit.Interfaces (Value.Plain 1) := by
    intro e he v hv
    rw [List.mem_singleton.1 he] at hv
    rw [List.mem_singleton.1 hv]
    have sorted : ["\t", "type"].Pairwise (· < ·) := by decide
    refine .object (sortedByName_iff.2 sorted) fun f hf => ?_
    simp only [List.mem_cons, List.not_mem_nil, or_false] at hf
    rcases hf with rfl | rfl
    · exact .integer (by decide) (by decide)
    · exact .null
  have integral : lineFeedUnit.Interfaces Value.Integral := fun e he v hv =>
    (plain e he v hv).integral
  obtain ⟨line, read, same⟩ := artifactPayload_lossless integral
  refine ⟨fun name => (line name).2, read 1 128 plain (by decide), fun w hw text => ?_⟩
  rw [CompiledUnit.contractNames, (same w hw text).2]
  rfl

end SolidityInlay
