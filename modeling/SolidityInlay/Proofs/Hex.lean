import SolidityInlay.Bytes.Hex
import SolidityInlay.Proofs.Spelling
import SolidityInlay.Proofs.Text

/-!
# Laws of hexadecimal text

A text is read exactly if it has two digits for each byte, in either case, and then the bytes are
written again as the same text in lower case. Reading goes over the bytes of a text: those of a
character outside ASCII are never digits.

Main definitions: `Hex.Spells`, `Hex.IsText`. Main statements: `Hex.decode_eq_ok_iff`,
`Hex.Spells.encode_eq`, `Hex.decode_encodeString`.
-/

namespace SolidityInlay.Hex

open StringLiteral (IsHexDigit isHexDigit_of_hexDigit?)

/-- Two digits for each byte, in either case. -/
inductive Spells : Text → Bytes → Prop
  | nil : Spells [] []
  | cons {high low : Char} {h l : Nat} {digits : Text} {bytes : Bytes} :
      IsHexDigit high h → IsHexDigit low l → Spells digits bytes →
      Spells (high :: low :: digits) (UInt8.ofNat (16 * h + l) :: bytes)

def digits : Text := "0123456789abcdefABCDEF".toList

def IsText (text : Text) : Prop := text.length % 2 = 0 ∧ ∀ c ∈ text, c ∈ digits

instance (text : Text) : Decidable (IsText text) :=
  decidable_of_iff (text.length % 2 = 0 ∧ text.all digits.contains) (by simp [IsText])

theorem mem_digits_iff {c : Char} : c ∈ digits ↔ ∃ v, IsHexDigit c v := by
  have read : digits.all isHexDigit = true := by decide
  have chars : ∀ v < 16, Nat.digitChar v ∈ digits ∧ (Nat.digitChar v).toUpper ∈ digits := by decide
  constructor
  · intro h
    obtain ⟨v, digit⟩ := Option.isSome_iff_exists.1 (List.all_eq_true.1 read c h)
    exact ⟨v, isHexDigit_of_hexDigit? digit⟩
  · rintro ⟨v, small, rfl | rfl⟩
    · exact (chars v small).1
    · exact (chars v small).2

theorem Spells.isText {text : Text} {bytes : Bytes} (h : Spells text bytes) : IsText text := by
  induction h with
  | nil => exact ⟨rfl, by simp⟩
  | cons high low _ ih =>
    refine ⟨by simpa [Nat.add_assoc] using ih.1, ?_⟩
    intro c hc
    rcases List.mem_cons.1 hc with rfl | hc
    · exact mem_digits_iff.2 ⟨_, high⟩
    · rcases List.mem_cons.1 hc with rfl | hc
      · exact mem_digits_iff.2 ⟨_, low⟩
      · exact ih.2 c hc

theorem IsText.exists_spells : ∀ {text : Text}, IsText text → ∃ bytes, Spells text bytes
  | [], _ => ⟨[], .nil⟩
  | [_], h => nomatch h.1
  | high :: low :: rest, h => by
    obtain ⟨_, high⟩ := mem_digits_iff.1 (h.2 high (by simp))
    obtain ⟨_, low⟩ := mem_digits_iff.1 (h.2 low (by simp))
    have even : rest.length % 2 = 0 := by simpa [Nat.add_assoc] using h.1
    obtain ⟨bytes, rest⟩ := exists_spells ⟨even, fun c hc => h.2 c (by simp [hc])⟩
    exact ⟨_, .cons high low rest⟩

/-- What is written for bytes is the text they were read from, in lower case. -/
theorem Spells.encode_eq {text : Text} {bytes : Bytes} (h : Spells text bytes) :
    encode bytes = text.map Char.toLower := by
  induction h with
  | nil => rfl
  | @cons high low h l digits bytes hh hl _ ih =>
    have value : (UInt8.ofNat (16 * h + l)).toNat = 16 * h + l := by
      have := hh.1
      have := hl.1
      rw [UInt8.toNat_ofNat_of_lt' (show _ < 256 by omega)]
    have byte : encodeByte (UInt8.ofNat (16 * h + l)) = [high.toLower, low.toLower] := by
      have := hl.1
      rw [encodeByte, value, hh.toLower_eq, hl.toLower_eq,
        show (16 * h + l) / 16 = h by omega, show (16 * h + l) % 16 = l by omega]
    rw [encode, List.flatMap_cons, byte, ← encode, ih]
    rfl

/-- What is written for bytes spells them. -/
theorem spells_encode (bytes : Bytes) : Spells (encode bytes) bytes := by
  induction bytes with
  | nil => exact .nil
  | cons b bytes ih =>
    have bound := b.toNat_lt
    have byte : b = UInt8.ofNat (16 * (b.toNat / 16) + b.toNat % 16) := by
      rw [Nat.div_add_mod, UInt8.ofNat_toNat]
    have high : IsHexDigit (Nat.digitChar (b.toNat / 16)) (b.toNat / 16) := ⟨by omega, .inl rfl⟩
    have low : IsHexDigit (Nat.digitChar (b.toNat % 16)) (b.toNat % 16) := ⟨by omega, .inl rfl⟩
    have spells := Spells.cons high low ih
    rwa [← byte] at spells

/-! ## Reading -/

def charOf (b : UInt8) : Char := Char.ofNat b.toNat

theorem toNat_charOf (b : UInt8) : (charOf b).toNat = b.toNat := by
  have valid : b.toNat.isValidChar := .inl (Nat.lt_trans b.toNat_lt (by decide))
  rw [charOf, Char.ofNat, dif_pos valid]
  rfl

theorem map_charOf_ofText {text : Text} (h : ∀ c ∈ text, c.toNat < 0x80) :
    (Bytes.ofText text).map charOf = text := by
  induction text with
  | nil => rfl
  | cons c cs ih =>
    have small := h c (by simp)
    have rest := ih fun d hd => h d (by simp [hd])
    rw [Bytes.ofText, List.flatMap_cons, ← Bytes.ofText, List.map_append, rest,
      Bytes.utf8EncodeChar_of_lt small, List.map_singleton, charOf,
      UInt8.toNat_ofNat_of_lt' (Nat.lt_trans small (by decide)), Char.ofNat_toNat]
    rfl

theorem ascii_of_map_charOf {text : Text}
    (h : ∀ c ∈ (Bytes.ofText text).map charOf, c.toNat < 0x80) : ∀ c ∈ text, c.toNat < 0x80 := by
  intro c hc
  by_contra large
  obtain ⟨b, hb⟩ := List.exists_mem_of_ne_nil _ (String.utf8EncodeChar_ne_nil (c := c))
  have := Bytes.le_toNat_of_mem_utf8EncodeChar (Nat.le_of_not_lt large) hb
  have bound := b.toNat_lt
  have := h (charOf b) (List.mem_map_of_mem (List.mem_flatMap.2 ⟨c, hc, hb⟩))
  rw [toNat_charOf] at this
  omega

theorem digit_eq_ok_iff {b : UInt8} {index v : Nat} :
    digit b index = .ok v ↔ IsHexDigit (charOf b) v := by
  rw [digit, charOf]
  constructor
  · intro h
    split at h
    · rename_i n found
      cases h
      exact isHexDigit_of_hexDigit? found
    · cases h
  · intro h
    rw [h.hexDigit?_eq]

/-- What is read as bytes spells them. -/
theorem spells_of_decodePairs {index : Nat} {text bytes : Bytes}
    (h : decodePairs index text = .ok bytes) : Spells (text.map charOf) bytes := by
  fun_induction decodePairs index text generalizing bytes with
  | case1 =>
    cases h
    exact .nil
  | case2 => cases h
  | case3 index high low rest ih =>
    simp only [bind, Except.bind] at h
    split at h
    · cases h
    · rename_i first
      split at h
      · cases h
      · rename_i second
        split at h
        · cases h
        · rename_i read
          cases h
          exact .cons (digit_eq_ok_iff.1 first) (digit_eq_ok_iff.1 second) (ih read)

/-- What spells bytes is read as them. -/
theorem decodePairs_of_spells {index : Nat} {text bytes : Bytes}
    (h : Spells (text.map charOf) bytes) : decodePairs index text = .ok bytes := by
  fun_induction decodePairs index text generalizing bytes with
  | case1 =>
    cases h
    rfl
  | case2 => cases h
  | case3 index high low rest ih =>
    obtain _ | ⟨first, second, rest⟩ := h
    simp only [bind, Except.bind, digit_eq_ok_iff.2 first, digit_eq_ok_iff.2 second, ih rest]

/-- Reading succeeds exactly on pairs of digits, and gives the bytes they spell. -/
theorem decode_eq_ok_iff {s : String} {bytes : Bytes} :
    decode s = .ok bytes ↔ Spells s.toList bytes := by
  -- a character outside ASCII is no digit, and neither are its bytes
  have ascii {text : Text} (h : IsText text) : ∀ c ∈ text, c.toNat < 0x80 := by
    intro c hc
    obtain ⟨v, digit⟩ := mem_digits_iff.1 (h.2 c hc)
    exact digit.toNat_lt
  rw [decode, Bytes.ofString_eq_ofText]
  constructor
  · intro h
    split_ifs at h
    have spells := spells_of_decodePairs h
    rwa [map_charOf_ofText (ascii_of_map_charOf (ascii spells.isText))] at spells
  · intro h
    have view := map_charOf_ofText (ascii h.isText)
    have even : (Bytes.ofText s.toList).length % 2 ≠ 1 := by
      have := h.isText.1
      rw [← view, List.length_map] at this
      omega
    simp only [even, if_false]
    exact decodePairs_of_spells (view.symm ▸ h)

/-- Bytes are read back from what is written for them. -/
theorem decode_encodeString (bytes : Bytes) : decode (encodeString bytes) = .ok bytes := by
  rw [decode_eq_ok_iff, encodeString, String.toList_ofList]
  exact spells_encode bytes

end SolidityInlay.Hex
