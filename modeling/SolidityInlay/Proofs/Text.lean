import SolidityInlay.Bytes.Basic

/-!
# Cutting texts at byte offsets

An offset between two characters splits a text in two, and a slice between two such offsets is what
stands there. The relation `Text.ReadsAt` says what a text reads at a span without any arithmetic on
characters; slices of texts and of their bytes are computed from it.

Main definitions: `Text.ReadsAt`, `Text.IsBoundary`, `Bytes.ofText`.
-/

namespace SolidityInlay

namespace Text

@[simp] theorem size_nil : size [] = 0 := rfl

@[simp] theorem size_cons (c : Char) (cs : Text) : size (c :: cs) = c.utf8Size + size cs := rfl

@[simp] theorem size_append (a b : Text) : size (a ++ b) = size a + size b := by
  induction a with
  | nil => simp
  | cons c cs ih => simp [ih, Nat.add_assoc]

theorem size_eq_zero {a : Text} : a.size = 0 ↔ a = [] := by
  cases a with
  | nil => simp
  | cons c cs =>
    have := c.utf8Size_pos
    simp
    omega

@[simp] theorem dropBytes_zero (a : Text) : dropBytes 0 a = a := by
  cases a <;> rfl

@[simp] theorem dropBytes_size_append (a b : Text) : dropBytes a.size (a ++ b) = b := by
  induction a with
  | nil => simp
  | cons c cs ih =>
    obtain ⟨n, hn⟩ : ∃ n, size (c :: cs) = n + 1 :=
      ⟨size (c :: cs) - 1, by have := c.utf8Size_pos; simp; omega⟩
    have rest : n + 1 - c.utf8Size = size cs := by simp at hn; omega
    rw [hn, List.cons_append, dropBytes, rest, ih]

@[simp] theorem takeBytes_zero (a : Text) : takeBytes 0 a = [] := by
  cases a with
  | nil => rfl
  | cons c cs =>
    have := c.utf8Size_pos
    simp [takeBytes]
    omega

@[simp] theorem takeBytes_size_append (a b : Text) : takeBytes a.size (a ++ b) = a := by
  induction a with
  | nil => simp
  | cons c cs ih =>
    have rest : size (c :: cs) - c.utf8Size = size cs := by simp
    rw [List.cons_append, takeBytes, if_pos (by simp), rest, ih]

theorem length_le_size (a : Text) : a.length ≤ a.size := by
  induction a with
  | nil => simp
  | cons c cs ih =>
    have := c.utf8Size_pos
    simp only [List.length_cons, size_cons]
    omega

theorem size_takeBytes_le (n : Nat) (a : Text) : (takeBytes n a).size ≤ n := by
  fun_induction takeBytes n a with
  | case1 => simp
  | case2 n c cs fits ih =>
    simp only [size_cons]
    omega
  | case3 => simp

theorem takeBytes_prefix (n : Nat) (a : Text) : takeBytes n a <+: a := by
  fun_induction takeBytes n a with
  | case1 => exact List.prefix_refl _
  | case2 n c cs fits ih => exact (List.prefix_cons_inj c).2 ih
  | case3 => exact List.nil_prefix

theorem head?_slice {text : Text} {span : Span} {c : Char} (h : (text.slice span).head? = some c) :
    (dropBytes span.start text).head? = some c := by
  rw [slice] at h
  obtain ⟨rest, whole⟩ := takeBytes_prefix (span.stop - span.start) (dropBytes span.start text)
  rw [← whole, List.head?_append, h]
  rfl

/-- A slice is no longer than its span. -/
theorem size_slice_le (a : Text) (span : Span) : (a.slice span).size ≤ span.stop - span.start :=
  size_takeBytes_le _ _

/-! ## What stands at a span -/

/-- `part` stands in the text at `span`, which begins and ends between characters. -/
def ReadsAt (text : Text) (span : Span) (part : Text) : Prop :=
  ∃ before after, text = before ++ part ++ after ∧
    before.size = span.start ∧ span.stop = span.start + part.size

/-- The offset is between two characters, or at an end of the text. -/
def IsBoundary (text : Text) (offset : Nat) : Prop :=
  ∃ before after, text = before ++ after ∧ before.size = offset

theorem IsBoundary.le_size {text : Text} {b : Nat} (h : text.IsBoundary b) : b ≤ text.size := by
  obtain ⟨before, after, rfl, rfl⟩ := h
  simp

theorem ReadsAt.slice {text : Text} {span : Span} {part : Text} (h : text.ReadsAt span part) :
    text.slice span = part := by
  obtain ⟨before, after, rfl, hs, he⟩ := h
  have len : span.stop - span.start = part.size := by omega
  rw [Text.slice, len, ← hs]
  simp

/-- A part of what stands at a span stands at the corresponding span. -/
theorem ReadsAt.within {text : Text} {span : Span} {p q r : Text}
    (h : text.ReadsAt span (p ++ q ++ r)) :
    text.ReadsAt ⟨span.start + p.size, span.start + p.size + q.size⟩ q := by
  obtain ⟨before, after, rfl, hs, _⟩ := h
  refine ⟨before ++ p, r ++ after, ?_, ?_, rfl⟩
  · simp
  · simp [hs]

/-- Two splits of a text, the first not behind the second. -/
theorem exists_of_append_eq_append {a b c d : Text} (h : a ++ b = c ++ d) (hs : a.size ≤ c.size) :
    ∃ mid, c = a ++ mid ∧ b = mid ++ d := by
  rcases List.append_eq_append_iff.1 h with ⟨mid, hc, hb⟩ | ⟨mid, ha, hd⟩
  · exact ⟨mid, hc, hb⟩
  · subst ha
    have : mid = [] := size_eq_zero.1 (by simp at hs; omega)
    subst this
    exact ⟨[], by simp, by simpa using hd.symm⟩

/-- Between two boundaries something stands. -/
theorem IsBoundary.readsAt {text : Text} {i j : Nat} (hi : text.IsBoundary i)
    (hj : text.IsBoundary j) (h : i ≤ j) : ∃ part, text.ReadsAt ⟨i, j⟩ part := by
  obtain ⟨a, b, rfl, rfl⟩ := hi
  obtain ⟨c, d, eq, rfl⟩ := hj
  obtain ⟨mid, rfl, rfl⟩ := exists_of_append_eq_append eq h
  exact ⟨mid, a, d, by simp, rfl, by simp⟩

/-- Between two boundaries stands the slice. -/
theorem IsBoundary.readsAt_slice {text : Text} {i j : Nat} (hi : text.IsBoundary i)
    (hj : text.IsBoundary j) (h : i ≤ j) : text.ReadsAt ⟨i, j⟩ (text.slice ⟨i, j⟩) := by
  obtain ⟨part, reads⟩ := hi.readsAt hj h
  rwa [reads.slice]

/-- An offset is a boundary exactly if the characters before it take as many bytes. -/
theorem isBoundary_iff {text : Text} {offset : Nat} :
    text.IsBoundary offset ↔ (takeBytes offset text).size = offset := by
  constructor
  · rintro ⟨before, after, rfl, rfl⟩
    simp
  · intro h
    obtain ⟨after, whole⟩ := takeBytes_prefix offset text
    exact ⟨takeBytes offset text, after, whole.symm, h⟩

instance (text : Text) (offset : Nat) : Decidable (text.IsBoundary offset) :=
  decidable_of_iff _ isBoundary_iff.symm

/-- The boundaries of what stands at a span are boundaries of the text. -/
theorem ReadsAt.isBoundary {text : Text} {span : Span} {part : Text} (h : text.ReadsAt span part)
    {i : Nat} (hi : text.IsBoundary (span.start + i)) (hle : i ≤ part.size) :
    part.IsBoundary i := by
  obtain ⟨before, after, rfl, hs, _⟩ := h
  obtain ⟨a, b, eq, ha⟩ := hi
  rw [List.append_assoc] at eq
  obtain ⟨mid, rfl, rest⟩ := exists_of_append_eq_append eq (by omega)
  obtain ⟨tail, rfl, _⟩ := exists_of_append_eq_append rest.symm (by simp at ha; omega)
  exact ⟨mid, tail, rfl, by simp at ha; omega⟩

/-- Slices between boundaries of what stands at a span are slices of the text. -/
theorem ReadsAt.slice_within {text : Text} {span : Span} {part : Text} (h : text.ReadsAt span part)
    {i j : Nat} (hi : part.IsBoundary i) (hj : part.IsBoundary j) (hij : i ≤ j) :
    text.slice ⟨span.start + i, span.start + j⟩ = part.slice ⟨i, j⟩ := by
  obtain ⟨mid, inner⟩ := hi.readsAt hj hij
  obtain ⟨p, r, rfl, rfl, hstop⟩ := inner
  rw [ReadsAt.slice ⟨p, r, rfl, rfl, hstop⟩]
  have outer := h.within
  simp only at hstop
  rw [hstop, ← Nat.add_assoc]
  exact outer.slice

end Text

/-! ## The bytes of texts -/

namespace Bytes

def ofText (text : Text) : Bytes := text.flatMap String.utf8EncodeChar

@[simp] theorem ofText_append (a b : Text) : ofText (a ++ b) = ofText a ++ ofText b := by
  simp [ofText]

@[simp] theorem length_ofText (text : Text) : (ofText text).length = text.size := by
  induction text with
  | nil => rfl
  | cons c cs ih =>
    rw [← List.singleton_append, ofText_append, List.length_append, ih]
    simp [ofText]

theorem utf8EncodeChar_of_lt {c : Char} (h : c.toNat < 0x80) :
    String.utf8EncodeChar c = [UInt8.ofNat c.toNat] := by
  have small : c.val.toNat ≤ 0x7f := Nat.le_of_lt_succ h
  simp only [String.utf8EncodeChar, small, if_true]
  rfl

/-- Every byte of a longer encoding has its highest bit set. -/
theorem le_toNat_of_mem_utf8EncodeChar {c : Char} (h : 0x80 ≤ c.toNat) {b : UInt8}
    (hb : b ∈ String.utf8EncodeChar c) : 0x80 ≤ b.toNat := by
  have large : ¬ c.val.toNat ≤ 0x7f := Nat.not_le_of_lt h
  have high (n : Nat) (low : 0x80 ≤ n) (high : n < 0x100) (eq : b = UInt8.ofNat n) :
      0x80 ≤ b.toNat := by
    subst eq
    simp
    omega
  unfold String.utf8EncodeChar at hb
  simp only [large, if_false] at hb
  split at hb
  · simp only [List.mem_cons, List.not_mem_nil, or_false] at hb
    rcases hb with hb | hb <;> exact high _ (by omega) (by omega) hb
  · split at hb <;> simp only [List.mem_cons, List.not_mem_nil, or_false] at hb
    · rcases hb with hb | hb | hb <;> exact high _ (by omega) (by omega) hb
    · rcases hb with hb | hb | hb | hb <;> exact high _ (by omega) (by omega) hb

theorem ofString_ofList (text : Text) : ofString (String.ofList text) = ofText text := by
  simp [ofString, ofText, List.utf8Encode]

theorem ofString_eq_ofText (s : String) : ofString s = ofText s.toList := by
  rw [← ofString_ofList, String.ofList_toList]

@[simp] theorem ofString_append (s t : String) : ofString (s ++ t) = ofString s ++ ofString t := by
  simp [ofString_eq_ofText]

@[simp] theorem length_ofString (s : String) : (ofString s).length = s.utf8ByteSize := by
  simp [ofString]

end Bytes

/-- Bytes within what stands at a span are bytes of the text. -/
theorem Text.ReadsAt.extract_ofText {text : Text} {span : Span} {part : Text}
    (h : text.ReadsAt span part) {i j : Nat} (hij : i ≤ j) (hj : j ≤ part.size) :
    (Bytes.ofText text).extract (span.start + i) (span.start + j) =
      (Bytes.ofText part).extract i j := by
  obtain ⟨before, after, rfl, hs, _⟩ := h
  have len : (Bytes.ofText before).length = span.start := by simp [hs]
  rw [List.extract_eq_take_drop, List.extract_eq_take_drop, Bytes.ofText_append,
    Bytes.ofText_append, List.append_assoc, ← len, List.drop_append,
    List.drop_eq_nil_of_le (by omega)]
  simp only [List.nil_append, Nat.add_sub_cancel_left, Nat.add_sub_add_left]
  rw [List.drop_append_of_le_length (by simp; omega),
    List.take_append_of_le_length (by simp; omega)]

theorem Text.size_toList (s : String) : Text.size s.toList = s.utf8ByteSize := by
  rw [← Bytes.length_ofText, ← Bytes.ofString_eq_ofText, Bytes.length_ofString]

end SolidityInlay
