import Mathlib.Algebra.Order.Ring.Int
import SolidityInlay.Proofs.Text
import SolidityInlay.Text.LineIndex

/-!
# Positions by walking

The position of an offset between two characters is reached by walking over the text before it: a
newline goes to the start of the next line, any other character goes on by its UTF-16 units. So no
position outgrows its text, and those in a text of less than `2 ^ 32` bytes are numbers of 32 bits.

Main definitions: `Position.advance`, `Position.after`, `Position.Fits`. Main statements:
`LineIndex.position_size`, `LineIndex.fits_position`.
-/

namespace SolidityInlay

namespace Text

theorem charUnits_pos (c : Char) : 0 < charUnits c := by
  unfold charUnits
  split <;> omega

/-- A character takes no more units than bytes. -/
theorem charUnits_le_utf8Size (c : Char) : charUnits c ≤ c.utf8Size := by
  have pos := c.utf8Size_pos
  unfold charUnits
  split
  · omega
  · rename_i wide
    have notSmall : c.utf8Size ≠ 1 := fun h => by
      have small := UInt32.le_iff_toNat_le.1 (Char.utf8Size_eq_one_iff.1 h)
      have : c.val.toNat = c.toNat := rfl
      simp at small
      omega
    omega

def units (text : Text) : Nat := (text.map charUnits).sum

/-! ## Covering -/

/-- The text has at least `n` bytes, and its last character begins before they are full. -/
structure Covers (text : Text) (n : Nat) : Prop where
  le_size : n ≤ text.size
  shortest : ∀ (front : Text) (c : Char), text = front ++ [c] → front.size < n

theorem covers_nil_iff {n : Nat} : Covers [] n ↔ n = 0 :=
  ⟨fun h => Nat.le_zero.1 h.le_size, fun h => ⟨by simp [h], by simp⟩⟩

theorem covers_cons_iff {c : Char} {cs : Text} {n : Nat} :
    Covers (c :: cs) n ↔ 0 < n ∧ Covers cs (n - c.utf8Size) := by
  constructor
  · intro h
    have pos : 0 < n := by
      rcases List.eq_nil_or_concat cs with rfl | ⟨front, d, rfl⟩
      · exact h.shortest [] c rfl
      · exact Nat.lt_of_le_of_lt (Nat.zero_le _) (h.shortest (c :: front) d (by simp))
    refine ⟨pos, ?_, ?_⟩
    · have := h.le_size
      rw [size_cons] at this
      omega
    · rintro front d rfl
      have := h.shortest (c :: front) d rfl
      rw [size_cons] at this
      omega
  · rintro ⟨pos, h⟩
    refine ⟨?_, ?_⟩
    · have := h.le_size
      rw [size_cons]
      omega
    · intro front d split
      rcases front with _ | ⟨e, front⟩
      · exact pos
      · obtain ⟨rfl, rfl⟩ := List.cons.inj split
        have := h.shortest front d rfl
        rw [size_cons]
        omega

theorem covers_size (text : Text) : text.Covers text.size := by
  refine ⟨Nat.le_refl _, ?_⟩
  rintro front c rfl
  have := c.utf8Size_pos
  simp
  omega

/-- A text that is long enough begins with one that covers the bytes. -/
theorem exists_covers {n : Nat} {text : Text} (h : n ≤ text.size) :
    ∃ before rest, text = before ++ rest ∧ before.Covers n := by
  induction text generalizing n with
  | nil => exact ⟨[], [], rfl, covers_nil_iff.2 (Nat.le_zero.1 h)⟩
  | cons c cs ih =>
    rcases Nat.eq_zero_or_pos n with rfl | pos
    · exact ⟨[], c :: cs, rfl, covers_nil_iff.2 rfl⟩
    · rw [size_cons] at h
      obtain ⟨before, rest, rfl, covers⟩ := @ih (n - c.utf8Size) (by omega)
      exact ⟨c :: before, rest, rfl, covers_cons_iff.2 ⟨pos, covers⟩⟩

/-- The units within the first bytes are those of the characters that begin there. -/
theorem unitsWithin_of_covers {a : Text} {n : Nat} (h : a.Covers n) (b : Text) :
    unitsWithin n (a ++ b) = a.units := by
  induction a generalizing n with
  | nil =>
    obtain rfl := covers_nil_iff.1 h
    simp [unitsWithin, units]
  | cons c cs ih =>
    obtain ⟨pos, rest⟩ := covers_cons_iff.1 h
    obtain ⟨n, rfl⟩ : ∃ k, n = k + 1 := ⟨n - 1, by omega⟩
    rw [List.cons_append, unitsWithin, ih rest]
    simp [units]

/-! ## Where lines start -/

theorem startsAfterNewlines_append (offset : Nat) (a b : Text) :
    startsAfterNewlines offset (a ++ b) =
      startsAfterNewlines offset a ++ startsAfterNewlines (offset + a.size) b := by
  induction a generalizing offset with
  | nil => simp [startsAfterNewlines]
  | cons c cs ih =>
    by_cases h : c = '\n'
    · subst h
      have : Char.utf8Size '\n' = 1 := by decide
      simp [startsAfterNewlines, ih, this, Nat.add_assoc]
    · simp [startsAfterNewlines, ih, h, Nat.add_assoc]

theorem startsAfterNewlines_of_not_mem {offset : Nat} {text : Text} (h : '\n' ∉ text) :
    startsAfterNewlines offset text = [] := by
  induction text generalizing offset with
  | nil => rfl
  | cons c cs ih =>
    simp only [List.mem_cons, not_or] at h
    simp [startsAfterNewlines, Ne.symm h.1, ih h.2]

/-- Lines start inside the text, and not at its front. -/
theorem mem_startsAfterNewlines {offset n : Nat} {text : Text}
    (h : n ∈ startsAfterNewlines offset text) : offset < n ∧ n ≤ offset + text.size := by
  induction text generalizing offset with
  | nil => simp [startsAfterNewlines] at h
  | cons c cs ih =>
    have pos := c.utf8Size_pos
    simp only [startsAfterNewlines] at h
    split at h
    · rcases List.mem_cons.1 h with rfl | h
      · simp
        omega
      · have := ih h
        simp
        omega
    · have := ih h
      simp
      omega

theorem length_startsAfterNewlines (offset : Nat) (text : Text) :
    (startsAfterNewlines offset text).length = text.count '\n' := by
  induction text generalizing offset with
  | nil => rfl
  | cons c cs ih => by_cases h : c = '\n' <;> simp [startsAfterNewlines, h, ih]

/-- A text is whole lines, perhaps none, and a last line that has not ended. -/
theorem exists_lastLine (text : Text) :
    ∃ head last : Text, text = head ++ last ∧ '\n' ∉ last ∧
      (head = [] ∨ ∃ lines, head = lines ++ ['\n']) := by
  induction text with
  | nil => exact ⟨[], [], rfl, by simp, .inl rfl⟩
  | cons c cs ih =>
    obtain ⟨head, last, rfl, single, ended⟩ := ih
    rcases ended with rfl | ⟨lines, rfl⟩
    · by_cases h : c = '\n'
      · exact ⟨['\n'], last, by simp [h], single, .inr ⟨[], rfl⟩⟩
      · exact ⟨[], c :: last, rfl, by simp [single, Ne.symm h], .inl rfl⟩
    · exact ⟨c :: lines ++ ['\n'], last, by simp, single, .inr ⟨c :: lines, rfl⟩⟩

end Text

/-! ## Walking -/

namespace Position

def advance (p : Position) (c : Char) : Position :=
  if c = '\n' then ⟨p.line + 1, 0⟩ else ⟨p.line, p.column + Text.charUnits c⟩

def after (p : Position) (text : Text) : Position := text.foldl advance p

@[simp] theorem after_nil (p : Position) : p.after [] = p := rfl

@[simp] theorem after_cons (p : Position) (c : Char) (cs : Text) :
    p.after (c :: cs) = (p.advance c).after cs := rfl

theorem after_append (p : Position) (a b : Text) : p.after (a ++ b) = (p.after a).after b := by
  simp [after]

/-- On one line the column goes on by the units of the text. -/
theorem after_of_not_mem (p : Position) {text : Text} (h : '\n' ∉ text) :
    p.after text = ⟨p.line, p.column + text.units⟩ := by
  induction text generalizing p with
  | nil => simp [Text.units]
  | cons c cs ih =>
    simp only [List.mem_cons, not_or] at h
    simp [ih _ h.2, advance, Ne.symm h.1, Text.units, Nat.add_assoc]

/-- The line goes on by the newlines of the text. -/
@[simp] theorem line_after (p : Position) (text : Text) :
    (p.after text).line = p.line + text.count '\n' := by
  induction text generalizing p with
  | nil => simp
  | cons c cs ih =>
    by_cases h : c = '\n'
    · simp [ih, advance, h]
      omega
    · simp [ih, advance, h]

/-- Within a line the columns count its units. -/
theorem after_line {head body : Text} (single : '\n' ∉ body)
    (ended : head = [] ∨ ∃ lines, head = lines ++ ['\n']) :
    (⟨0, 0⟩ : Position).after (head ++ body) = ⟨head.count '\n', body.units⟩ := by
  have walked : (⟨0, 0⟩ : Position).after head = ⟨head.count '\n', 0⟩ := by
    rcases ended with rfl | ⟨lines, rfl⟩
    · rfl
    · simp [after_append, advance]
  rw [after_append, walked, after_of_not_mem _ single, Nat.zero_add]

/-- Neither lines nor columns outgrow the text. -/
theorem line_add_column_after (p : Position) (text : Text) :
    (p.after text).line + (p.after text).column ≤ p.line + p.column + text.size := by
  induction text generalizing p with
  | nil => simp
  | cons c cs ih =>
    have pos := c.utf8Size_pos
    have units := Text.charUnits_le_utf8Size c
    have step := ih (p.advance c)
    rw [after_cons, Text.size_cons]
    unfold advance at *
    split at step <;> simp_all <;> omega

/-! ## The order of positions -/

def Before (p q : Position) : Prop := p.line < q.line ∨ p.line = q.line ∧ p.column < q.column

theorem before_advance (p : Position) (c : Char) : p.Before (p.advance c) := by
  have := Text.charUnits_pos c
  unfold advance Before
  split
  · simp
  · simp
    omega

theorem not_after_before (p : Position) (text : Text) : ¬ (p.after text).Before p := by
  induction text generalizing p with
  | nil => simp [Before]
  | cons c cs ih =>
    have step := p.before_advance c
    have rest := ih (p.advance c)
    simp only [after_cons, Before] at *
    omega

theorem before_after (p : Position) {text : Text} (h : text ≠ []) : p.Before (p.after text) := by
  cases text with
  | nil => exact absurd rfl h
  | cons c cs =>
    have step := p.before_advance c
    have rest := (p.advance c).not_after_before cs
    simp only [after_cons, Before] at *
    omega

end Position

/-! ## Line indices -/

namespace LineIndex

section

variable {head last : Text} (single : '\n' ∉ last)
  (ended : head = [] ∨ ∃ lines, head = lines ++ ['\n']) (rest : Text)

include single

theorem starts_ofText :
    (ofText (head ++ last ++ rest)).starts =
      0 :: head.startsAfterNewlines 0 ++ rest.startsAfterNewlines (head ++ last : Text).size := by
  simp [ofText, Text.startsAfterNewlines_append, Text.startsAfterNewlines_of_not_mem single]

/-- An offset on the current line is in the line that the newlines before it number. -/
theorem lineAt_ofText {offset : Nat} (lower : head.size ≤ offset)
    (upper : offset ≤ (head ++ last : Text).size) :
    (ofText (head ++ last ++ rest)).lineAt offset = head.count '\n' := by
  have beyond : (rest.startsAfterNewlines (head ++ last : Text).size).takeWhile
      (fun n => decide (n ≤ offset)) = [] := by
    cases h : rest.startsAfterNewlines (head ++ last : Text).size with
    | nil => rfl
    | cons n more =>
      have := Text.mem_startsAfterNewlines (h ▸ List.mem_cons_self : n ∈ _)
      rw [List.takeWhile_cons, decide_eq_false (by omega)]
      rfl
  rw [lineAt, starts_ofText single, List.takeWhile_append_of_pos, beyond]
  · simp [Text.length_startsAfterNewlines]
  · intro n hn
    rcases List.mem_cons.1 hn with rfl | hn
    · simp
    · have := Text.mem_startsAfterNewlines hn
      simp
      omega

include ended

theorem start_ofText :
    (ofText (head ++ last ++ rest)).starts[head.count '\n']? = some head.size := by
  rw [starts_ofText single]
  rcases ended with rfl | ⟨lines, rfl⟩
  · simp
  · have : Char.utf8Size '\n' = 1 := by decide
    have starts : (lines ++ ['\n'] : Text).startsAfterNewlines 0 =
        lines.startsAfterNewlines 0 ++ [lines.size + 1] := by
      simp [Text.startsAfterNewlines_append, Text.startsAfterNewlines]
    simp [starts, this, ← Text.length_startsAfterNewlines 0 lines]

end

/-- The position of an offset is reached by walking over the text that covers it. -/
theorem position_of_covers {before : Text} {offset : Nat} (h : before.Covers offset) (rest : Text) :
    (ofText (before ++ rest)).position offset = (⟨0, 0⟩ : Position).after before := by
  obtain ⟨head, last, rfl, single, ended⟩ := before.exists_lastLine
  have upper := h.le_size
  -- the last character begins before the offset, and a newline ends with it
  have lower : head.size ≤ offset := by
    rcases List.eq_nil_or_concat last with rfl | ⟨front, c, rfl⟩
    · rcases ended with rfl | ⟨lines, rfl⟩
      · exact Nat.zero_le _
      · have := h.shortest lines '\n' (by simp)
        have one : Char.utf8Size '\n' = 1 := by decide
        simp only [Text.size_append, Text.size_cons, Text.size_nil, one]
        omega
    · have := h.shortest (head ++ front) c (by simp)
      rw [Text.size_append] at this
      omega
  have covers : last.Covers (offset - head.size) := by
    refine ⟨?_, ?_⟩
    · rw [Text.size_append] at upper
      omega
    · rintro front c rfl
      have := h.shortest (head ++ front) c (by simp)
      rw [Text.size_append] at this
      omega
  have within : min offset (ofText (head ++ last ++ rest)).text.size = offset := by
    simp only [ofText, Text.size_append] at upper ⊢
    omega
  have line : (ofText (head ++ last ++ rest)).text = head ++ (last ++ rest) := by simp [ofText]
  rw [position, within, Position.after_line single ended]
  simp only [lineAt_ofText single rest lower upper, start_ofText single ended, line,
    Option.getD_some, Text.dropBytes_size_append, Text.unitsWithin_of_covers covers]

/-- The position of an offset between two characters is reached by walking over the text before it.
-/
theorem position_size (before rest : Text) :
    (ofText (before ++ rest)).position before.size = (⟨0, 0⟩ : Position).after before :=
  position_of_covers before.covers_size rest

/-- An offset past the end has the position of the end. -/
theorem position_min (text : Text) (offset : Nat) :
    (ofText text).position (min offset text.size) = (ofText text).position offset := by
  simp [position, ofText]

/-- Each newline and each unit before an offset takes a byte of the text. -/
theorem line_add_column_position (text : Text) (offset : Nat) :
    ((ofText text).position offset).line + ((ofText text).position offset).column ≤ text.size := by
  obtain ⟨before, rest, rfl, covers⟩ := Text.exists_covers (Nat.min_le_right offset text.size)
  have walked := Position.line_add_column_after ⟨0, 0⟩ before
  rw [← position_min, position_of_covers covers, Text.size_append]
  simp only at walked
  omega

end LineIndex

def Position.Fits (p : Position) : Prop := p.line < 2 ^ 32 ∧ p.column < 2 ^ 32

/-- Positions in a text of less than `2 ^ 32` bytes are numbers of 32 bits. -/
theorem LineIndex.fits_position {text : Text} (size : text.size < 2 ^ 32) (offset : Nat) :
    ((ofText text).position offset).Fits := by
  have le := line_add_column_position text offset
  constructor <;> omega

end SolidityInlay
