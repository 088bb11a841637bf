import SolidityInlay.Proofs.LineIndex

/-!
# Offsets and positions determine each other

A line index turns an offset into a line and a column and back. What comes back is the first
boundary between characters from the offset on, so that on boundaries the two directions are
inverse. From a position one gets to the first boundary of its line that is not before its column,
or to the end of the line.

Main definitions: `Text.IsCeiling`, `Text.IsLine`, `LineIndex.Inverse`. Main statement:
`LineIndex.inverse_ofText`.
-/

namespace SolidityInlay

/-! ## The next boundary -/

namespace Text

/-- The first offset between characters that is not before the given one. -/
structure IsCeiling (text : Text) (offset b : Nat) : Prop where
  boundary : text.IsBoundary b
  le : offset ≤ b
  least : ∀ b', text.IsBoundary b' → offset ≤ b' → b ≤ b'

/-- The next boundary is where the text that covers the offset ends. -/
theorem Covers.isCeiling {before : Text} {n : Nat} (h : before.Covers n) (rest : Text) :
    (before ++ rest).IsCeiling n before.size := by
  refine ⟨⟨before, rest, rfl, rfl⟩, h.le_size, ?_⟩
  rintro _ ⟨front, back, split, rfl⟩ le
  apply Nat.le_of_not_lt
  intro lt
  obtain ⟨mid, rfl, _⟩ := exists_of_append_eq_append split.symm (Nat.le_of_lt lt)
  rcases List.eq_nil_or_concat mid with rfl | ⟨mid, c, rfl⟩
  · simp at lt
  · have := h.shortest (front ++ mid) c (by simp)
    rw [size_append] at this
    omega

theorem IsBoundary.isCeiling {text : Text} {b : Nat} (h : text.IsBoundary b) :
    text.IsCeiling b b :=
  ⟨h, Nat.le_refl b, fun _ _ le => le⟩

theorem IsCeiling.unique {text : Text} {offset b b' : Nat} (h : text.IsCeiling offset b)
    (h' : text.IsCeiling offset b') : b = b' :=
  Nat.le_antisymm (h.least b' h'.boundary h'.le) (h'.least b h.boundary h.le)

/-- A newline is one byte, so the text that covers an offset has the newlines before it. -/
theorem Covers.count_takeBytes {before : Text} {n : Nat} (h : before.Covers n) (rest : Text) :
    (takeBytes n (before ++ rest)).count '\n' = before.count '\n' := by
  induction before generalizing n with
  | nil =>
    obtain rfl := covers_nil_iff.1 h
    simp
  | cons c cs ih =>
    obtain ⟨pos, covers⟩ := covers_cons_iff.1 h
    rw [List.cons_append, takeBytes]
    split
    · rw [List.count_cons, List.count_cons, ih covers]
    · rename_i wide
      have none : n - c.utf8Size = 0 := by omega
      have last : cs = [] := by
        rcases List.eq_nil_or_concat cs with rfl | ⟨front, d, rfl⟩
        · rfl
        · have := covers.shortest front d (by simp)
          omega
      have other : c ≠ '\n' := by
        rintro rfl
        have one : Char.utf8Size '\n' = 1 := by decide
        omega
      simp [last, other]

/-! ## Lines -/

/-- The line of a number, without its newline, stands at the span: it begins at the start of the
text or right after a newline, and ends at the end of the text or right before a newline. -/
def IsLine (text : Text) (line : Nat) (span : Span) : Prop :=
  ∃ head body tail : Text, text = head ++ body ++ tail ∧
    span = ⟨head.size, head.size + body.size⟩ ∧ '\n' ∉ body ∧ head.count '\n' = line ∧
    (head = [] ∨ ∃ lines, head = lines ++ ['\n']) ∧ (tail = [] ∨ ∃ more, tail = '\n' :: more)

/-- Every number up to that of the newlines is the number of a line. -/
theorem exists_isLine {text : Text} {line : Nat} (h : line ≤ text.count '\n') :
    ∃ span, text.IsLine line span := by
  suffices ∃ head body tail : Text, text = head ++ body ++ tail ∧ '\n' ∉ body ∧
      head.count '\n' = line ∧ (head = [] ∨ ∃ lines, head = lines ++ ['\n']) ∧
      (tail = [] ∨ ∃ more, tail = '\n' :: more) by
    obtain ⟨head, body, tail, split, rest⟩ := this
    exact ⟨_, head, body, tail, split, rfl, rest⟩
  induction text generalizing line with
  | nil =>
    obtain rfl : line = 0 := by simpa using h
    exact ⟨[], [], [], rfl, by simp, rfl, .inl rfl, .inl rfl⟩
  | cons c cs ih =>
    by_cases newline : c = '\n'
    · subst newline
      cases line with
      | zero => exact ⟨[], [], '\n' :: cs, rfl, by simp, rfl, .inl rfl, .inr ⟨cs, rfl⟩⟩
      | succ line =>
        obtain ⟨head, body, tail, rfl, single, rfl, ended, closed⟩ := @ih line (by simpa using h)
        refine ⟨'\n' :: head, body, tail, rfl, single, by simp, .inr ?_, closed⟩
        rcases ended with rfl | ⟨lines, rfl⟩
        · exact ⟨[], rfl⟩
        · exact ⟨'\n' :: lines, rfl⟩
    · obtain ⟨head, body, tail, rfl, single, rfl, ended, closed⟩ :=
        @ih line (by simpa [newline] using h)
      rcases ended with rfl | ⟨lines, rfl⟩
      · refine ⟨[], c :: body, tail, rfl, ?_, rfl, .inl rfl, closed⟩
        simp [single, Ne.symm newline]
      · exact ⟨c :: (lines ++ ['\n']), body, tail, rfl, single, by simp [newline],
          .inr ⟨c :: lines, rfl⟩, closed⟩

/-- A text cut at a boundary of a line is cut inside the line. -/
theorem exists_front_of_count {head body tail : Text}
    (ended : head = [] ∨ ∃ lines, head = lines ++ ['\n'])
    (closed : tail = [] ∨ ∃ more, tail = '\n' :: more) {x y : Text}
    (split : head ++ body ++ tail = x ++ y) (same : x.count '\n' = head.count '\n') :
    ∃ front back, body = front ++ back ∧ x = head ++ front := by
  rw [List.append_assoc] at split
  rcases List.append_eq_append_iff.1 split with ⟨mid, rfl, rest⟩ | ⟨mid, rfl, rest⟩
  · rcases List.append_eq_append_iff.1 rest with ⟨m, rfl, behind⟩ | ⟨m, rfl, _⟩
    · -- what is cut off behind the line would begin with its newline
      rcases m with _ | ⟨c, m⟩
      · exact ⟨body, [], by simp, by simp⟩
      · rcases closed with rfl | ⟨more, rfl⟩
        · simp at behind
        · obtain ⟨rfl, _⟩ := List.cons.inj behind
          simp at same
    · exact ⟨mid, m, rfl, rfl⟩
  · rcases List.eq_nil_or_concat mid with rfl | ⟨m, c, rfl⟩
    · exact ⟨[], body, rfl, by simp⟩
    · -- what is cut off in front of the line would end with a newline
      rcases ended with nothing | ⟨lines, whole⟩
      · simp at nothing
      · have last : (x ++ m) ++ [c] = lines ++ ['\n'] := by simpa using whole
        obtain ⟨_, same_last⟩ := List.append_inj' last rfl
        obtain rfl : c = '\n' := by simpa using same_last
        simp at same

/-! ## Columns -/

theorem units_cons (c : Char) (cs : Text) : units (c :: cs) = charUnits c + units cs := by
  simp [units]

theorem bytesWithin_units_append (a b : Text) : bytesWithin a.units (a ++ b) = a.size := by
  induction a with
  | nil => simp [units, bytesWithin]
  | cons c cs ih =>
    have pos := charUnits_pos c
    obtain ⟨n, hn⟩ : ∃ n, units (c :: cs) = n + 1 :=
      ⟨units (c :: cs) - 1, by rw [units_cons]; omega⟩
    have rest : n + 1 - charUnits c = units cs := by
      rw [← hn, units_cons, Nat.add_sub_cancel_left]
    rw [hn, List.cons_append, bytesWithin, rest, ih, size_cons]

/-- As many bytes as the shortest beginning has whose units reach the column; all of them if none
does. -/
theorem exists_bytesWithin (column : Nat) (body : Text) :
    ∃ front back : Text, body = front ++ back ∧ bytesWithin column body = front.size ∧
      (column ≤ front.units ∨ back = []) ∧
      ∀ front' back' : Text, body = front' ++ back' → column ≤ front'.units →
        front.units ≤ front'.units := by
  induction body generalizing column with
  | nil =>
    refine ⟨[], [], rfl, ?_, .inr rfl, by simp [units]⟩
    cases column <;> rfl
  | cons c cs ih =>
    cases column with
    | zero => exact ⟨[], c :: cs, rfl, rfl, .inl (Nat.zero_le _), by simp [units]⟩
    | succ column =>
      obtain ⟨front, back, rfl, bytes, reaches, least⟩ := ih (column + 1 - charUnits c)
      refine ⟨c :: front, back, rfl, ?_, ?_, ?_⟩
      · rw [bytesWithin, bytes, size_cons]
      · rw [units_cons]
        exact reaches.imp_left fun reached => by omega
      · intro front' back' split reaches'
        rcases front' with _ | ⟨d, front'⟩
        · simp [units] at reaches'
        · obtain ⟨rfl, shorter⟩ := List.cons.inj split
          rw [units_cons] at reaches' ⊢
          have := least front' back' shorter (by omega)
          rw [units_cons]
          omega

end Text

/-! ## Line indices -/

namespace LineIndex

/-- A text has a line more than it has newlines. -/
theorem lineCount_ofText (text : Text) : (ofText text).lineCount = text.count '\n' + 1 := by
  simp [lineCount, ofText, Text.length_startsAfterNewlines]

theorem lineSpan?_eq_none_iff {index : LineIndex} {line : Nat} :
    index.lineSpan? line = none ↔ index.lineCount ≤ line := by
  simp [lineSpan?, lineCount]

/-- The index finds each line where it stands. -/
theorem lineSpan?_of_isLine {text : Text} {line : Nat} {span : Span} (h : text.IsLine line span) :
    (ofText text).lineSpan? line = some span := by
  obtain ⟨head, body, tail, rfl, rfl, single, rfl, ended, closed⟩ := h
  have first := start_ofText single ended tail
  have next : (ofText (head ++ body ++ tail)).starts[head.count '\n' + 1]? =
      (tail.startsAfterNewlines (head ++ body : Text).size)[0]? := by
    rw [starts_ofText single, List.getElem?_append_right]
    · simp [Text.length_startsAfterNewlines]
    · simp [Text.length_startsAfterNewlines]
  rw [lineSpan?, first, Option.map_some, next]
  rcases closed with rfl | ⟨more, rfl⟩
  · simp [Text.startsAfterNewlines, ofText]
  · simp [Text.startsAfterNewlines]

/-- A position on a line is found behind the beginning of the line whose units reach its column. -/
theorem offset?_of_line {head body tail : Text} (single : '\n' ∉ body)
    (ended : head = [] ∨ ∃ lines, head = lines ++ ['\n'])
    (closed : tail = [] ∨ ∃ more, tail = '\n' :: more) (column : Nat) :
    (ofText (head ++ body ++ tail)).offset? ⟨head.count '\n', column⟩ =
      some (head.size + body.bytesWithin column) := by
  have reads : (head ++ body ++ tail : Text).ReadsAt ⟨head.size, head.size + body.size⟩ body :=
    ⟨head, tail, rfl, rfl, rfl⟩
  rw [offset?, lineSpan?_of_isLine ⟨head, body, tail, rfl, rfl, single, rfl, ended, closed⟩,
    Option.map_some]
  exact congrArg (fun line => some (head.size + line.bytesWithin column)) reads.slice

def OnLine (index : LineIndex) (line b : Nat) : Prop :=
  index.text.IsBoundary b ∧ (index.position b).line = line

/-- A boundary on a line cuts the line into what is before and behind it. -/
theorem exists_front_of_onLine {head body tail : Text} (single : '\n' ∉ body)
    (ended : head = [] ∨ ∃ lines, head = lines ++ ['\n'])
    (closed : tail = [] ∨ ∃ more, tail = '\n' :: more) {b : Nat}
    (h : (ofText (head ++ body ++ tail)).OnLine (head.count '\n') b) :
    ∃ front back, body = front ++ back ∧
      ((ofText (head ++ body ++ tail)).position b).column = front.units := by
  obtain ⟨⟨x, y, split, rfl⟩, same⟩ := h
  change head ++ body ++ tail = x ++ y at split
  rw [split, position_size, Position.line_after, Nat.zero_add] at same
  obtain ⟨front, back, rfl, rfl⟩ := Text.exists_front_of_count ended closed split same
  refine ⟨front, back, rfl, ?_⟩
  have inside : '\n' ∉ front := fun mem => single (List.mem_append_left _ mem)
  rw [split, position_size, Position.after_line inside ended]

/-- The position after part of a line: its number and the units of that part. -/
theorem position_front {head front : Text} (single : '\n' ∉ front)
    (ended : head = [] ∨ ∃ lines, head = lines ++ ['\n']) (rest : Text) :
    (ofText (head ++ front ++ rest)).position (head.size + front.size) =
      ⟨head.count '\n', front.units⟩ := by
  rw [← Text.size_append, position_size, Position.after_line single ended]

/-- What the two directions of a line index have to do with each other. Offsets past the end count
as the end. -/
structure Inverse (index : LineIndex) : Prop where
  lineCount_eq : index.lineCount = index.text.count '\n' + 1
  /-- From the position of an offset the next boundary comes back. -/
  offset?_position (o : Nat) : ∃ b, index.text.IsCeiling (min o index.text.size) b ∧
    index.offset? (index.position o) = some b
  offset?_position_self {b : Nat} : index.text.IsBoundary b →
    index.offset? (index.position b) = some b
  strictMono {b b' : Nat} : index.text.IsBoundary b → index.text.IsBoundary b' → b < b' →
    (index.position b).Before (index.position b')
  mono {o o' : Nat} : o ≤ o' →
    index.position o = index.position o' ∨ (index.position o).Before (index.position o')
  line_eq (o : Nat) :
    (index.position o).line = (index.text.takeBytes (min o index.text.size)).count '\n'
  /-- The column counts the units from the start of the line up to the next boundary. -/
  column_eq {o b : Nat} : index.text.IsCeiling (min o index.text.size) b →
    ∃ span, index.text.IsLine (index.position o).line span ∧ span.start ≤ b ∧ b ≤ span.stop ∧
      (index.position o).column = (index.text.slice ⟨span.start, b⟩).units
  offset?_eq_none_iff (p : Position) : index.offset? p = none ↔ index.lineCount ≤ p.line
  /-- The offset of a position is on its line. It has the least column there that is not before the
  one asked for, or it is the end of the line if all columns are before that. -/
  offset?_eq_some {p : Position} {b : Nat} : index.offset? p = some b → index.OnLine p.line b ∧
    ((p.column ≤ (index.position b).column ∧ ∀ b', index.OnLine p.line b' →
        p.column ≤ (index.position b').column →
          (index.position b).column ≤ (index.position b').column) ∨
      ((∀ b', index.OnLine p.line b' → (index.position b').column < p.column) ∧
        ∃ start, index.text.IsLine p.line ⟨start, b⟩))

section

variable (text : Text)

/-- An offset and the text before the next boundary, which is on the line the offset is on. -/
theorem exists_walked (o : Nat) :
    ∃ head last more tail : Text, text = head ++ (last ++ more) ++ tail ∧
      (head ++ last).Covers (min o text.size) ∧ '\n' ∉ last ++ more ∧
      (head = [] ∨ ∃ lines, head = lines ++ ['\n']) ∧ (tail = [] ∨ ∃ more, tail = '\n' :: more) ∧
      (ofText text).position o = ⟨head.count '\n', last.units⟩ := by
  obtain ⟨before, rest, rfl, covers⟩ := Text.exists_covers (Nat.min_le_right o text.size)
  have clamped := (position_min (before ++ rest) o).symm
  rw [position_of_covers covers] at clamped
  obtain ⟨head, last, rfl, single, ended⟩ := before.exists_lastLine
  obtain ⟨more, tail, rfl, single', closed⟩ : ∃ more tail : Text, rest = more ++ tail ∧
      '\n' ∉ more ∧ (tail = [] ∨ ∃ more, tail = '\n' :: more) := by
    by_cases newline : '\n' ∈ rest
    · obtain ⟨more, tail, rfl, first⟩ := List.eq_append_cons_of_mem newline
      exact ⟨more, '\n' :: tail, rfl, first, .inr ⟨tail, rfl⟩⟩
    · exact ⟨rest, [], by simp, newline, .inl rfl⟩
  rw [Position.after_line single ended] at clamped
  refine ⟨head, last, more, tail, by simp, covers, ?_, ended, closed, clamped⟩
  simp [single, single']

/-- Later offsets have later positions or the same. -/
theorem position_eq_or_before {o o' : Nat} (le : o ≤ o') :
    (ofText text).position o = (ofText text).position o' ∨
      ((ofText text).position o).Before ((ofText text).position o') := by
  obtain ⟨before, rest, split, covers⟩ := Text.exists_covers (Nat.min_le_right o text.size)
  obtain ⟨before', rest', split', covers'⟩ := Text.exists_covers (Nat.min_le_right o' text.size)
  have walked {o : Nat} {before rest : Text} (split : text = before ++ rest)
      (covers : before.Covers (min o text.size)) :
      (ofText text).position o = (⟨0, 0⟩ : Position).after before := by
    rw [← position_of_covers covers rest, ← split]
    simp [position, ofText]
  have shorter : before.size ≤ before'.size := by
    have ceiling := covers.isCeiling rest
    have ceiling' := covers'.isCeiling rest'
    rw [← split] at ceiling
    rw [← split'] at ceiling'
    exact ceiling.least _ ceiling'.boundary (by have := ceiling'.le; omega)
  obtain ⟨mid, rfl, _⟩ := Text.exists_of_append_eq_append (split.symm.trans split') shorter
  rw [walked split covers, walked split' covers', Position.after_append]
  by_cases same : mid = []
  · exact .inl (by simp [same])
  · exact .inr (Position.before_after _ same)

/-- Different boundaries have different positions, in the order of the text. -/
theorem position_before {b b' : Nat} (h : text.IsBoundary b) (h' : text.IsBoundary b')
    (lt : b < b') : ((ofText text).position b).Before ((ofText text).position b') := by
  obtain ⟨x, y, rfl, rfl⟩ := h
  obtain ⟨x', y', split, rfl⟩ := h'
  obtain ⟨mid, rfl, rfl⟩ := Text.exists_of_append_eq_append split (Nat.le_of_lt lt)
  have proper : mid ≠ [] := by
    rintro rfl
    simp at lt
  have longer := position_size (x ++ mid) y'
  rw [List.append_assoc] at longer
  rw [position_size, longer, Position.after_append]
  exact Position.before_after _ proper

/-- Going to a position and back leads to the first boundary at or behind the offset. -/
theorem exists_offset?_position (o : Nat) : ∃ b, text.IsCeiling (min o text.size) b ∧
    (ofText text).offset? ((ofText text).position o) = some b := by
  obtain ⟨head, last, more, tail, rfl, covers, single, ended, closed, walked⟩ :=
    exists_walked text o
  refine ⟨(head ++ last : Text).size, ?_, ?_⟩
  · simpa using covers.isCeiling (more ++ tail)
  · rw [walked, offset?_of_line single ended closed, Text.bytesWithin_units_append,
      Text.size_append]

/-- Going to a position and back leads from a boundary to itself. -/
theorem offset?_position_of_isBoundary {b : Nat} (boundary : text.IsBoundary b) :
    (ofText text).offset? ((ofText text).position b) = some b := by
  obtain ⟨b', ceiling, found⟩ := exists_offset?_position text b
  rw [Nat.min_eq_left boundary.le_size] at ceiling
  rwa [ceiling.unique boundary.isCeiling] at found

/-- The line of an offset is the number of newlines before it. -/
theorem line_position (o : Nat) :
    ((ofText text).position o).line = (text.takeBytes (min o text.size)).count '\n' := by
  obtain ⟨head, last, more, tail, split, covers, single, ended, closed, walked⟩ :=
    exists_walked text o
  have newlines := covers.count_takeBytes (more ++ tail)
  have one : last.count '\n' = 0 := by
    rw [List.count_eq_zero]
    exact fun mem => single (List.mem_append_left _ mem)
  have whole : head ++ last ++ (more ++ tail) = text := by simp [split]
  rw [whole, List.count_append, one] at newlines
  rw [walked]
  exact newlines.symm

/-- The column of an offset is the number of units between the start of its line and the boundary at
or behind it. -/
theorem column_position {o b : Nat} (ceiling : text.IsCeiling (min o text.size) b) :
    ∃ span, text.IsLine ((ofText text).position o).line span ∧ span.start ≤ b ∧ b ≤ span.stop ∧
      ((ofText text).position o).column = (text.slice ⟨span.start, b⟩).units := by
  obtain ⟨head, last, more, tail, split, covers, single, ended, closed, walked⟩ :=
    exists_walked text o
  have whole : text = head ++ last ++ (more ++ tail) := by simp [split]
  have here := covers.isCeiling (more ++ tail)
  rw [← whole] at here
  obtain rfl := ceiling.unique here
  have reads : text.ReadsAt ⟨head.size, (head ++ last : Text).size⟩ last :=
    ⟨head, more ++ tail, whole, rfl, by simp⟩
  refine ⟨_, ⟨head, last ++ more, tail, split, rfl, single, ?_, ended, closed⟩, ?_, ?_, ?_⟩
  · rw [walked]
  · simp
  · simp only [Text.size_append]
    omega
  · rw [walked]
    exact congrArg Text.units reads.slice.symm

theorem line_le_of_offset? {p : Position} {b : Nat} (found : (ofText text).offset? p = some b) :
    p.line ≤ text.count '\n' := by
  have there : ¬ (ofText text).lineCount ≤ p.line := by
    rw [← lineSpan?_eq_none_iff]
    intro nothing
    simp [offset?, nothing] at found
  rw [lineCount_ofText] at there
  omega

/-- The line of a position that has an offset, cut at that offset: the part in front of it is the
shortest whose units reach the column, or the whole line. -/
theorem exists_cut_of_offset? {p : Position} {b : Nat}
    (found : (ofText text).offset? p = some b) :
    ∃ head front rest tail : Text, text = head ++ (front ++ rest) ++ tail ∧
      b = head.size + front.size ∧ p.line = head.count '\n' ∧ '\n' ∉ front ++ rest ∧
      (head = [] ∨ ∃ lines, head = lines ++ ['\n']) ∧ (tail = [] ∨ ∃ more, tail = '\n' :: more) ∧
      (p.column ≤ front.units ∨ rest = []) ∧
      ∀ front' back' : Text, front ++ rest = front' ++ back' → p.column ≤ front'.units →
        front.units ≤ front'.units := by
  obtain ⟨line, column⟩ := p
  obtain ⟨span, head, body, tail, rfl, rfl, single, rfl, ended, closed⟩ :=
    Text.exists_isLine (line_le_of_offset? text found)
  obtain ⟨front, rest, rfl, bytes, reaches, least⟩ := body.exists_bytesWithin column
  rw [offset?_of_line single ended closed, bytes, Option.some.injEq] at found
  exact ⟨head, front, rest, tail, rfl, found.symm, rfl, single, ended, closed, reaches, least⟩

/-- A position leads to a boundary on its line, with the least column not below its own, or to the
end of the line. -/
theorem onLine_of_offset? {p : Position} {b : Nat} (found : (ofText text).offset? p = some b) :
    (ofText text).OnLine p.line b ∧
      ((p.column ≤ ((ofText text).position b).column ∧ ∀ b', (ofText text).OnLine p.line b' →
          p.column ≤ ((ofText text).position b').column →
            ((ofText text).position b).column ≤ ((ofText text).position b').column) ∨
        ((∀ b', (ofText text).OnLine p.line b' → ((ofText text).position b').column < p.column) ∧
          ∃ start, text.IsLine p.line ⟨start, b⟩)) := by
  obtain ⟨head, front, rest, tail, rfl, rfl, line, single, ended, closed, reaches, least⟩ :=
    exists_cut_of_offset? text found
  have inside : '\n' ∉ front := fun mem => single (List.mem_append_left _ mem)
  have whole : head ++ front ++ (rest ++ tail) = head ++ (front ++ rest) ++ tail := by simp
  have walked := position_front inside ended (rest ++ tail)
  rw [whole] at walked
  rw [line, walked]
  refine ⟨⟨⟨head ++ front, rest ++ tail, whole.symm, by simp⟩, by rw [walked]⟩, ?_⟩
  by_cases enough : p.column ≤ front.units
  · refine .inl ⟨enough, ?_⟩
    intro b' onLine reached
    obtain ⟨front', back', split, same⟩ := exists_front_of_onLine single ended closed onLine
    rw [same] at reached ⊢
    exact least front' back' split reached
  · obtain rfl : rest = [] := reaches.resolve_left enough
    refine .inr ⟨?_, head.size, head, front ++ [], tail, rfl, by simp, single, rfl, ended, closed⟩
    intro b' onLine
    obtain ⟨front', back', split, same⟩ := exists_front_of_onLine single ended closed onLine
    rw [same]
    -- were its column reached there, it would be reached at the end of the line
    apply Nat.lt_of_not_le
    intro reached
    have longer : front'.units ≤ front.units := by
      rw [List.append_nil] at split
      simp [split, Text.units]
    exact enough (Nat.le_trans reached longer)

end

/-- Of every text, offsets and positions determine each other. -/
theorem inverse_ofText (text : Text) : (ofText text).Inverse where
  lineCount_eq := lineCount_ofText text
  offset?_position := exists_offset?_position text
  offset?_position_self := offset?_position_of_isBoundary text
  strictMono := position_before text
  mono := position_eq_or_before text
  line_eq := line_position text
  column_eq := column_position text
  offset?_eq_none_iff p := by rw [offset?, Option.map_eq_none_iff, lineSpan?_eq_none_iff]
  offset?_eq_some := onLine_of_offset? text

end LineIndex

end SolidityInlay
