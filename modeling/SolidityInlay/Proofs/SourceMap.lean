import SolidityInlay.Proofs.LineIndex
import SolidityInlay.Proofs.Mappings
import SolidityInlay.Proofs.Splice

/-!
# Source maps of transformed files are correct

The map of a transformed file, read by the rules of source maps, leads every character that was kept
back to its position in the original, and the start of every replacement back to its site. A marked
text is a list of marks with places; a line of the map is what the list has on that line.

Main definitions: `Marked.marks`, `SourceMap.active?`, `Rewriting.Mapped`.
-/

namespace SolidityInlay

/-! ## Marked text -/

namespace Marked

def chars : List Marked → Text
  | [] => []
  | .mark _ :: rest => chars rest
  | .char c :: rest => c :: chars rest

/-- The marks of a text that begins at a place: where each stands, and what it refers to. -/
def marks (place : Position) : List Marked → List (Position × Position)
  | [] => []
  | .mark source :: rest => (place, source) :: marks place rest
  | .char c :: rest => marks (place.advance c) rest

theorem chars_append (a b : List Marked) : chars (a ++ b) = chars a ++ chars b := by
  fun_induction chars a <;> simp_all [chars]

/-- The marks of two texts in turn: the second begins where the first ends. -/
theorem marks_append (place : Position) (a b : List Marked) :
    marks place (a ++ b) = marks place a ++ marks (place.after (chars a)) b := by
  fun_induction marks place a <;> simp_all [chars, marks]

@[simp] theorem chars_map_char (text : Text) : chars (text.map char) = text := by
  induction text with
  | nil => rfl
  | cons c cs ih => simp [chars, ih]

@[simp] theorem marks_map_char (place : Position) (text : Text) :
    marks place (text.map char) = [] := by
  induction text generalizing place with
  | nil => rfl
  | cons c cs ih => simp [marks, ih]

/-- A mark stands after some of the text, and is one of its marks. -/
theorem exists_of_mem_marks {place q source : Position} {ms : List Marked}
    (h : (q, source) ∈ marks place ms) :
    (∃ u v, chars ms = u ++ v ∧ q = place.after u) ∧ mark source ∈ ms := by
  fun_induction marks place ms with
  | case1 => simp at h
  | case2 place s rest ih =>
    rcases List.mem_cons.1 h with h | h
    · cases h
      exact ⟨⟨[], chars rest, rfl, rfl⟩, by simp⟩
    · obtain ⟨walked, hm⟩ := ih h
      exact ⟨walked, by simp [hm]⟩
  | case3 place c rest ih =>
    obtain ⟨⟨u, v, hchars, rfl⟩, hm⟩ := ih h
    exact ⟨⟨c :: u, v, by simp [chars, hchars], rfl⟩, by simp [hm]⟩

theorem not_before_of_mem_marks {place : Position} {ms : List Marked} {e : Position × Position}
    (h : e ∈ marks place ms) : ¬ e.1.Before place := by
  obtain ⟨⟨u, v, _, hq⟩, _⟩ := exists_of_mem_marks h
  rw [hq]
  exact place.not_after_before u

theorem not_after_of_mem_marks {place : Position} {ms : List Marked} {e : Position × Position}
    (h : e ∈ marks place ms) : ¬ (place.after (chars ms)).Before e.1 := by
  obtain ⟨⟨u, v, hchars, hq⟩, _⟩ := exists_of_mem_marks h
  rw [hq, hchars, Position.after_append]
  exact (place.after u).not_after_before v

/-! ## Lines of mappings -/

def onLine (line : Nat) (marks : List (Position × Position)) : List Mapping :=
  marks.filterMap fun m => if m.1.line = line then some ⟨m.1.column, m.2⟩ else none

theorem mem_onLine {line : Nat} {marks : List (Position × Position)} {m : Mapping} :
    m ∈ onLine line marks ↔ (⟨line, m.column⟩, m.source) ∈ marks := by
  simp only [onLine, List.mem_filterMap, Option.ite_none_right_eq_some, Option.some.injEq]
  constructor
  · rintro ⟨⟨⟨l, k⟩, s⟩, h, rfl, rfl⟩
    exact h
  · exact fun h => ⟨_, h, rfl, rfl⟩

theorem onLine_append (line : Nat) (a b : List (Position × Position)) :
    onLine line (a ++ b) = onLine line a ++ onLine line b := by
  simp [onLine]

theorem onLine_cons_same (line column : Nat) (source : Position)
    (rest : List (Position × Position)) :
    onLine line ((⟨line, column⟩, source) :: rest) = ⟨column, source⟩ :: onLine line rest := by
  simp [onLine]

theorem onLine_cons_of_ne {line : Nat} {e : Position × Position} (h : e.1.line ≠ line)
    (rest : List (Position × Position)) : onLine line (e :: rest) = onLine line rest := by
  simp [onLine, h]

theorem onLine_marks_of_lt {line : Nat} {place : Position} (h : line < place.line)
    (ms : List Marked) : onLine line (marks place ms) = [] := by
  rw [List.eq_nil_iff_forall_not_mem]
  intro m hm
  have := not_before_of_mem_marks (mem_onLine.1 hm)
  simp [Position.Before] at this
  omega

/-- Each line of mappings is what the marks have on it. -/
theorem lines_eq (place : Position) (ms : List Marked) :
    Mapping.lines place.column ms =
      (List.range ((chars ms).count '\n' + 1)).map fun i =>
        onLine (place.line + i) (marks place ms) := by
  fun_induction marks place ms with
  | case1 place => simp [Mapping.lines, chars, onLine]
  | case2 place source rest ih =>
    have later (i : Nat) : onLine (place.line + (i + 1)) ((place, source) :: marks place rest) =
        onLine (place.line + (i + 1)) (marks place rest) :=
      onLine_cons_of_ne (by simp) _
    rw [Mapping.lines, ih, chars, List.range_succ_eq_map]
    simp [Mapping.push, Function.comp_def, later, onLine_cons_same place.line place.column]
  | case3 place c rest ih =>
    rw [Mapping.lines]
    by_cases h : c = '\n'
    · have next : place.advance c = ⟨place.line + 1, 0⟩ := by simp [Position.advance, h]
      rw [next] at ih ⊢
      have first := onLine_marks_of_lt (show place.line < (⟨place.line + 1, 0⟩ : Position).line by
        simp) rest
      simp only [h, beq_self_eq_true, if_true, ih, chars, List.count_cons_self,
        List.range_succ_eq_map (n := List.count '\n' (chars rest) + 1)]
      simp [Function.comp_def, first, Nat.add_assoc, Nat.add_comm 1]
    · have next : place.advance c = ⟨place.line, place.column + Text.charUnits c⟩ := by
        simp [Position.advance, h]
      rw [next] at ih ⊢
      simp [h, ih, chars]

/-! ## Copied text -/

/-- The mark at the front of copied text, if there is one. -/
def opening (index : LineIndex) (fresh : Bool) (offset : Nat) : List Marked :=
  if fresh then [mark (index.position offset)] else []

theorem copied_cons (index : LineIndex) (fresh : Bool) (offset : Nat) (c : Char) (cs : Text) :
    copied index fresh offset (c :: cs) = opening index fresh offset ++
      char c :: copied index (c == '\n') (offset + c.utf8Size) cs := by
  cases fresh <;> rfl

@[simp] theorem chars_opening (index : LineIndex) (fresh : Bool) (offset : Nat) :
    chars (opening index fresh offset) = [] := by
  cases fresh <;> rfl

@[simp] theorem chars_copied (index : LineIndex) (fresh : Bool) (offset : Nat) (text : Text) :
    chars (copied index fresh offset text) = text := by
  induction text generalizing fresh offset with
  | nil => rfl
  | cons c cs ih => cases fresh <;> simp [copied, chars, ih]

/-- A mark in copied text refers to where the text behind it comes from. -/
theorem exists_of_mem_copied {index : LineIndex} {fresh : Bool} {offset : Nat} {text : Text}
    {source : Position} (h : mark source ∈ copied index fresh offset text) :
    ∃ u v, text = u ++ v ∧ source = index.position (offset + Text.size u) := by
  induction text generalizing fresh offset with
  | nil => simp [copied] at h
  | cons c cs ih =>
    have here : mark source ∈ copied index (c == '\n') (offset + c.utf8Size) cs ∨
        source = index.position offset := by
      cases fresh
      · exact .inl (by simpa [copied] using h)
      · simpa [copied, or_comm] using h
    rcases here with h | rfl
    · obtain ⟨u, v, rfl, rfl⟩ := ih h
      exact ⟨c :: u, v, rfl, by simp [Nat.add_assoc]⟩
    · exact ⟨[], c :: cs, rfl, by simp⟩

/-- The last mark is on the line of a generated position and as far from it as what it refers to is
from a source position. -/
def Aligned (marks : List (Position × Position)) (generated source : Position) : Prop :=
  ∃ column, ∃ origin : Position, ∃ distance,
    marks.getLast? = some (⟨generated.line, column⟩, origin) ∧
    generated.column = column + distance ∧ source = ⟨origin.line, origin.column + distance⟩

theorem aligned_snoc (marks : List (Position × Position)) (generated source : Position) :
    Aligned (marks ++ [(generated, source)]) generated source :=
  ⟨generated.column, source, 0, by simp, rfl, rfl⟩

/-- Marks stay aligned as the text goes on along a line. -/
theorem Aligned.advance {marks : List (Position × Position)} {generated source : Position}
    (h : Aligned marks generated source) {c : Char} (hc : c ≠ '\n') :
    Aligned marks (generated.advance c) (source.advance c) := by
  obtain ⟨column, origin, distance, last, hg, rfl⟩ := h
  refine ⟨column, origin, distance + Text.charUnits c, ?_, ?_, ?_⟩
  · simpa [Position.advance, hc] using last
  · simp only [Position.advance, if_neg hc]
    omega
  · simp [Position.advance, hc, Nat.add_assoc]

/-- At the front of a line of copied text the marks are aligned. -/
theorem aligned_opening {text : Text} {fresh : Bool} (before rest : Text)
    (htext : text = before ++ rest) {earlier : List (Position × Position)} {generated : Position}
    (start : fresh = true ∨ Aligned earlier generated ((⟨0, 0⟩ : Position).after before)) :
    Aligned (earlier ++ marks generated (opening (.ofText text) fresh before.size)) generated
      ((⟨0, 0⟩ : Position).after before) := by
  have here : (LineIndex.ofText text).position before.size = (⟨0, 0⟩ : Position).after before := by
    rw [htext, LineIndex.position_size]
  cases fresh with
  | true => simpa [opening, marks, here] using aligned_snoc earlier generated _
  | false => simpa [opening, marks] using start

/-- In front of every copied character, the marks are aligned with its position. The front of the
text is marked if `fresh`; otherwise marks that came before are aligned. -/
theorem exists_copied_split {text : Text} {fresh : Bool} (before a : Text) (c : Char)
    (b rest : Text) (htext : text = before ++ (a ++ c :: b) ++ rest)
    (earlier : List (Position × Position)) (generated : Position)
    (start : fresh = true ∨ Aligned earlier generated ((⟨0, 0⟩ : Position).after before)) :
    ∃ front back, copied (.ofText text) fresh before.size (a ++ c :: b) =
        front ++ char c :: back ∧ chars front = a ∧
      Aligned (earlier ++ marks generated front) (generated.after a)
        ((⟨0, 0⟩ : Position).after (before ++ a)) := by
  have aligned := aligned_opening before _ (htext.trans (List.append_assoc ..)) start
  induction a generalizing fresh before earlier generated with
  | nil => exact ⟨_, _, copied_cons .., chars_opening .., by simpa using aligned⟩
  | cons d a ih =>
    let opened := earlier ++ marks generated (opening (.ofText text) fresh before.size)
    have next : (d == '\n') = true ∨ Aligned opened (generated.advance d)
        ((⟨0, 0⟩ : Position).after (before ++ [d])) := by
      by_cases hd : d = '\n'
      · exact .inl (by simp [hd])
      · exact .inr (by simpa [Position.after_append] using aligned.advance hd)
    have htext' : text = before ++ [d] ++ (a ++ c :: b) ++ rest := by simp [htext]
    obtain ⟨front, back, split, hfront, last⟩ := ih (before ++ [d]) htext' opened _ next
      (aligned_opening _ _ (htext'.trans (List.append_assoc ..)) next)
    have size : (before ++ [d] : Text).size = before.size + d.utf8Size := by simp
    refine ⟨opening (.ofText text) fresh before.size ++ char d :: front, back, ?_, ?_, ?_⟩
    · rw [List.cons_append, copied_cons, ← size, split, List.append_assoc, List.cons_append]
    · rw [chars_append, chars_opening, List.nil_append, chars, hfront]
    · simpa [opened, marks_append, marks, List.append_assoc] using last

/-- A mark of copied text stands in front of one of its characters. -/
theorem exists_of_mem_marks_copied {index : LineIndex} {fresh : Bool} {offset : Nat} {text : Text}
    {place : Position} {e : Position × Position}
    (h : e ∈ marks place (copied index fresh offset text)) :
    ∃ u d v, text = u ++ d :: v ∧ e.1 = place.after u := by
  induction text generalizing fresh offset place with
  | nil => simp [copied, marks] at h
  | cons c cs ih =>
    rw [copied_cons, marks_append, List.mem_append, chars_opening] at h
    rcases h with h | h
    · refine ⟨[], c, cs, rfl, ?_⟩
      cases fresh
      · simp [opening, marks] at h
      · simp_all [opening, marks]
    · obtain ⟨u, d, v, rfl, he⟩ := ih h
      exact ⟨c :: u, d, v, rfl, he⟩

/-! ## Chunks -/

@[simp] theorem chars_ofChunk (index : LineIndex) (c : Chunk) :
    chars (ofChunk index c) = c.text := by
  cases c <;> simp [ofChunk, chars, Chunk.text]

/-- Without its marks, marked text is the generated code. -/
@[simp] theorem chars_flatMap_ofChunk (index : LineIndex) (chunks : List Chunk) :
    chars (chunks.flatMap (ofChunk index)) = Chunk.code chunks := by
  induction chunks with
  | nil => rfl
  | cons c rest ih => simp [chars_append, Chunk.code, ih]

/-- What a mark of proper chunks refers to lies between two characters. -/
theorem exists_boundary_of_mem {text : Text} {index : LineIndex} {chunks : List Chunk}
    (stands : ∀ c ∈ chunks, c.StandsIn text) {source : Position}
    (h : mark source ∈ chunks.flatMap (ofChunk index)) :
    ∃ offset, text.IsBoundary offset ∧ source = index.position offset := by
  obtain ⟨chunk, hc, h⟩ := List.mem_flatMap.1 h
  have proper := stands chunk hc
  cases chunk with
  | unmapped part => simp [ofChunk] at h
  | replacement part offset =>
    have : source = index.position offset := by simpa [ofChunk] using h
    exact ⟨offset, proper, this⟩
  | copied part offset =>
    obtain ⟨u, v, rfl, rfl⟩ := exists_of_mem_copied h
    obtain ⟨before, rest, htext, hstart, _⟩ := proper
    refine ⟨_, ⟨before ++ u, v ++ rest, ?_, ?_⟩, rfl⟩
    · simp [htext]
    · simpa using hstart

end Marked

/-! ## Tagged chunks and marked text -/

theorem exists_of_flatMap_eq {α β : Type} {f : α → List β} {l : List α} {x z : List β} {y : β}
    (h : l.flatMap f = x ++ y :: z) :
    ∃ l₁ a l₂ u v, l = l₁ ++ a :: l₂ ∧ f a = u ++ y :: v ∧ x = l₁.flatMap f ++ u := by
  induction l generalizing x with
  | nil => simp at h
  | cons b l ih =>
    rw [List.flatMap_cons] at h
    rcases List.append_eq_append_iff.1 h with ⟨more, rfl, hl⟩ | ⟨more, hb, hl⟩
    · obtain ⟨l₁, a, l₂, u, v, rfl, ha, rfl⟩ := ih hl
      exact ⟨b :: l₁, a, l₂, u, v, rfl, ha, by simp⟩
    · cases more with
      | nil =>
        obtain ⟨l₁, a, l₂, u, v, rfl, ha, hx⟩ := ih (show l.flatMap f = [] ++ y :: z from hl.symm)
        refine ⟨b :: l₁, a, l₂, u, v, rfl, ha, ?_⟩
        rw [List.flatMap_cons, List.append_assoc, ← hx, hb, List.append_nil, List.append_nil]
      | cons y' more =>
        obtain ⟨rfl, rfl⟩ := List.cons.inj hl
        exact ⟨[], b, l, x, more, rfl, hb, by simp⟩

theorem exists_of_keptFrom_eq {offset o : Nat} {text : Text} {u v : List (Char × CharSource)}
    {c : Char} (h : keptFrom offset text = u ++ (c, .kept o) :: v) :
    ∃ a b, text = a ++ c :: b ∧ u.map Prod.fst = a ∧ o = offset + Text.size a := by
  induction text generalizing offset u with
  | nil => simp [keptFrom] at h
  | cons d cs ih =>
    cases u with
    | nil =>
      simp only [keptFrom, List.nil_append, List.cons.injEq, Prod.mk.injEq,
        CharSource.kept.injEq] at h
      obtain ⟨⟨rfl, rfl⟩, _⟩ := h
      exact ⟨[], cs, rfl, rfl, rfl⟩
    | cons head u =>
      simp only [keptFrom, List.cons_append, List.cons.injEq] at h
      obtain ⟨rfl, h⟩ := h
      obtain ⟨a, b, rfl, rfl, rfl⟩ := ih h
      exact ⟨d :: u.map Prod.fst, b, rfl, rfl, by simp [Nat.add_assoc]⟩

/-- In front of a character that was kept, the marks are aligned with its position. -/
theorem Chunk.exists_kept_split {text : Text} {chunks : List Chunk}
    (stands : ∀ c ∈ chunks, c.StandsIn text) {before rest : List (Char × CharSource)} {c : Char}
    {offset : Nat} (h : chunks.flatMap tagged = before ++ (c, .kept offset) :: rest) :
    ∃ front back, chunks.flatMap (Marked.ofChunk (.ofText text)) = front ++ .char c :: back ∧
      Marked.chars front = before.map Prod.fst ∧
      Marked.Aligned (Marked.marks ⟨0, 0⟩ front)
        ((⟨0, 0⟩ : Position).after (before.map Prod.fst))
        ((LineIndex.ofText text).position offset) := by
  obtain ⟨earlier, chunk, later, u, v, rfl, htags, rfl⟩ := exists_of_flatMap_eq h
  have proper := stands chunk (by simp)
  cases chunk with
  | unmapped part =>
    have : (c, CharSource.kept offset) ∈ taggedWith .added part := by
      rw [show taggedWith .added part = _ from htags]
      simp
    simp [taggedWith] at this
  | replacement part start =>
    have : (c, CharSource.kept offset) ∈ taggedWith (.replaced start) part := by
      rw [show taggedWith (.replaced start) part = _ from htags]
      simp
    simp [taggedWith] at this
  | copied part start =>
    obtain ⟨a, b, rfl, hu, rfl⟩ := exists_of_keptFrom_eq htags
    obtain ⟨pre, post, htext, rfl, _⟩ := proper
    obtain ⟨front, back, split, hfront, aligned⟩ := Marked.exists_copied_split
      pre a c b post htext
      (Marked.marks ⟨0, 0⟩ (earlier.flatMap (Marked.ofChunk (.ofText text))))
      ((⟨0, 0⟩ : Position).after (code earlier)) (.inl rfl)
    have chars : (earlier.flatMap tagged ++ u).map Prod.fst = code earlier ++ a := by
      rw [List.map_append, map_fst_flatMap_tagged, hu]
    refine ⟨earlier.flatMap (Marked.ofChunk (.ofText text)) ++ front,
      back ++ later.flatMap (Marked.ofChunk (.ofText text)), ?_, ?_, ?_⟩
    · simp [Marked.ofChunk, split]
    · rw [chars, Marked.chars_append, Marked.chars_flatMap_ofChunk, hfront]
    · have here : (LineIndex.ofText text).position (pre.size + Text.size a) =
          (⟨0, 0⟩ : Position).after (pre ++ a) := by
        rw [htext, ← Text.size_append, ← LineIndex.position_size (pre ++ a) (c :: b ++ post)]
        simp
      rw [chars, Marked.marks_append, Marked.chars_flatMap_ofChunk, Position.after_append, here]
      exact aligned

/-! ## Entries -/

namespace SourceMap

/-- The last entry on a line at or before a column. -/
def active? (lines : List (List Entry)) (p : Position) : Option Entry :=
  ((lines[p.line]?.getD []).filter fun e => e.column ≤ p.column).getLast?

def Entry.shifted (e : Entry) (column : Nat) : Position :=
  ⟨e.position.line, e.position.column + (column - e.column)⟩

def entryLines (ms : List Marked) : List (List Entry) :=
  (Mapping.lines 0 ms).map (·.map .ofMapping)

theorem entryLines_eq (ms : List Marked) :
    entryLines ms = (List.range ((Marked.chars ms).count '\n' + 1)).map fun i =>
      (Marked.onLine i (Marked.marks ⟨0, 0⟩ ms)).map .ofMapping := by
  have lines := Marked.lines_eq ⟨0, 0⟩ ms
  simp only [Nat.zero_add] at lines
  rw [entryLines, lines, List.map_map]
  rfl

theorem length_entryLines (ms : List Marked) :
    (entryLines ms).length = (Marked.chars ms).count '\n' + 1 := by
  simp [entryLines_eq]

/-- The entries of a line are the marks on it. -/
theorem getElem?_entryLines {ms : List Marked} {i : Nat} (h : i ≤ (Marked.chars ms).count '\n') :
    (entryLines ms)[i]? = some ((Marked.onLine i (Marked.marks ⟨0, 0⟩ ms)).map .ofMapping) := by
  simp [entryLines_eq, Nat.lt_succ_of_le h]

theorem exists_mark_of_mem {ms : List Marked} {i : Nat} {line : List Entry}
    (h : (entryLines ms)[i]? = some line) {e : Entry} (he : e ∈ line) :
    (⟨i, e.column⟩, e.position) ∈ Marked.marks ⟨0, 0⟩ ms := by
  have bound : i ≤ (Marked.chars ms).count '\n' := by
    have := (List.getElem?_eq_some_iff.1 h).1
    rw [length_entryLines] at this
    omega
  rw [getElem?_entryLines bound, Option.some.injEq] at h
  rw [← h, List.mem_map] at he
  obtain ⟨m, hm, rfl⟩ := he
  exact Marked.mem_onLine.1 hm

/-- Marks of what comes later are out of sight. -/
theorem filter_onLine_eq_nil {g p : Position} (h : g.Before p) (ms : List Marked) :
    (Marked.onLine g.line (Marked.marks p ms)).filter (fun m => m.column ≤ g.column) = [] := by
  rw [List.filter_eq_nil_iff]
  intro m hm
  have beyond := Marked.not_before_of_mem_marks (Marked.mem_onLine.1 hm)
  simp only [Position.Before] at h beyond
  simp only [decide_eq_true_eq]
  omega

/-- The active entry is that of the last mark at or before a column. -/
theorem active?_entryLines {ms : List Marked} {g : Position}
    (h : g.line ≤ (Marked.chars ms).count '\n') :
    active? (entryLines ms) g =
      ((Marked.onLine g.line (Marked.marks ⟨0, 0⟩ ms)).filter
        fun m => m.column ≤ g.column).getLast?.map .ofMapping := by
  rw [active?, getElem?_entryLines h, Option.getD_some, List.filter_map, List.getLast?_map]
  rfl

/-- Where the marks before a character are aligned, the active entry gives its position. -/
theorem exists_active {front back : List Marked} {c : Char} {source : Position}
    (aligned : Marked.Aligned (Marked.marks ⟨0, 0⟩ front)
      ((⟨0, 0⟩ : Position).after (Marked.chars front)) source) :
    ∃ e, active? (entryLines (front ++ .char c :: back))
        ((⟨0, 0⟩ : Position).after (Marked.chars front)) = some e ∧
      e.source = 0 ∧
      e.shifted ((⟨0, 0⟩ : Position).after (Marked.chars front)).column = source := by
  generalize hplace : (⟨0, 0⟩ : Position).after (Marked.chars front) = g at aligned ⊢
  obtain ⟨column, origin, distance, last, hg, rfl⟩ := aligned
  refine ⟨⟨column, 0, origin⟩, ?_, rfl, ?_⟩
  · obtain ⟨earlier, hfront⟩ := List.getLast?_eq_some_iff.1 last
    have bound : g.line ≤ (Marked.chars (front ++ .char c :: back)).count '\n' := by
      simp [← hplace, Marked.chars_append]
    rw [active?_entryLines bound, Marked.marks_append, hplace, hfront, Marked.onLine_append,
      Marked.onLine_append, List.filter_append, List.filter_append]
    simp only [Marked.marks, filter_onLine_eq_nil (g.before_advance c), Marked.onLine_cons_same]
    simp [Marked.onLine, hg, Entry.ofMapping]
  · simp only [Entry.shifted, hg, Nat.add_sub_cancel_left]

/-- Texts of less than `2 ^ 32` bytes are mapped with numbers of 32 bits. -/
theorem fits_lines {text : Text} {chunks : List Chunk} (stands : ∀ c ∈ chunks, c.StandsIn text)
    (hcode : Text.size (Chunk.code chunks) < 2 ^ 32) (htext : text.size < 2 ^ 32) :
    ∀ line ∈ Mapping.lines 0 (chunks.flatMap (Marked.ofChunk (.ofText text))), ∀ m ∈ line,
      m.Fits := by
  intro line hline m hm
  have lines := Marked.lines_eq ⟨0, 0⟩ (chunks.flatMap (Marked.ofChunk (.ofText text)))
  rw [lines, List.mem_map] at hline
  obtain ⟨i, _, rfl⟩ := hline
  obtain ⟨⟨u, v, hchars, hplace⟩, hmark⟩ := Marked.exists_of_mem_marks (Marked.mem_onLine.1 hm)
  obtain ⟨offset, _, hsource⟩ := Marked.exists_boundary_of_mem stands hmark
  have near := Position.line_add_column_after ⟨0, 0⟩ u
  rw [← hplace] at near
  rw [Marked.chars_flatMap_ofChunk] at hchars
  rw [hchars, Text.size_append] at hcode
  refine ⟨?_, ?_⟩
  · simp only at near
    omega
  · rw [hsource]
    exact LineIndex.fits_position htext offset

/-- In texts of less than `2 ^ 32` bytes every number of an entry has 32 bits. -/
theorem fits_entryLines {text : Text} {chunks : List Chunk}
    (stands : ∀ c ∈ chunks, c.StandsIn text) (hcode : Text.size (Chunk.code chunks) < 2 ^ 32)
    (htext : text.size < 2 ^ 32) :
    ∀ line ∈ entryLines (chunks.flatMap (Marked.ofChunk (.ofText text))), ∀ e ∈ line, e.Fits := by
  intro line hline e he
  obtain ⟨mappings, hmappings, rfl⟩ := List.mem_map.1 hline
  obtain ⟨m, hm, rfl⟩ := List.mem_map.1 he
  exact fits_lines stands hcode htext mappings hmappings m hm

/-- The mappings of proper chunks are read back, if both texts have less than `2 ^ 32` bytes. -/
theorem decode?_ofChunks {text : Text} {chunks : List Chunk}
    (stands : ∀ c ∈ chunks, c.StandsIn text) (hcode : Text.size (Chunk.code chunks) < 2 ^ 32)
    (htext : text.size < 2 ^ 32) (name : String) :
    decode? (ofChunks name (.ofText text) chunks).mappings.toList =
      some (entryLines (chunks.flatMap (Marked.ofChunk (.ofText text)))) := by
  have lines := Marked.lines_eq ⟨0, 0⟩ (chunks.flatMap (Marked.ofChunk (.ofText text)))
  simp only at lines
  rw [ofChunks, String.toList_ofList, mappingsOf, decode?_render]
  · rfl
  · simp [lines]
  · exact fits_lines stands hcode htext

end SourceMap

/-! ## Replacements and the import -/

/-- Every compiled site has its replacement. -/
theorem mem_replacements {sites : List SiteAnalysis} {rs : List Replacement}
    (h : replacements sites = .ok rs) {s : SiteAnalysis} (hs : s ∈ sites) {held : HeldUnit}
    (ho : s.outcome = .compiled held) : ⟨s.site.span, s.replacementText held⟩ ∈ rs := by
  induction sites generalizing rs with
  | nil => simp at hs
  | cons t sites ih =>
    rcases t.replacement_cases with ⟨hu, ht⟩ | ⟨held', hc, ht⟩ | ⟨e, he⟩
    · rw [replacements_cons_none ht] at h
      rcases List.mem_cons.1 hs with rfl | hs
      · simp [hu] at ho
      · exact ih h hs
    · obtain ⟨more, hmore, rfl⟩ := replacements_cons_some ht h
      rcases List.mem_cons.1 hs with rfl | hs
      · rw [hc, Outcome.compiled.injEq] at ho
        simp [ho]
      · exact List.mem_cons_of_mem _ (ih hmore hs)
    · simp [replacements_cons_error he] at h

/-- Every replacement is a chunk of the spliced text. -/
theorem replacement_mem_splice (text : Text) (cursor : Nat) {rs : List Replacement}
    {r : Replacement} (h : r ∈ rs) : .replacement r.text r.span.start ∈ splice text cursor rs := by
  induction rs generalizing cursor with
  | nil => simp at h
  | cons r' rest ih =>
    rcases List.mem_cons.1 h with rfl | h
    · simp [splice]
    · simp [splice, ih _ h]

/-- Every mark of a prologue is on a line that ends in it. -/
theorem line_lt_of_mem_marks_prologue {index : LineIndex} {line : Text} {e : Position × Position}
    (h : e ∈ Marked.marks ⟨0, 0⟩ ((prologue line).flatMap (Marked.ofChunk index))) :
    e.1.line < ((⟨0, 0⟩ : Position).after (Chunk.code (prologue line))).line := by
  rw [prologue] at h ⊢
  split at h
  · simp [Marked.marks] at h
  · rename_i hlast
    simp only [List.flatMap_cons, List.flatMap_nil, List.append_nil, Marked.ofChunk] at h
    obtain ⟨u, d, v, rfl, he⟩ := Marked.exists_of_mem_marks_copied h
    have ends : '\n' ∈ d :: v := by
      rw [List.getLast?_append_cons] at hlast
      exact List.mem_of_getLast? hlast
    have := List.count_pos_iff.2 ends
    simp only [he, Chunk.code, List.flatMap_cons, List.flatMap_nil, List.append_nil, Chunk.text,
      Position.line_after, List.count_append]
    omega
  · simp only [List.flatMap_cons, List.flatMap_nil, List.append_nil, Marked.ofChunk,
      Marked.marks_append, Marked.marks_map_char] at h
    obtain ⟨u, d, v, rfl, he⟩ := Marked.exists_of_mem_marks_copied h
    simp only [he, Chunk.code, List.flatMap_cons, List.flatMap_nil, List.append_nil, Chunk.text,
      Position.line_after, List.count_append, List.count_singleton_self]
    omega

/-- Nothing on a line whose marks all lie elsewhere. -/
theorem SourceMap.getElem?_entryLines_unmarked (front back : List Marked) (text : Text)
    (ends : ∀ e ∈ Marked.marks ⟨0, 0⟩ front,
      e.1.line < ((⟨0, 0⟩ : Position).after (Marked.chars front)).line)
    (newline : '\n' ∈ text) :
    (entryLines (front ++ text.map .char ++ back))[
      ((⟨0, 0⟩ : Position).after (Marked.chars front)).line]? = some [] := by
  generalize hplace : (⟨0, 0⟩ : Position).after (Marked.chars front) = g at ends ⊢
  have bound : g.line ≤ (Marked.chars (front ++ text.map .char ++ back)).count '\n' := by
    simp only [← hplace, Marked.chars_append, List.count_append, Position.line_after]
    omega
  have earlier : Marked.onLine g.line (Marked.marks ⟨0, 0⟩ front) = [] := by
    rw [List.eq_nil_iff_forall_not_mem]
    intro m hm
    exact absurd (ends _ (Marked.mem_onLine.1 hm)) (by simp)
  have later : Marked.onLine g.line (Marked.marks (g.after text) back) = [] := by
    have := List.count_pos_iff.2 newline
    refine Marked.onLine_marks_of_lt ?_ back
    rw [Position.line_after]
    omega
  rw [getElem?_entryLines bound, Marked.marks_append, Marked.marks_append, Marked.chars_append,
    Position.after_append, hplace, Marked.marks_map_char, Marked.chars_map_char,
    List.append_nil, Marked.onLine_append, earlier, later]
  rfl

/-- A place is marked, and the next mark comes only after the text from there on. -/
structure SourceMap.Covers (lines : List (List Entry)) (place : Position) (text : Text)
    (source : Position) : Prop where
  active : active? lines place = some ⟨place.column, 0, source⟩
  alone : ∀ i line, lines[i]? = some line → ∀ e ∈ line,
    ¬ (place.Before ⟨i, e.column⟩ ∧ Position.Before ⟨i, e.column⟩ (place.after text))

/-- A replacement is covered by its own mark to its end. -/
theorem SourceMap.covers_replacement (front back : List Marked) {text : Text}
    (nonempty : text ≠ []) (source : Position) :
    Covers (entryLines (front ++ (.mark source :: text.map .char) ++ back))
      ((⟨0, 0⟩ : Position).after (Marked.chars front)) text source := by
  generalize hplace : (⟨0, 0⟩ : Position).after (Marked.chars front) = g
  have marks : Marked.marks ⟨0, 0⟩ (front ++ (.mark source :: text.map .char) ++ back) =
      Marked.marks ⟨0, 0⟩ front ++ (g, source) :: Marked.marks (g.after text) back := by
    simp [Marked.marks_append, Marked.marks, hplace]
  have moves : g.Before (g.after text) := g.before_after nonempty
  refine ⟨?_, ?_⟩
  · have bound : g.line ≤
        (Marked.chars (front ++ (.mark source :: text.map .char) ++ back)).count '\n' := by
      simp only [← hplace, Marked.chars_append, List.count_append, Position.line_after]
      omega
    rw [active?_entryLines bound, marks, Marked.onLine_append, List.filter_append,
      Marked.onLine_cons_same g.line g.column]
    simp [filter_onLine_eq_nil moves, Entry.ofMapping]
  · rintro i line hline e he ⟨later, sooner⟩
    have hmark := exists_mark_of_mem hline he
    rw [marks, List.mem_append, List.mem_cons] at hmark
    rcases hmark with h | h | h
    · exact Marked.not_after_of_mem_marks h (hplace ▸ later)
    · obtain ⟨rfl, _⟩ := Prod.mk.inj h
      simp [Position.Before] at later
    · exact Marked.not_before_of_mem_marks h sooner

/-! ## The map is correct -/

def placeAfter (tagged : List (Char × CharSource)) : Position :=
  (⟨0, 0⟩ : Position).after (tagged.map Prod.fst)

/-- The entries lead from a rewriting back to the original text. -/
structure Rewriting.Mapped {runtimeModule : String} {a : Analysis} (w : Rewriting runtimeModule a)
    (lines : List (List SourceMap.Entry)) : Prop where
  /-- There are as many lines as the text has. -/
  length_lines : lines.length = (w.text.map Prod.fst).count '\n' + 1
  /-- The active entry of a character that was kept gives its original position. -/
  kept : ∀ before c offset after, w.text = before ++ (c, .kept offset) :: after →
    ∃ e, SourceMap.active? lines (placeAfter before) = some e ∧ e.source = 0 ∧
      e.shifted (placeAfter before).column = (LineIndex.ofString a.text).position offset
  /-- The start of a replacement gives the start of its site, and what follows has no entry. -/
  replaced : ∀ s ∈ a.sites, ∀ held, s.outcome = .compiled held →
    ∃ before after, w.text = before ++
        taggedWith (.replaced s.site.span.start) (s.replacementText held) ++ after ∧
      SourceMap.Covers lines (placeAfter before) (s.replacementText held)
        ((LineIndex.ofString a.text).position s.site.span.start)
  /-- The line of the import has no entry. -/
  import_unmapped : lines[(placeAfter w.head).line]? = some []

theorem replacementText_ne_nil (s : SiteAnalysis) (held : HeldUnit) :
    s.replacementText held ≠ [] := by
  simp [SiteAnalysis.replacementText, constructorText]

/-- The entries of a transformed text lead back to the original. -/
theorem mapped_entryLines {runtimeModule : String} {a : Analysis} {rs : List Replacement}
    (hrs : replacements a.sites = .ok rs) {w : Rewriting runtimeModule a}
    (head : w.head = (prologue (hashbang a.text.toList)).flatMap Chunk.tagged)
    (tags : (transformedChunks runtimeModule a.text.toList rs).flatMap Chunk.tagged = w.text)
    (stands : ∀ c ∈ transformedChunks runtimeModule a.text.toList rs,
      c.StandsIn a.text.toList) :
    w.Mapped (SourceMap.entryLines ((transformedChunks runtimeModule a.text.toList rs).flatMap
      (Marked.ofChunk (.ofString a.text)))) where
  length_lines := by
    rw [SourceMap.length_entryLines, Marked.chars_flatMap_ofChunk, ← tags,
      Chunk.map_fst_flatMap_tagged]
  kept := by
    intro before c offset after split
    obtain ⟨front, back, marked, hfront, aligned⟩ :=
      Chunk.exists_kept_split stands (tags.trans split)
    rw [LineIndex.ofString, marked, placeAfter, ← hfront]
    exact SourceMap.exists_active (hfront ▸ aligned)
  replaced := by
    intro s hs held ho
    have mem : .replacement (s.replacementText held) s.site.span.start ∈
        transformedChunks runtimeModule a.text.toList rs := by
      have := replacement_mem_splice a.text.toList (hashbang a.text.toList).size
        (mem_replacements hrs hs ho)
      simp [transformedChunks, this]
    obtain ⟨earlier, later, hchunks⟩ := List.append_of_mem mem
    refine ⟨earlier.flatMap Chunk.tagged, later.flatMap Chunk.tagged, ?_, ?_⟩
    · simp [← tags, hchunks, Chunk.tagged]
    · have covers := SourceMap.covers_replacement
        (earlier.flatMap (Marked.ofChunk (.ofString a.text)))
        (later.flatMap (Marked.ofChunk (.ofString a.text))) (replacementText_ne_nil s held)
        ((LineIndex.ofString a.text).position s.site.span.start)
      rw [placeAfter, Chunk.map_fst_flatMap_tagged, hchunks]
      simpa [Marked.ofChunk] using covers
  import_unmapped := by
    obtain ⟨statement, hline, _⟩ := exists_importLine runtimeModule
    have unmarked := SourceMap.getElem?_entryLines_unmarked
      ((prologue (hashbang a.text.toList)).flatMap (Marked.ofChunk (.ofString a.text)))
      ((splice a.text.toList (hashbang a.text.toList).size rs).flatMap
        (Marked.ofChunk (.ofString a.text)))
      (importLine runtimeModule).toList
      (fun e he => (line_lt_of_mem_marks_prologue he).trans_eq (by simp)) (by simp [hline])
    rw [placeAfter, head, Chunk.map_fst_flatMap_tagged]
    simpa [transformedChunks, Marked.ofChunk] using unmarked

/-- The source map of a transformed file, read by the rules of source maps, is correct. Both texts
have less than `2 ^ 32` bytes, as the lines and columns of a map are numbers of 32 bits; so they are
here. -/
theorem transform_map_correct (runtimeModule : String) (a : Analysis) (h : a.InOrder)
    (out : Transformed) (ht : transform runtimeModule a = .ok (some out))
    (hcode : out.code.utf8ByteSize < 2 ^ 32) (htext : a.text.utf8ByteSize < 2 ^ 32) :
    ∃ w : Rewriting runtimeModule a, out.code.toList = w.text.map Prod.fst ∧
      ∃ lines, SourceMap.decode? out.map.mappings.toList = some lines ∧ w.Mapped lines ∧
        ∀ line ∈ lines, ∀ e ∈ line, e.Fits := by
  obtain ⟨rs, hrs, _, rfl⟩ := transform_eq_some_iff.1 ht
  obtain ⟨w, head, tags, stands⟩ := exists_rewriting h runtimeModule hrs
  rw [← Text.size_toList, transformedWith, String.toList_ofList] at hcode
  rw [← Text.size_toList] at htext
  refine ⟨w, ?_, _, SourceMap.decode?_ofChunks stands hcode htext _,
    mapped_entryLines hrs head tags stands, SourceMap.fits_entryLines stands hcode htext⟩
  rw [← tags, Chunk.map_fst_flatMap_tagged, transformedWith, String.toList_ofList]

def mixedReplacement : Replacement :=
  ⟨⟨18, 24⟩, (constructorText ⟨"00", .empty, []⟩ none).toList⟩

/-- The example has a correct map. -/
theorem map_correct_mixedAnalysis :
    mixedAnalysis.InOrder ∧ mixedAnalysis.text.utf8ByteSize < 2 ^ 32 ∧
      ∃ out, transform "solx" mixedAnalysis = .ok (some out) ∧ out.code.utf8ByteSize < 2 ^ 32 ∧
        ∃ w : Rewriting "solx" mixedAnalysis, out.code.toList = w.text.map Prod.fst ∧
          ∃ lines, SourceMap.decode? out.map.mappings.toList = some lines ∧ w.Mapped lines ∧
            ∀ line ∈ lines, ∀ e ∈ line, e.Fits := by
  have small : mixedAnalysis.text.utf8ByteSize < 2 ^ 32 := by decide
  have result : transform "solx" mixedAnalysis =
      .ok (some (transformedWith "solx" mixedAnalysis [mixedReplacement])) := rfl
  have bound : (transformedWith "solx" mixedAnalysis [mixedReplacement]).code.utf8ByteSize <
      2 ^ 32 := by decide +kernel
  exact ⟨inOrder_mixedAnalysis, small, _, result, bound,
    transform_map_correct "solx" mixedAnalysis inOrder_mixedAnalysis _ result bound small⟩

end SolidityInlay
