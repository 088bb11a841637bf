import SolidityInlay.Proofs.LineIndex
import SolidityInlay.Proofs.Vlq
import SolidityInlay.SourceMap.Basic

/-!
# Reading the mappings of a source map

A reader of the mappings of a source map of version 3: semicolons end generated lines, commas stand
between the segments of a line, and a segment is four numbers, each the difference to the segment
before. The generated column starts over on each line. What is rendered is read back, as long as
lines and columns are numbers of 32 bits.

Main definitions: `SourceMap.Entry`, `SourceMap.decode?`. Main statement:
`SourceMap.decode?_render`.
-/

namespace SolidityInlay

namespace SourceMap

/-- A segment of a source map, with absolute values: a generated column, the number of the source,
and a position in it. -/
structure Entry where
  column : Nat
  source : Nat
  position : Position
deriving DecidableEq, Repr

namespace Entry

/-- The entry of a segment that comes after another; no value may become negative. -/
def next? (e : Entry) (segment : Text) : Option Entry :=
  match Vlq.decode? segment with
  | some [column, source, line, sourceColumn] => do
    let column ← (e.column + column).toNat?
    let source ← (e.source + source).toNat?
    let line ← (e.position.line + line).toNat?
    let sourceColumn ← (e.position.column + sourceColumn).toNat?
    some ⟨column, source, line, sourceColumn⟩
  | _ => none

/-- The entry of a mapping; there is one source, of number zero. -/
def ofMapping (m : Mapping) : Entry := ⟨m.column, 0, m.source⟩

def Fits (e : Entry) : Prop := e.column < 2 ^ 32 ∧ e.position.Fits

end Entry

def decodeSegments? (e : Entry) : List Text → Option (List Entry)
  | [] => some []
  | segment :: rest => do
    let next ← e.next? segment
    let more ← decodeSegments? next rest
    some (next :: more)

def decodeLine? (e : Entry) (line : Text) : Option (List Entry) :=
  if line.isEmpty then some [] else decodeSegments? { e with column := 0 } (line.splitOn ',')

def decodeLines? (e : Entry) : List Text → Option (List (List Entry))
  | [] => some []
  | line :: rest => do
    let first ← decodeLine? e line
    let more ← decodeLines? (first.getLast?.getD e) rest
    some (first :: more)

/-- The entries of each generated line of a map. -/
def decode? (mappings : Text) : Option (List (List Entry)) :=
  decodeLines? ⟨0, 0, ⟨0, 0⟩⟩ (mappings.splitOn ';')

end SourceMap

/-! ## Segments -/

namespace Mapping

def Fits (m : Mapping) : Prop := m.column < 2 ^ 32 ∧ m.source.Fits

def segment (column : Nat) (source : Position) (m : Mapping) : Text :=
  delta m.column column ++ Vlq.encode 0 ++ delta m.source.line source.line ++
    delta m.source.column source.column

/-- A difference of two numbers of 32 bits is read back. -/
theorem decode?_delta_append {n previous : Nat} (hn : n < 2 ^ 32) (hp : previous < 2 ^ 32)
    (rest : Text) :
    Vlq.decode? (delta n previous ++ rest) =
      (Vlq.decode? rest).map (((n : Int) - previous) :: ·) := by
  have exact : (Int64.ofInt ((n : Int) - previous)).toInt = (n : Int) - previous :=
    Int64.toInt_ofInt_of_le (by omega) (by omega)
  rw [delta, Vlq.decode?_encode_append (by omega), exact]

/-- A segment leads from the mapping before it to its own. -/
theorem next?_segment {column : Nat} {source : Position} {m : Mapping} (hc : column < 2 ^ 32)
    (hs : source.Fits) (hm : m.Fits) :
    SourceMap.Entry.next? ⟨column, 0, source⟩ (segment column source m) = some (.ofMapping m) := by
  have zero : (0 : Int64).toInt = 0 := by decide
  have numbers : Vlq.decode? (segment column source m) =
      some [(m.column : Int) - column, 0, (m.source.line : Int) - source.line,
        (m.source.column : Int) - source.column] := by
    rw [segment, List.append_assoc, List.append_assoc, decode?_delta_append hm.1 hc,
      Vlq.decode?_encode_append (by omega), decode?_delta_append hm.2.1 hs.1,
      ← List.append_nil (delta m.source.column source.column), decode?_delta_append hm.2.2 hs.2,
      zero]
    rfl
  have total (n p : Nat) : ((p : Int) + ((n : Int) - p)).toNat? = some n := by
    rw [show (p : Int) + ((n : Int) - p) = n by omega]
    rfl
  simp only [SourceMap.Entry.next?, numbers, total]
  rfl

theorem segment_ne_nil (column : Nat) (source : Position) (m : Mapping) :
    segment column source m ≠ [] := by
  simp [segment, delta, Vlq.encode_ne_nil]

/-- A segment has digits of Base64 only, so neither mark between segments. -/
theorem not_mem_segment {c : Char} (h : ¬ Vlq.IsBase64 c) (column : Nat) (source : Position)
    (m : Mapping) : c ∉ segment column source m := by
  have absent (value : Int64) : c ∉ Vlq.encode value :=
    fun hc => h (Vlq.isBase64_of_mem_encode hc)
  simp [segment, delta, absent]

/-! ## Lines -/

theorem renderLine_singleton (column : Nat) (source : Position) (m : Mapping) :
    renderLine column source [m] = segment column source m := by
  simp [renderLine, segment]

theorem renderLine_cons_cons (column : Nat) (source : Position) (m next : Mapping)
    (rest : List Mapping) :
    renderLine column source (m :: next :: rest) =
      segment column source m ++ ',' :: renderLine m.column m.source (next :: rest) := by
  simp [renderLine, segment]

theorem renderLine_ne_nil (column : Nat) (source : Position) (m : Mapping) (rest : List Mapping) :
    renderLine column source (m :: rest) ≠ [] := by
  cases rest with
  | nil => simpa [renderLine_singleton] using segment_ne_nil column source m
  | cons next rest => simp [renderLine_cons_cons]

/-- No line has the mark that separates lines. -/
theorem semicolon_not_mem_renderLine (column : Nat) (source : Position) (line : List Mapping) :
    ';' ∉ renderLine column source line := by
  induction line generalizing column source with
  | nil => simp [renderLine]
  | cons m rest ih =>
    have absent := not_mem_segment (show ¬ Vlq.IsBase64 ';' by decide) column source m
    cases rest with
    | nil => simpa [renderLine_singleton] using absent
    | cons next rest => simp [renderLine_cons_cons, absent, ih]

/-- The segments of a line are read back, each after the one before it. -/
theorem decodeSegments?_renderLine {column : Nat} {source : Position} (hc : column < 2 ^ 32)
    (hs : source.Fits) (m : Mapping) (rest : List Mapping) (fits : ∀ n ∈ m :: rest, n.Fits) :
    SourceMap.decodeSegments? ⟨column, 0, source⟩
        ((renderLine column source (m :: rest)).splitOn ',') =
      some ((m :: rest).map .ofMapping) := by
  have absent : ',' ∉ segment column source m := not_mem_segment (by decide) column source m
  have hm := fits m (by simp)
  induction rest generalizing column source m with
  | nil =>
    rw [renderLine_singleton, List.splitOn_eq_singleton absent]
    simp [SourceMap.decodeSegments?, next?_segment hc hs hm]
  | cons next rest ih =>
    have tail := ih hm.1 hm.2 next (fun n hn => fits n (List.mem_cons_of_mem _ hn))
      (not_mem_segment (by decide) _ _ _) (fits next (by simp))
    rw [renderLine_cons_cons, List.splitOn_append_cons_self_of_not_mem absent]
    simp only [SourceMap.decodeSegments?, next?_segment hc hs hm, Option.bind_eq_bind,
      Option.bind_some]
    simp [SourceMap.Entry.ofMapping, tail]

/-- A line is read back from any generated column, which starts over. -/
theorem decodeLine?_renderLine (column : Nat) {source : Position} (hs : source.Fits)
    {line : List Mapping} (fits : ∀ m ∈ line, m.Fits) :
    SourceMap.decodeLine? ⟨column, 0, source⟩ (renderLine 0 source line) =
      some (line.map .ofMapping) := by
  cases line with
  | nil => simp [SourceMap.decodeLine?, renderLine]
  | cons m rest =>
    rw [SourceMap.decodeLine?, if_neg (by simpa using renderLine_ne_nil 0 source m rest)]
    exact decodeSegments?_renderLine (by decide) hs m rest fits

/-- After a line the source position is that of its last mapping. -/
theorem getLast?_ofMapping (column : Nat) (source : Position) (line : List Mapping) :
    ∃ last : Nat, (line.map SourceMap.Entry.ofMapping).getLast?.getD ⟨column, 0, source⟩ =
      ⟨last, 0, lastSource source line⟩ := by
  cases h : line.getLast? with
  | none => exact ⟨column, by simp [h, lastSource]⟩
  | some m => exact ⟨m.column, by simp [h, lastSource, SourceMap.Entry.ofMapping]⟩

theorem fits_lastSource {source : Position} (hs : source.Fits) {line : List Mapping}
    (fits : ∀ m ∈ line, m.Fits) : (lastSource source line).Fits := by
  cases h : line.getLast? with
  | none => simpa [lastSource, h] using hs
  | some m => simpa [lastSource, h] using (fits m (List.mem_of_getLast? h)).2

end Mapping

/-! ## Whole maps -/

namespace SourceMap

/-- Lines are read back in order; the source position goes on from line to line. -/
theorem decodeLines?_render (column : Nat) {source : Position} (hs : source.Fits)
    (line : List Mapping) (rest : List (List Mapping))
    (fits : ∀ l ∈ line :: rest, ∀ m ∈ l, m.Fits) :
    decodeLines? ⟨column, 0, source⟩ ((Mapping.render source (line :: rest)).splitOn ';') =
      some ((line :: rest).map (·.map .ofMapping)) := by
  have absent := Mapping.semicolon_not_mem_renderLine 0 source line
  have first := Mapping.decodeLine?_renderLine column hs (fits line (by simp))
  induction rest generalizing column source line with
  | nil =>
    rw [Mapping.render, List.splitOn_eq_singleton absent]
    simp [decodeLines?, first]
  | cons next rest ih =>
    obtain ⟨last, hlast⟩ := Mapping.getLast?_ofMapping column source line
    have hs' := Mapping.fits_lastSource hs (fits line (by simp))
    have tail := ih last hs' next (fun l hl => fits l (List.mem_cons_of_mem _ hl))
      (Mapping.semicolon_not_mem_renderLine _ _ _)
      (Mapping.decodeLine?_renderLine _ hs' (fits next (by simp)))
    rw [Mapping.render, List.splitOn_append_cons_self_of_not_mem absent]
    · simp only [decodeLines?, first, Option.bind_eq_bind, Option.bind_some, hlast, tail]
      rfl
    · simp

/-- Rendered mappings are read back. -/
theorem decode?_render {lines : List (List Mapping)} (nonempty : lines ≠ [])
    (fits : ∀ line ∈ lines, ∀ m ∈ line, m.Fits) :
    decode? (Mapping.render ⟨0, 0⟩ lines) = some (lines.map (·.map .ofMapping)) := by
  obtain ⟨line, rest, rfl⟩ := List.exists_cons_of_ne_nil nonempty
  have start : (⟨0, 0⟩ : Position).Fits := ⟨by decide, by decide⟩
  exact decodeLines?_render 0 start line rest fits

end SourceMap

end SolidityInlay
