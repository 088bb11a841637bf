import SolidityInlay.Proofs.Text
import SolidityInlay.Site.PositionMap

/-!
# The position map is exact

Every byte of a site's source comes from a byte of a segment or from a substitution. A position map
sends the offset at which a byte begins, or ends, to where that byte comes from: a byte of a segment
to the same byte in the host text, a byte of a value to an end of the expression.

The sites in question are those a scan finds: segments and substitutions cover the text between the
template's marks in turn, with nothing between them.

Main definitions: `Site.Scanned`, `ByteSource`, `Site.taggedBytes`, `PositionMap.Exact`.
-/

namespace SolidityInlay

/-! ## The shape of a scanned site -/

/-- Segments and substitutions cover the host text from one offset to another in turn, a segment
first and last. A segment is what the host text reads there, and an expression lies strictly inside
its substitution. -/
inductive Tiles (host : Text) : Nat → Nat → List Segment → List Interpolation → Prop
  | last {s : Segment} : host.ReadsAt s.span s.raw.toList →
      Tiles host s.span.start s.span.stop [s] []
  | next {s : Segment} {x : Interpolation} {stop : Nat} {ss : List Segment}
      {xs : List Interpolation} : host.ReadsAt s.span s.raw.toList →
      x.substitution.start = s.span.stop → x.substitution.start < x.expr.start →
      x.expr.start ≤ x.expr.stop → x.expr.stop < x.substitution.stop →
      Tiles host x.substitution.stop stop ss xs → Tiles host s.span.start stop (s :: ss) (x :: xs)

/-- The shape of a site found in a host text. -/
structure Site.Scanned (host : Text) (site : Site) : Prop where
  tiles : Tiles host site.text.start site.text.stop site.segments site.interpolations
  source : site.source = Site.resolveSource site.segments site.interpolations

/-- Every segment stands in the host text as it reads. -/
theorem Tiles.readsAt {host : Text} {start stop : Nat} {ss : List Segment}
    {xs : List Interpolation} (h : Tiles host start stop ss xs) {s : Segment} (hs : s ∈ ss) :
    host.ReadsAt s.span s.raw.toList := by
  induction h with
  | last reads =>
    obtain rfl := List.mem_singleton.1 hs
    exact reads
  | next reads _ _ _ _ _ ih =>
    rcases List.mem_cons.1 hs with rfl | hs
    · exact reads
    · exact ih hs

/-! ## Where bytes come from -/

/-- Where a byte of a source comes from: a byte of a segment by its number, or a substitution. -/
inductive ByteSource where
  | segment (s : Segment) (byte : Nat)
  | interpolation (x : Interpolation)
deriving DecidableEq, Repr

def Side.ofByte (byte : Nat) : Side → Nat
  | .start => byte
  | .stop => byte + 1

def ByteSource.host (side : Side) : ByteSource → Nat
  | segment s byte => side.ofByte (s.span.start + byte)
  | interpolation x =>
    match side with
    | .start => x.expr.start
    | .stop => x.expr.stop

def Segment.taggedBytes (s : Segment) : List (UInt8 × ByteSource) :=
  (Bytes.ofString s.raw).mapIdx fun j b => (b, .segment s j)

def Interpolation.taggedBytes (x : Interpolation) : List (UInt8 × ByteSource) :=
  (Bytes.ofString (x.value.getD "")).map fun b => (b, .interpolation x)

namespace Site

def tagBytes : List Segment → List Interpolation → List (UInt8 × ByteSource)
  | [], _ => []
  | s :: ss, [] => s.taggedBytes ++ tagBytes ss []
  | s :: ss, x :: xs => s.taggedBytes ++ (x.taggedBytes ++ tagBytes ss xs)

/-- The bytes of the source, each with where it comes from. -/
def taggedBytes (site : Site) : List (UInt8 × ByteSource) :=
  tagBytes site.segments site.interpolations

end Site

@[simp] theorem Segment.length_taggedBytes (s : Segment) :
    s.taggedBytes.length = s.raw.utf8ByteSize := by
  simp [Segment.taggedBytes]

@[simp] theorem Segment.map_fst_taggedBytes (s : Segment) :
    s.taggedBytes.map Prod.fst = Bytes.ofString s.raw := by
  apply List.ext_getElem?
  intro k
  simp [Segment.taggedBytes, List.getElem?_mapIdx, Option.map_map, Function.comp_def]

@[simp] theorem Interpolation.map_fst_taggedBytes (x : Interpolation) :
    x.taggedBytes.map Prod.fst = Bytes.ofString (x.value.getD "") := by
  simp [Interpolation.taggedBytes, Function.comp_def]

@[simp] theorem Interpolation.length_taggedBytes (x : Interpolation) :
    x.taggedBytes.length = (x.value.getD "").utf8ByteSize := by
  simp [Interpolation.taggedBytes]

theorem Segment.getElem?_taggedBytes (s : Segment) (k : Nat) :
    s.taggedBytes[k]? = (Bytes.ofString s.raw)[k]?.map fun b => (b, .segment s k) := by
  simp [Segment.taggedBytes, List.getElem?_mapIdx]

namespace Site

theorem resolveSource_cons {s : Segment} {ss : List Segment} {x : Interpolation}
    {xs : List Interpolation} {source : String}
    (h : resolveSource (s :: ss) (x :: xs) = some source) :
    ∃ value rest, x.value = some value ∧ resolveSource ss xs = some rest ∧
      source = s.raw ++ value ++ rest := by
  simp only [resolveSource, Option.bind_eq_some_iff, Option.map_eq_some_iff] at h
  obtain ⟨value, hv, rest, hr, rfl⟩ := h
  exact ⟨value, rest, hv, hr, rfl⟩

theorem resolveSource_cons_nil {s : Segment} {ss : List Segment} {source : String}
    (h : resolveSource (s :: ss) [] = some source) :
    ∃ rest, resolveSource ss [] = some rest ∧ source = s.raw ++ rest := by
  simp only [resolveSource, Option.map_eq_some_iff] at h
  obtain ⟨rest, hr, rfl⟩ := h
  exact ⟨rest, hr, rfl⟩

/-- The tagged bytes are the bytes of the source. -/
theorem map_fst_tagBytes {ss : List Segment} {xs : List Interpolation} {source : String}
    (h : resolveSource ss xs = some source) :
    (tagBytes ss xs).map Prod.fst = Bytes.ofString source := by
  fun_induction tagBytes ss xs generalizing source with
  | case1 xs =>
    obtain rfl : "" = source := by simpa [resolveSource] using h
    rfl
  | case2 s ss ih =>
    obtain ⟨rest, hr, rfl⟩ := resolveSource_cons_nil h
    simp [ih hr]
  | case3 s ss x xs ih =>
    obtain ⟨value, rest, hv, hr, rfl⟩ := resolveSource_cons h
    simp [ih hr, hv]

/-- There is a tag for each byte of the source. -/
theorem length_tagBytes {ss : List Segment} {xs : List Interpolation} {source : String}
    (h : resolveSource ss xs = some source) : (tagBytes ss xs).length = source.utf8ByteSize := by
  rw [← Bytes.length_ofString, ← map_fst_tagBytes h, List.length_map]

/-- Byte `k` of a source with tags is byte `j` of a run that is a whole segment. -/
def InRun (source : Text) (tags : List (UInt8 × ByteSource)) (k : Nat) (s : Segment) (j : Nat) :
    Prop :=
  ∃ before after : Text, ∃ tagsBefore tagsAfter,
    source = before ++ s.raw.toList ++ after ∧ tags = tagsBefore ++ s.taggedBytes ++ tagsAfter ∧
    tagsBefore.length = before.size ∧ k = before.size + j

theorem InRun.prepend {source : Text} {tags : List (UInt8 × ByteSource)} {k j : Nat} {s : Segment}
    (h : InRun source tags k s j) (first : Text) (tagsFirst : List (UInt8 × ByteSource))
    (hlen : tagsFirst.length = first.size) :
    InRun (first ++ source) (tagsFirst ++ tags) (tagsFirst.length + k) s j := by
  obtain ⟨before, after, tagsBefore, tagsAfter, rfl, rfl, hb, rfl⟩ := h
  refine ⟨first ++ before, after, tagsFirst ++ tagsBefore, tagsAfter, ?_, ?_, ?_, ?_⟩
  · simp
  · simp
  · simp [hlen, hb]
  · simp [hlen, Nat.add_assoc]

/-- A run goes on with the bytes of its segment. -/
theorem InRun.getElem? {source : Text} {tags : List (UInt8 × ByteSource)} {k j d : Nat}
    {s : Segment} (h : InRun source tags k s j) (hd : j + d < s.raw.utf8ByteSize) :
    ∃ b, tags[k + d]? = some (b, .segment s (j + d)) := by
  obtain ⟨before, after, tagsBefore, tagsAfter, -, rfl, hb, rfl⟩ := h
  obtain ⟨b, hbyte⟩ : ∃ b, (Bytes.ofString s.raw)[j + d]? = some b :=
    ⟨_, List.getElem?_eq_getElem (by simpa using hd)⟩
  have here : before.size + j + d = tagsBefore.length + (j + d) := by omega
  refine ⟨b, ?_⟩
  rw [here, List.append_assoc, List.getElem?_append_right (by omega), Nat.add_sub_cancel_left,
    List.getElem?_append_left (by simpa using hd), Segment.getElem?_taggedBytes, hbyte,
    Option.map_some]

/-- A run is a part of the source that reads like its segment. -/
theorem InRun.readsAt {source : Text} {tags : List (UInt8 × ByteSource)} {k j : Nat} {s : Segment}
    (h : InRun source tags k s j) :
    ∃ span, source.ReadsAt span s.raw.toList ∧ k = span.start + j := by
  obtain ⟨before, after, _, _, rfl, -, -, rfl⟩ := h
  exact ⟨⟨before.size, before.size + Text.size s.raw.toList⟩, ⟨before, after, rfl, rfl, rfl⟩, rfl⟩

theorem inRun_first (s : Segment) (after : Text) (tagsAfter : List (UInt8 × ByteSource)) (j : Nat) :
    InRun (s.raw.toList ++ after) (s.taggedBytes ++ tagsAfter) j s j :=
  ⟨[], after, [], tagsAfter, rfl, rfl, rfl, by simp⟩

theorem eq_of_mem_taggedBytes {t s : Segment} {k j : Nat} {b : UInt8}
    (h : t.taggedBytes[k]? = some (b, .segment s j)) :
    s = t ∧ j = k ∧ (Bytes.ofString t.raw)[k]? = some b := by
  rw [Segment.getElem?_taggedBytes, Option.map_eq_some_iff] at h
  obtain ⟨b, hb, he⟩ := h
  simp only [Prod.mk.injEq, ByteSource.segment.injEq] at he
  obtain ⟨rfl, rfl, rfl⟩ := he
  exact ⟨rfl, rfl, hb⟩

theorem not_segment_of_mem_taggedBytes {x : Interpolation} {s : Segment} {k j : Nat} {b : UInt8} :
    x.taggedBytes[k]? ≠ some (b, .segment s j) := by
  simp [Interpolation.taggedBytes]

/-- A byte tagged with a segment is a byte of it and stands in a run that is the whole segment. -/
theorem inRun_of_segment {ss : List Segment} {xs : List Interpolation} {source : String}
    (h : resolveSource ss xs = some source) {k j : Nat} {b : UInt8} {s : Segment}
    (hk : (tagBytes ss xs)[k]? = some (b, .segment s j)) :
    s ∈ ss ∧ (Bytes.ofString s.raw)[j]? = some b ∧
      InRun source.toList (tagBytes ss xs) k s j := by
  fun_induction tagBytes ss xs generalizing source k with
  | case1 xs => simp at hk
  | case2 t ss ih =>
    obtain ⟨rest, hr, rfl⟩ := resolveSource_cons_nil h
    rw [String.toList_append]
    rw [List.getElem?_append] at hk
    split at hk
    · obtain ⟨rfl, rfl, hb⟩ := eq_of_mem_taggedBytes hk
      exact ⟨by simp, hb, inRun_first _ _ _ _⟩
    · rename_i hlen
      obtain ⟨hs, hb, run⟩ := ih hr hk
      refine ⟨List.mem_cons_of_mem _ hs, hb, ?_⟩
      have := run.prepend t.raw.toList t.taggedBytes (by simp [Text.size_toList])
      rwa [Nat.add_sub_cancel' (Nat.le_of_not_lt hlen)] at this
  | case3 t ss x xs ih =>
    obtain ⟨value, rest, hv, hr, rfl⟩ := resolveSource_cons h
    rw [String.toList_append, String.toList_append, List.append_assoc]
    rw [List.getElem?_append] at hk
    split at hk
    · obtain ⟨rfl, rfl, hb⟩ := eq_of_mem_taggedBytes hk
      exact ⟨by simp, hb, inRun_first _ _ _ _⟩
    · rename_i hlen
      rw [List.getElem?_append] at hk
      split at hk
      · exact absurd hk not_segment_of_mem_taggedBytes
      · rename_i hlen'
        obtain ⟨hs, hb, run⟩ := ih hr hk
        refine ⟨List.mem_cons_of_mem _ hs, hb, ?_⟩
        have inner := run.prepend value.toList x.taggedBytes (by simp [Text.size_toList, hv])
        have outer := inner.prepend t.raw.toList t.taggedBytes (by simp [Text.size_toList])
        rwa [Nat.add_sub_cancel' (Nat.le_of_not_lt hlen'),
          Nat.add_sub_cancel' (Nat.le_of_not_lt hlen)] at outer

end Site

/-! ## Pieces and bytes -/

/-- Both conventions give a byte to the piece it lies in. -/
theorem Piece.contains_ofByte (p : Piece) (k : Nat) (side : Side) :
    p.contains (side.ofByte k) side = true ↔ p.start ≤ k ∧ k < p.stop := by
  cases side with
  | start =>
    simp only [Piece.contains, Bool.and_eq_true, decide_eq_true_eq]
    rfl
  | stop =>
    simp only [Piece.contains, Bool.and_eq_true, decide_eq_true_eq]
    simp only [Side.ofByte]
    omega

namespace PositionMap

/-- The host offset that the first fitting piece gives. -/
def hostIn? (pieces : List Piece) (offset : Nat) (side : Side) : Option Nat :=
  (pieces.find? fun p => p.contains offset side).map fun p => p.toHost offset side

/-- The first piece answers for the bytes it holds. -/
theorem hostIn?_cons_of_lt {p : Piece} {k : Nat} (hs : p.start ≤ k) (he : k < p.stop)
    (pieces : List Piece) (side : Side) :
    hostIn? (p :: pieces) (side.ofByte k) side = some (p.toHost (side.ofByte k) side) := by
  simp [hostIn?, Piece.contains_ofByte, hs, he]

/-- The first piece passes on what lies behind it. -/
theorem hostIn?_cons_of_le {p : Piece} {k : Nat} (h : p.stop ≤ k) (pieces : List Piece)
    (side : Side) :
    hostIn? (p :: pieces) (side.ofByte k) side = hostIn? pieces (side.ofByte k) side := by
  have : ¬ p.contains (side.ofByte k) side = true := by
    rw [Piece.contains_ofByte]
    omega
  simp [hostIn?, this]

/-- A literal piece in front answers for the bytes of its segment and leaves the others. -/
theorem hostIn?_literal {s : Segment} {start : Nat} {pieces : List Piece}
    {tags : List (UInt8 × ByteSource)} {side : Side}
    (h : ∀ k, hostIn? pieces (side.ofByte (start + s.raw.utf8ByteSize + k)) side =
      tags[k]?.map fun t => t.2.host side) (k : Nat) :
    hostIn? (⟨start, s.raw.utf8ByteSize, .literal s.span.start⟩ :: pieces)
        (side.ofByte (start + k)) side =
      (s.taggedBytes ++ tags)[k]?.map fun t => t.2.host side := by
  by_cases hk : k < s.raw.utf8ByteSize
  · rw [hostIn?_cons_of_lt (by simp) (by simp [Piece.stop, hk]),
      List.getElem?_append_left (by simpa using hk), Segment.getElem?_taggedBytes,
      List.getElem?_eq_getElem (by simpa using hk)]
    cases side <;> simp [Piece.toHost, ByteSource.host, Side.ofByte]
    omega
  · have hk' := Nat.le_of_not_lt hk
    rw [hostIn?_cons_of_le (by simp [Piece.stop, hk']),
      List.getElem?_append_right (by simpa using hk'), Segment.length_taggedBytes, ← h]
    congr 2
    omega

/-- A substituted piece in front answers for the bytes of its value and leaves the others. -/
theorem hostIn?_substituted {x : Interpolation} {value : String} (hv : x.value = some value)
    {start : Nat} {pieces : List Piece} {tags : List (UInt8 × ByteSource)} {side : Side}
    (h : ∀ k, hostIn? pieces (side.ofByte (start + value.utf8ByteSize + k)) side =
      tags[k]?.map fun t => t.2.host side) (k : Nat) :
    hostIn? (⟨start, value.utf8ByteSize, .substituted x.expr x.substitution⟩ :: pieces)
        (side.ofByte (start + k)) side =
      (x.taggedBytes ++ tags)[k]?.map fun t => t.2.host side := by
  have len : x.taggedBytes.length = value.utf8ByteSize := by simp [hv]
  by_cases hk : k < value.utf8ByteSize
  · rw [hostIn?_cons_of_lt (by simp) (by simp [Piece.stop, hk]),
      List.getElem?_append_left (by omega), Interpolation.taggedBytes, List.getElem?_map,
      List.getElem?_eq_getElem (by simpa [hv] using hk)]
    cases side <;> simp [Piece.toHost, ByteSource.host]
  · have hk' := Nat.le_of_not_lt hk
    rw [hostIn?_cons_of_le (by simp [Piece.stop, hk']), List.getElem?_append_right (by omega), len,
      ← h]
    congr 2
    omega

/-- The pieces of a resolved source end where it ends, and answer for every byte by its tag. -/
theorem exists_piecesFrom {ss : List Segment} {xs : List Interpolation} {source : String}
    (h : Site.resolveSource ss xs = some source) (start : Nat) :
    ∃ pieces, piecesFrom start ss xs = some (pieces, start + source.utf8ByteSize) ∧
      ∀ side k, hostIn? pieces (side.ofByte (start + k)) side =
        (Site.tagBytes ss xs)[k]?.map fun t => t.2.host side := by
  fun_induction Site.tagBytes ss xs generalizing source start with
  | case1 xs =>
    obtain rfl : "" = source := by simpa [Site.resolveSource] using h
    exact ⟨[], rfl, by simp [hostIn?]⟩
  | case2 s ss ih =>
    obtain ⟨rest, hr, rfl⟩ := Site.resolveSource_cons_nil h
    obtain ⟨pieces, hp, hosts⟩ := ih hr (start + s.raw.utf8ByteSize)
    refine ⟨⟨start, s.raw.utf8ByteSize, .literal s.span.start⟩ :: pieces, ?_, ?_⟩
    · simp [piecesFrom, Piece.stop, hp, Nat.add_assoc]
    · intro side
      exact hostIn?_literal (hosts side)
  | case3 s ss x xs ih =>
    obtain ⟨value, rest, hv, hr, rfl⟩ := Site.resolveSource_cons h
    obtain ⟨pieces, hp, hosts⟩ := ih hr (start + s.raw.utf8ByteSize + value.utf8ByteSize)
    refine ⟨⟨start, s.raw.utf8ByteSize, .literal s.span.start⟩ ::
      ⟨start + s.raw.utf8ByteSize, value.utf8ByteSize, .substituted x.expr x.substitution⟩ ::
        pieces, ?_, ?_⟩
    · simp only [piecesFrom, Piece.stop, hv, hp, Option.bind_eq_bind, Option.bind_some]
      simp [Nat.add_assoc]
    · intro side
      exact hostIn?_literal (hostIn?_substituted hv (hosts side))

/-! ## Exactness -/

/-- The map sends both ends of every byte to where the byte comes from, and all beyond the last byte
to the end of the text. -/
def FollowsTags (m : PositionMap) (site : Site) : Prop :=
  ∀ side k, m.toHost (side.ofByte k) side =
    (site.taggedBytes[k]?.map fun t => t.2.host side).getD site.text.stop

/-- A map whose pieces answer by the tags follows them. -/
theorem followsTags_of_hostIn? {m : PositionMap} {site : Site} (ht : m.text = site.text)
    (h : ∀ side k, hostIn? m.pieces (side.ofByte k) side =
      site.taggedBytes[k]?.map fun t => t.2.host side) : m.FollowsTags site := by
  intro side k
  have first : ¬ (side = .stop ∧ side.ofByte k = 0) := by
    rintro ⟨rfl, hz⟩
    simp [Side.ofByte] at hz
  rw [toHost, if_neg first, ← h, hostIn?, ht]
  cases m.pieces.find? fun p => p.contains (side.ofByte k) side <;> rfl

/-- A site with a source has a map. -/
theorem exists_ofSite? {site : Site} {source : String} (hs : site.source = some source)
    (hr : Site.resolveSource site.segments site.interpolations = some source) :
    ∃ m, ofSite? site = some m ∧ m.text = site.text ∧ m.size = source.utf8ByteSize ∧
      m.FollowsTags site := by
  obtain ⟨pieces, hp, hosts⟩ := exists_piecesFrom hr 0
  simp only [Nat.zero_add] at hp hosts
  refine ⟨⟨pieces, site.text, source.utf8ByteSize⟩, ?_, rfl, rfl, ?_⟩
  · simp [ofSite?, hp, hs]
  · exact followsTags_of_hostIn? rfl hosts

namespace FollowsTags

variable {m : PositionMap} {site : Site} {s : Segment} {j : Nat}

theorem toHost_of_tag (h : m.FollowsTags site) {k : Nat} {b : UInt8} {t : ByteSource}
    (hk : site.taggedBytes[k]? = some (b, t)) (side : Side) :
    m.toHost (side.ofByte k) side = t.host side := by
  rw [h side k, hk, Option.map_some, Option.getD_some]

/-- Offsets beyond the last byte go to the end of the text. -/
theorem toHost_beyond (h : m.FollowsTags site) {k : Nat} (hk : site.taggedBytes.length ≤ k)
    (side : Side) : m.toHost (side.ofByte k) side = site.text.stop := by
  rw [h side k, List.getElem?_eq_none hk, Option.map_none, Option.getD_none]

/-- A range that begins and ends in a segment goes to the same bytes of the segment. -/
theorem mapSpan_of_run (h : m.FollowsTags site) {source : Text} {a b : Nat}
    (run : Site.InRun source site.taggedBytes a s j) (hab : a < b)
    (hb : b ≤ a + (s.raw.utf8ByteSize - j)) :
    m.mapSpan ⟨a, b⟩ = ⟨s.span.start + j, s.span.start + (j + (b - a))⟩ := by
  obtain ⟨_, first⟩ := run.getElem? (d := 0) (by omega)
  obtain ⟨_, last⟩ := run.getElem? (d := b - a - 1) (by omega)
  have hs : m.toHost a .start = s.span.start + j := h.toHost_of_tag first .start
  have he : m.toHost (a + (b - a - 1) + 1) .stop = s.span.start + (j + (b - a - 1)) + 1 :=
    h.toHost_of_tag last .stop
  rw [show a + (b - a - 1) + 1 = b by omega] at he
  simp only [mapSpan, hs, he, Span.mk.injEq, true_and]
  omega

variable {host : Text} {source : String}

/-- The bytes of a range inside a segment are those of its image. -/
theorem extract_mapSpan (h : m.FollowsTags site) {a b : Nat}
    (reads : host.ReadsAt s.span s.raw.toList)
    (run : Site.InRun source.toList site.taggedBytes a s j) (hab : a < b)
    (hb : b ≤ a + (s.raw.utf8ByteSize - j)) :
    (Bytes.ofText host).extract (m.mapSpan ⟨a, b⟩).start (m.mapSpan ⟨a, b⟩).stop =
      (Bytes.ofString source).extract a b := by
  obtain ⟨span, inSource, rfl⟩ := run.readsAt
  have len := Text.size_toList s.raw
  obtain ⟨d, rfl⟩ : ∃ d, b = span.start + (j + d) := ⟨b - (span.start + j), by omega⟩
  rw [h.mapSpan_of_run run hab hb, Bytes.ofString_eq_ofText,
    inSource.extract_ofText (by omega) (by omega),
    show span.start + (j + d) - (span.start + j) = d by omega]
  exact reads.extract_ofText (by omega) (by omega)

/-- The text of a range inside a segment is that of its image. -/
theorem slice_mapSpan (h : m.FollowsTags site) {a b : Nat}
    (reads : host.ReadsAt s.span s.raw.toList)
    (run : Site.InRun source.toList site.taggedBytes a s j) (hab : a < b)
    (hb : b ≤ a + (s.raw.utf8ByteSize - j)) (boundA : Text.IsBoundary source.toList a)
    (boundB : Text.IsBoundary source.toList b) :
    host.slice (m.mapSpan ⟨a, b⟩) = Text.slice source.toList ⟨a, b⟩ := by
  obtain ⟨span, inSource, rfl⟩ := run.readsAt
  have len := Text.size_toList s.raw
  obtain ⟨d, rfl⟩ : ∃ d, b = span.start + (j + d) := ⟨b - (span.start + j), by omega⟩
  have innerA := inSource.isBoundary boundA (by omega)
  have innerB := inSource.isBoundary boundB (by omega)
  rw [h.mapSpan_of_run run hab hb, inSource.slice_within innerA innerB (by omega),
    show span.start + (j + d) - (span.start + j) = d by omega]
  exact reads.slice_within innerA innerB (by omega)

end FollowsTags

/-- What a position map says about a source and the host text it comes from. -/
structure Exact (m : PositionMap) (host : Text) (site : Site) (source : String) : Prop where
  /-- The tagged bytes are the bytes of the source, so every offset below its size has a tag. -/
  bytes : site.taggedBytes.map Prod.fst = Bytes.ofString source
  size : m.size = source.utf8ByteSize
  /-- A tag names a segment of the site and the byte of it that stands there. -/
  segment_byte {k : Nat} {b : UInt8} {s : Segment} {j : Nat} :
    site.taggedBytes[k]? = some (b, .segment s j) →
    s ∈ site.segments ∧ (Bytes.ofString s.raw)[j]? = some b
  start_segment {k : Nat} {b : UInt8} {s : Segment} {j : Nat} :
    site.taggedBytes[k]? = some (b, .segment s j) → m.toHost k .start = s.span.start + j
  start_interpolation {k : Nat} {b : UInt8} {x : Interpolation} :
    site.taggedBytes[k]? = some (b, .interpolation x) → m.toHost k .start = x.expr.start
  start_beyond {k : Nat} : m.size ≤ k → m.toHost k .start = site.text.stop
  stop_zero : m.toHost 0 .stop = site.text.start
  stop_segment {k : Nat} {b : UInt8} {s : Segment} {j : Nat} :
    site.taggedBytes[k]? = some (b, .segment s j) → m.toHost (k + 1) .stop = s.span.start + j + 1
  stop_interpolation {k : Nat} {b : UInt8} {x : Interpolation} :
    site.taggedBytes[k]? = some (b, .interpolation x) → m.toHost (k + 1) .stop = x.expr.stop
  stop_beyond {k : Nat} : m.size < k → m.toHost k .stop = site.text.stop
  /-- A range that begins and ends in one segment covers the same bytes in both texts. -/
  bytes_mapSpan {a b : Nat} {byte : UInt8} {s : Segment} {j : Nat} :
    site.taggedBytes[a]? = some (byte, .segment s j) → a < b → b ≤ a + (s.raw.utf8ByteSize - j) →
    (Bytes.ofText host).extract (m.mapSpan ⟨a, b⟩).start (m.mapSpan ⟨a, b⟩).stop =
      (Bytes.ofString source).extract a b
  /-- If it also begins and ends between characters, it reads the same. -/
  text_mapSpan {a b : Nat} {byte : UInt8} {s : Segment} {j : Nat} :
    site.taggedBytes[a]? = some (byte, .segment s j) → a < b → b ≤ a + (s.raw.utf8ByteSize - j) →
    Text.IsBoundary source.toList a → Text.IsBoundary source.toList b →
    host.slice (m.mapSpan ⟨a, b⟩) = Text.slice source.toList ⟨a, b⟩

/-- Every scanned site with a source has a map, and the map is exact. -/
theorem exists_exact_ofSite? {host : Text} {site : Site} {source : String}
    (h : site.Scanned host) (hs : site.source = some source) :
    ∃ m, ofSite? site = some m ∧ m.Exact host site source := by
  have hr : Site.resolveSource site.segments site.interpolations = some source := h.source ▸ hs
  obtain ⟨m, hm, ht, hsize, follows⟩ := exists_ofSite? hs hr
  have len : site.taggedBytes.length = m.size := (Site.length_tagBytes hr).trans hsize.symm
  refine ⟨m, hm, ?_⟩
  refine
    { bytes := Site.map_fst_tagBytes hr
      size := hsize
      segment_byte := ?_
      start_segment := fun hk => follows.toHost_of_tag hk .start
      start_interpolation := fun hk => follows.toHost_of_tag hk .start
      start_beyond := fun hk => follows.toHost_beyond (len ▸ hk) .start
      stop_zero := by simp [toHost, ht]
      stop_segment := fun hk => follows.toHost_of_tag hk .stop
      stop_interpolation := fun hk => follows.toHost_of_tag hk .stop
      stop_beyond := ?_
      bytes_mapSpan := ?_
      text_mapSpan := ?_ }
  · intro k b s j hk
    obtain ⟨hmem, hb, _⟩ := Site.inRun_of_segment hr hk
    exact ⟨hmem, hb⟩
  · intro k hk
    obtain ⟨k, rfl⟩ : ∃ n, k = n + 1 := ⟨k - 1, by omega⟩
    exact follows.toHost_beyond (by omega) .stop
  · intro a b byte s j ha hab hb
    obtain ⟨hmem, -, run⟩ := Site.inRun_of_segment hr ha
    exact follows.extract_mapSpan (h.tiles.readsAt hmem) run hab hb
  · intro a b byte s j ha hab hb boundA boundB
    obtain ⟨hmem, -, run⟩ := Site.inRun_of_segment hr ha
    exact follows.slice_mapSpan (h.tiles.readsAt hmem) run hab hb boundA boundB

/-! ## An example -/

/-- A host text with two adjacent substitutions and a character of two bytes. -/
def adjacentHost : Text := "sol\x60é$\x7b N \x7d$\x7b E \x7db\x60".toList

def adjacentSite : Site where
  name := none
  marker := ⟨0, 3⟩
  span := ⟨0, 20⟩
  template := ⟨3, 20⟩
  segments := [⟨"é", ⟨4, 6⟩⟩, ⟨"", ⟨12, 12⟩⟩, ⟨"b", ⟨18, 19⟩⟩]
  interpolations := [⟨⟨9, 10⟩, ⟨6, 12⟩, some "ab"⟩, ⟨⟨15, 16⟩, ⟨12, 18⟩, some ""⟩]
  source := some "éabb"

theorem scanned_adjacentSite : adjacentSite.Scanned adjacentHost := by
  have first : adjacentHost.ReadsAt ⟨4, 6⟩ "é".toList :=
    ⟨"sol\x60".toList, "$\x7b N \x7d$\x7b E \x7db\x60".toList, by decide, by decide, by decide⟩
  have second : adjacentHost.ReadsAt ⟨12, 12⟩ "".toList :=
    ⟨"sol\x60é$\x7b N \x7d".toList, "$\x7b E \x7db\x60".toList, by decide, by decide, by decide⟩
  have third : adjacentHost.ReadsAt ⟨18, 19⟩ "b".toList :=
    ⟨"sol\x60é$\x7b N \x7d$\x7b E \x7d".toList, "\x60".toList, by decide, by decide, by decide⟩
  refine ⟨?_, by decide⟩
  refine Tiles.next (s := ⟨"é", ⟨4, 6⟩⟩) first rfl (by decide) (by decide) (by decide) ?_
  refine Tiles.next (s := ⟨"", ⟨12, 12⟩⟩) second rfl (by decide) (by decide) (by decide) ?_
  exact Tiles.last (s := ⟨"b", ⟨18, 19⟩⟩) third

/-- The example has a map, and it is exact. -/
theorem exact_adjacentSite :
    adjacentSite.Scanned adjacentHost ∧ adjacentSite.source = some "éabb" ∧
      ∃ m, ofSite? adjacentSite = some m ∧ m.Exact adjacentHost adjacentSite "éabb" :=
  ⟨scanned_adjacentSite, rfl, exists_exact_ofSite? scanned_adjacentSite rfl⟩

end PositionMap

end SolidityInlay
