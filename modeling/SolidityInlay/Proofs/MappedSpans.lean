import SolidityInlay.Proofs.ReverseMap
import SolidityInlay.Proofs.Site

/-!
# Mapped ranges keep their order

Bytes come in the order of the host text, so a position map never turns offsets around: it is
monotone on either side, what starts at a byte lies before what ends at it or later, and a range
inside another goes to a range inside the other's image. All of it stays between the template's
marks, and offsets between characters go to offsets between characters.

Main definitions: `Site.Placed`, `Site.hostAt`, `PositionMap.Ordered`. Main statement:
`PositionMap.exists_ordered_ofSite?`.
-/

namespace SolidityInlay

/-! ## Boundaries -/

/-- What stands at a span has its boundaries at boundaries of the text. -/
theorem Text.ReadsAt.isBoundary_add {text : Text} {span : Span} {part : Text}
    (reads : text.ReadsAt span part) {i : Nat} (h : part.IsBoundary i) :
    text.IsBoundary (span.start + i) := by
  obtain ⟨before, after, rfl, start, _⟩ := reads
  obtain ⟨front, back, rfl, rfl⟩ := h
  refine ⟨before ++ front, back ++ after, by simp, ?_⟩
  simp [start]

theorem Text.ReadsAt.isBoundary_ends {text : Text} {span : Span} {part : Text}
    (reads : text.ReadsAt span part) :
    text.IsBoundary span.start ∧ text.IsBoundary span.stop := by
  constructor
  · simpa using reads.isBoundary_add (i := 0) ⟨[], part, rfl, rfl⟩
  · have last := reads.isBoundary_add (i := part.size) ⟨part, [], by simp, rfl⟩
    obtain ⟨_, _, _, _, stop⟩ := reads
    rwa [stop]

/-- What segments and substitutions cover begins and ends between characters. -/
theorem Tiles.isBoundary_ends {host : Text} {start stop : Nat} {ss : List Segment}
    {xs : List Interpolation} (tiles : Tiles host start stop ss xs) :
    host.IsBoundary start ∧ host.IsBoundary stop := by
  induction tiles with
  | last reads => exact reads.isBoundary_ends
  | next reads _ _ _ _ _ ih => exact ⟨reads.isBoundary_ends.1, ih.2⟩

namespace Site

/-- A scanned site whose expressions begin and end between characters of the host text. -/
structure Placed (host : Text) (site : Site) : Prop extends site.Scanned host where
  boundary : ∀ x ∈ site.interpolations,
    host.IsBoundary x.expr.start ∧ host.IsBoundary x.expr.stop

open Host in
/-- In a tree laid over its text, the sites a scan finds are of this kind. -/
theorem placed_of_mem_scan {t : Tree} (laid : t.LaidOver) {marker : String} {site : Site}
    (h : site ∈ scan marker t) : site.Placed t.text := by
  obtain ⟨call, held, matched⟩ := exists_holds_of_mem_scan h
  refine ⟨scanned_of_match? laid held matched, ?_⟩
  obtain ⟨template, tag, name, parts, applies, hp, rfl⟩ := match?_eq_some_iff.1 matched
  intro x hx
  obtain ⟨s, hs, rfl⟩ := List.mem_map.1 hx
  obtain ⟨c, hc, operand, _⟩ :=
    Template.mem_substitutions_of_split (Template.parts?_eq_some_iff.1 hp).2 hs
  have templateHeld :=
    Tree.holds_of_mem_children held (Located.mem_children_of_child? applies.argument)
  have substitutionHeld := Tree.holds_of_mem_children templateHeld (Template.mem_substitutions hc).1
  exact laid.boundary s.expr
    (Tree.holds_of_mem_children substitutionHeld (Located.mem_children_of_operand? operand))

/-! ## Where bytes go -/

/-- Where the byte of a number begins or ends in the host text. Bytes past the last one are at the
end of the text. -/
def hostAt (site : Site) (side : Side) (k : Nat) : Nat :=
  (site.taggedBytes[k]?.map fun t => t.2.host side).getD site.text.stop

theorem hostAt_of_tag {site : Site} {k : Nat} {t : UInt8 × ByteSource}
    (hk : site.taggedBytes[k]? = some t) (side : Side) : site.hostAt side k = t.2.host side := by
  simp [hostAt, hk]

theorem hostAt_of_none {site : Site} {k : Nat} (hk : site.taggedBytes[k]? = none) (side : Side) :
    site.hostAt side k = site.text.stop := by
  simp [hostAt, hk]

namespace Scanned

variable {host : Text} {site : Site} {side : Side} {k : Nat} {b : UInt8} {t : ByteSource}
  (scanned : site.Scanned host)

include scanned

/-- No byte ends before it begins, in the host text either. -/
theorem host_start_le_stop (hk : site.taggedBytes[k]? = some (b, t)) :
    t.host .start ≤ t.host .stop := by
  cases t with
  | segment s j => exact Nat.le_succ _
  | interpolation x => exact (scanned.tiles.strictly_inside (scanned.mem_of_tag hk)).2.1

/-- Both ends of a byte lie within the text it stands for. -/
theorem host_within_extent (hk : site.taggedBytes[k]? = some (b, t)) (side : Side) :
    t.extent.start ≤ t.host side ∧ t.host side ≤ t.extent.stop := by
  have ends := scanned.host_of_tag hk
  have ordered := scanned.host_start_le_stop hk
  cases side <;> omega

theorem text_start_le_stop : site.text.start ≤ site.text.stop := scanned.tiles.start_le_stop

/-- No byte is outside the text between the marks. -/
theorem hostAt_within (side : Side) (k : Nat) :
    site.text.start ≤ site.hostAt side k ∧ site.hostAt side k ≤ site.text.stop := by
  cases hk : site.taggedBytes[k]? with
  | none =>
    rw [hostAt_of_none hk]
    exact ⟨scanned.text_start_le_stop, Nat.le_refl _⟩
  | some tag =>
    have extent := scanned.extent_of_tag hk
    have ends := scanned.host_within_extent hk side
    rw [hostAt_of_tag hk]
    omega

theorem hostAt_start_le_stop (k : Nat) : site.hostAt .start k ≤ site.hostAt .stop k := by
  cases hk : site.taggedBytes[k]? with
  | none => simp [hostAt_of_none hk]
  | some tag =>
    rw [hostAt_of_tag hk, hostAt_of_tag hk]
    exact scanned.host_start_le_stop hk

/-- A byte that precedes another goes to an earlier place, or both are of one value. -/
theorem hostAt_mono (side : Side) {i k : Nat} (le : i ≤ k) :
    site.hostAt side i ≤ site.hostAt side k := by
  cases hk : site.taggedBytes[k]? with
  | none =>
    rw [hostAt_of_none hk]
    exact (scanned.hostAt_within side i).2
  | some last =>
    rcases Nat.lt_or_eq_of_le le with lt | rfl
    · have bound := (List.getElem?_eq_some_iff.1 hk).1
      obtain ⟨first, hi⟩ : ∃ first, site.taggedBytes[i]? = some first :=
        ⟨_, List.getElem?_eq_getElem (Nat.lt_trans lt bound)⟩
      rw [hostAt_of_tag hi, hostAt_of_tag hk]
      rcases scanned.precedes_of_lt hi hk lt with behind | ⟨x, left, right⟩
      · have left := scanned.host_within_extent hi side
        have right := scanned.host_within_extent hk side
        omega
      · simp [left, right]
    · exact Nat.le_refl _

end Scanned

/-- Between characters of the source, a byte of it begins and ends between characters of the host
text. -/
theorem Placed.isBoundary_hostAt {host : Text} {site : Site} {source : String}
    (placed : site.Placed host) (hs : site.source = some source) {side : Side} {k : Nat}
    (h : Text.IsBoundary source.toList (side.ofByte k)) : host.IsBoundary (site.hostAt side k) := by
  have resolved : resolveSource site.segments site.interpolations = some source :=
    placed.source ▸ hs
  cases hk : site.taggedBytes[k]? with
  | none =>
    rw [hostAt_of_none hk]
    exact placed.tiles.isBoundary_ends.2
  | some tag =>
    obtain ⟨b, t⟩ := tag
    rw [hostAt_of_tag hk]
    cases t with
    | interpolation x =>
      have ends := placed.boundary x (placed.toScanned.mem_of_tag hk)
      cases side with
      | start => exact ends.1
      | stop => exact ends.2
    | segment s j =>
      obtain ⟨member, byte, run⟩ := inRun_of_segment resolved hk
      obtain ⟨span, inSource, rfl⟩ := run.readsAt
      have bound : j < s.raw.utf8ByteSize := by
        simpa using (List.getElem?_eq_some_iff.1 byte).1
      -- the offset is one of the segment, in the source as in the host text
      have shifted (n : Nat) : side.ofByte (n + j) = n + side.ofByte j := by
        cases side <;> simp [Side.ofByte, Nat.add_assoc]
      have inside : side.ofByte j ≤ Text.size s.raw.toList := by
        rw [Text.size_toList]
        cases side <;> simp only [Side.ofByte] <;> omega
      rw [shifted] at h
      have inner := inSource.isBoundary h inside
      simpa [ByteSource.host, shifted] using (placed.tiles.readsAt member).isBoundary_add inner

end Site

/-! ## Offsets and ranges -/

namespace PositionMap

/-- A position map keeps the order of offsets and ranges, and stays inside the text. -/
structure Ordered (m : PositionMap) (host : Text) (site : Site) (source : String) : Prop where
  monotone {a b : Nat} (side : Side) : a ≤ b → m.toHost a side ≤ m.toHost b side
  within (k : Nat) (side : Side) :
    site.text.start ≤ m.toHost k side ∧ m.toHost k side ≤ site.text.stop
  start_le_stop {a b : Nat} : a < b → m.toHost a .start ≤ m.toHost b .stop
  /-- The ends of a range go each to its place; only a range without bytes is ever put right. -/
  mapSpan_eq {s : Span} : s.start < s.stop →
    m.mapSpan s = ⟨m.toHost s.start .start, m.toHost s.stop .stop⟩
  mapSpan_within {s t : Span} : s.start < s.stop → s.Within t → (m.mapSpan s).Within (m.mapSpan t)
  isBoundary {k : Nat} (side : Side) : Text.IsBoundary source.toList k →
    host.IsBoundary (m.toHost k side)

namespace FollowsTags

variable {m : PositionMap} {host : Text} {site : Site} (follows : m.FollowsTags site)
  (ht : m.text = site.text) (scanned : site.Scanned host)

include follows

/-- The map sends an offset, as the start of a range, to where the byte there begins. -/
theorem toHost_start (k : Nat) : m.toHost k .start = site.hostAt .start k := follows .start k

/-- The map sends an offset, as the end of a range, to where the byte before it ends. -/
theorem toHost_stop_succ (k : Nat) : m.toHost (k + 1) .stop = site.hostAt .stop k :=
  follows .stop k

include scanned

/-- A range that is not empty is not turned around. -/
theorem toHost_start_le_stop {a b : Nat} (lt : a < b) : m.toHost a .start ≤ m.toHost b .stop := by
  obtain ⟨k, rfl⟩ : ∃ k, b = k + 1 := ⟨b - 1, by omega⟩
  rw [follows.toHost_start, follows.toHost_stop_succ]
  exact Nat.le_trans (scanned.hostAt_mono .start (Nat.le_of_lt_succ lt))
    (scanned.hostAt_start_le_stop k)

include ht

/-- The map stays inside the text between the marks. -/
theorem toHost_within (k : Nat) (side : Side) :
    site.text.start ≤ m.toHost k side ∧ m.toHost k side ≤ site.text.stop := by
  cases side with
  | start =>
    rw [follows.toHost_start]
    exact scanned.hostAt_within .start k
  | stop =>
    cases k with
    | zero => simpa [toHost, ht] using scanned.text_start_le_stop
    | succ k =>
      rw [follows.toHost_stop_succ]
      exact scanned.hostAt_within .stop k

/-- The map keeps the order of offsets on either side. -/
theorem toHost_mono {a b : Nat} (side : Side) (le : a ≤ b) :
    m.toHost a side ≤ m.toHost b side := by
  cases side with
  | start =>
    rw [follows.toHost_start, follows.toHost_start]
    exact scanned.hostAt_mono .start le
  | stop =>
    cases a with
    | zero => simpa [toHost, ht] using (follows.toHost_within ht scanned b .stop).1
    | succ a =>
      obtain ⟨b, rfl⟩ : ∃ k, b = k + 1 := ⟨b - 1, by omega⟩
      rw [follows.toHost_stop_succ, follows.toHost_stop_succ]
      exact scanned.hostAt_mono .stop (by omega)

end FollowsTags

/-- Wherever its ends go, a range is mapped to one that is not turned around and lies between the
template's marks. -/
theorem mapSpan_inside {host : Text} {site : Site} (scanned : site.Scanned host) {source : String}
    (hs : site.source = some source) {m : PositionMap} (hm : ofSite? site = some m) (s : Span) :
    site.text.start ≤ (m.mapSpan s).start ∧ (m.mapSpan s).start ≤ (m.mapSpan s).stop ∧
      (m.mapSpan s).stop ≤ site.text.stop := by
  obtain ⟨m', hm', ht, _, follows⟩ := exists_ofSite? hs (scanned.source ▸ hs)
  obtain rfl : m = m' := Option.some.inj (hm.symm.trans hm')
  have first := follows.toHost_within ht scanned s.start .start
  have last := follows.toHost_within ht scanned s.stop .stop
  simp only [mapSpan]
  omega

/-- Every site that a scan finds with a source has a map, and the map keeps the order. -/
theorem exists_ordered_ofSite? {host : Text} {site : Site} {source : String}
    (placed : site.Placed host) (hs : site.source = some source) :
    ∃ m, ofSite? site = some m ∧ m.Ordered host site source := by
  obtain ⟨m, hm, ht, _, follows⟩ := exists_ofSite? hs (placed.source ▸ hs)
  have scanned := placed.toScanned
  have forward {s : Span} (lt : s.start < s.stop) :
      m.mapSpan s = ⟨m.toHost s.start .start, m.toHost s.stop .stop⟩ := by
    simp only [mapSpan, Nat.max_eq_left (follows.toHost_start_le_stop scanned lt)]
  refine ⟨m, hm, ?_⟩
  refine
    { monotone := follows.toHost_mono ht scanned
      within := follows.toHost_within ht scanned
      start_le_stop := follows.toHost_start_le_stop scanned
      mapSpan_eq := forward
      mapSpan_within := ?_
      isBoundary := ?_ }
  · rintro s t lt ⟨left, right⟩
    rw [forward lt, forward (by omega)]
    exact ⟨follows.toHost_mono ht scanned .start left, follows.toHost_mono ht scanned .stop right⟩
  · intro k side boundary
    cases side with
    | start =>
      rw [follows.toHost_start]
      exact placed.isBoundary_hostAt hs boundary
    | stop =>
      cases k with
      | zero => simpa [toHost, ht] using placed.tiles.isBoundary_ends.1
      | succ k =>
        rw [follows.toHost_stop_succ]
        exact placed.isBoundary_hostAt hs boundary

/-- The site with adjacent substitutions and a character of two bytes has such a map. -/
theorem ordered_adjacentSite :
    adjacentSite.Placed adjacentHost ∧ adjacentSite.source = some "éabb" ∧
      ∃ m, ofSite? adjacentSite = some m ∧ m.Ordered adjacentHost adjacentSite "éabb" := by
  have placed : adjacentSite.Placed adjacentHost := ⟨scanned_adjacentSite, by decide⟩
  exact ⟨placed, rfl, exists_ordered_ofSite? placed rfl⟩

end PositionMap

end SolidityInlay
