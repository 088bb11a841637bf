import SolidityInlay.Proofs.PositionMap

/-!
# The position map can be turned around

From a host offset back to the source, a position map counts: the offset in the source is the number
of bytes that come before the host offset. A byte of a segment comes before all that lies behind it.
The value of a substitution comes before an offset inside the substitution if the offset ends a
range, and not if it starts one. Bytes come in the order of the host text, so the bytes counted are
the first ones, and both directions of the map undo each other wherever no value is in the way.

Main definitions: `ByteSource.isBefore`, `Site.bytesBefore`, `PositionMap.Inverse`. Main statement:
`PositionMap.exists_inverse_ofSite?`.
-/

namespace SolidityInlay

/-! ## Counting the first elements of a list -/

section

variable {α : Type} {p : α → Bool} {l : List α}

/-- If a predicate holds of all elements in front of one it holds of, then the elements it counts
are the first ones. -/
theorem lt_countP_iff (closed : l.Pairwise fun x y => p y = true → p x = true) {i : Nat} {x : α}
    (hx : l[i]? = some x) : i < l.countP p ↔ p x = true := by
  induction l generalizing i with
  | nil => simp at hx
  | cons a l ih =>
    obtain ⟨first, closed⟩ := List.pairwise_cons.1 closed
    by_cases ha : p a = true
    · rw [List.countP_cons_of_pos ha]
      cases i with
      | zero =>
        obtain rfl : a = x := by simpa using hx
        simp [ha]
      | succ i =>
        rw [← ih closed (by simpa using hx)]
        omega
    · have none : ∀ y ∈ l, ¬ p y = true := fun y hy hp => ha (first y hy hp)
      have failed : ¬ p x = true := by
        rcases List.mem_cons.1 (List.mem_of_getElem? hx) with rfl | mem
        · exact ha
        · exact none x mem
      rw [List.countP_cons_of_neg ha, List.countP_eq_zero.2 none]
      simp [failed]

/-- The number of such elements is where they end. -/
theorem countP_eq_of_seam (closed : l.Pairwise fun x y => p y = true → p x = true) {k : Nat}
    (bound : k ≤ l.length) (front : ∀ i x, i + 1 = k → l[i]? = some x → p x = true)
    (back : ∀ x, l[k]? = some x → ¬ p x = true) : l.countP p = k := by
  have le : l.countP p ≤ l.length := List.countP_le_length
  apply Nat.le_antisymm
  · by_cases inside : k < l.length
    · have here := List.getElem?_eq_getElem inside
      exact Nat.le_of_not_lt fun lt => back _ here ((lt_countP_iff closed here).1 lt)
    · omega
  · cases k with
    | zero => exact Nat.zero_le _
    | succ i =>
      have here := List.getElem?_eq_getElem (Nat.lt_of_succ_le bound)
      exact (lt_countP_iff closed here).2 (front i _ rfl here)

end

/-! ## Bytes before a host offset -/

namespace ByteSource

/-- The host text a byte stands for: one byte of a segment, or a whole substitution. -/
def extent : ByteSource → Span
  | segment s byte => ⟨s.span.start + byte, s.span.start + byte + 1⟩
  | interpolation x => x.substitution

@[simp] theorem extent_segment (s : Segment) (j : Nat) :
    (segment s j).extent = ⟨s.span.start + j, s.span.start + j + 1⟩ := rfl

@[simp] theorem extent_interpolation (x : Interpolation) :
    (interpolation x).extent = x.substitution := rfl

def isBefore (offset : Nat) (side : Side) (b : ByteSource) : Bool :=
  match side with
  | .start => b.extent.stop ≤ offset
  | .stop => b.extent.start < offset

variable {offset : Nat} {side : Side} {b : ByteSource}

theorem isBefore_start : b.isBefore offset .start = true ↔ b.extent.stop ≤ offset := by
  simp [isBefore]

theorem isBefore_stop : b.isBefore offset .stop = true ↔ b.extent.start < offset := by
  simp [isBefore]

/-- Of a segment, the bytes before an offset are those that begin before it, on either side. -/
theorem isBefore_segment {s : Segment} {j : Nat} :
    (segment s j).isBefore offset side = true ↔ s.span.start + j < offset := by
  cases side with
  | start =>
    rw [isBefore_start]
    exact Nat.succ_le_iff
  | stop => simp [isBefore_stop]

/-- Where an offset does not fall into the text of a byte, both sides say the same. -/
theorem isBefore_iff (proper : b.extent.start < b.extent.stop)
    (outside : ¬ (b.extent.start < offset ∧ offset < b.extent.stop)) :
    b.isBefore offset side = true ↔ b.extent.stop ≤ offset := by
  cases side with
  | start => exact isBefore_start
  | stop =>
    rw [isBefore_stop]
    omega

/-- A byte before an offset is before all later offsets. -/
theorem isBefore_mono {later : Nat} (le : offset ≤ later) (before : b.isBefore offset side = true) :
    b.isBefore later side = true := by
  cases side with
  | start =>
    rw [isBefore_start] at before ⊢
    omega
  | stop =>
    rw [isBefore_stop] at before ⊢
    omega

/-- The second byte lies behind the first in the host text, or both are of one value. -/
def Precedes (a b : ByteSource) : Prop :=
  a.extent.stop ≤ b.extent.start ∨ ∃ x, a = .interpolation x ∧ b = .interpolation x

/-- With a byte also those that precede it come before an offset. -/
theorem Precedes.isBefore {a : ByteSource} (h : a.Precedes b)
    (properA : a.extent.start < a.extent.stop) (properB : b.extent.start < b.extent.stop)
    (before : b.isBefore offset side = true) : a.isBefore offset side = true := by
  rcases h with behind | ⟨x, rfl, rfl⟩
  · cases side with
    | start =>
      rw [isBefore_start] at before ⊢
      omega
    | stop =>
      rw [isBefore_stop] at before ⊢
      omega
  · exact before

end ByteSource

/-- A value is counted whole or not at all. -/
theorem Interpolation.countP_taggedBytes (x : Interpolation) (offset : Nat) (side : Side) :
    x.taggedBytes.countP (fun t => t.2.isBefore offset side) =
      if (ByteSource.interpolation x).isBefore offset side then (x.value.getD "").utf8ByteSize
      else 0 := by
  rw [← x.length_taggedBytes]
  have all : ∀ t ∈ x.taggedBytes, t.2 = .interpolation x := by simp [Interpolation.taggedBytes]
  split
  · rename_i before
    exact List.countP_eq_length.2 fun t ht => all t ht ▸ before
  · rename_i before
    exact List.countP_eq_zero.2 fun t ht => all t ht ▸ before

/-- The bytes of a segment before an offset, by subtraction. -/
theorem Segment.countP_taggedBytes (s : Segment) (offset : Nat) (side : Side) :
    s.taggedBytes.countP (fun t => t.2.isBefore offset side) =
      min (offset - s.span.start) s.raw.utf8ByteSize := by
  have tag {i : Nat} {t : UInt8 × ByteSource} (ht : s.taggedBytes[i]? = some t) :
      t.2.isBefore offset side = true ↔ s.span.start + i < offset := by
    rw [Segment.getElem?_taggedBytes, Option.map_eq_some_iff] at ht
    obtain ⟨b, -, rfl⟩ := ht
    exact ByteSource.isBefore_segment
  refine countP_eq_of_seam ?_ ?_ ?_ ?_
  · rw [List.pairwise_iff_getElem]
    intro i j hi hj lt
    rw [tag (List.getElem?_eq_getElem hi), tag (List.getElem?_eq_getElem hj)]
    omega
  · rw [s.length_taggedBytes]
    omega
  · intro i t hi ht
    rw [tag ht]
    omega
  · intro t ht
    have bound := (List.getElem?_eq_some_iff.1 ht).1
    rw [s.length_taggedBytes] at bound
    rw [tag ht]
    omega

/-! ## Bytes come in the order of the host text -/

theorem Segment.extent_of_mem {host : Text} {s : Segment}
    (reads : host.ReadsAt s.span s.raw.toList) {t : UInt8 × ByteSource} (ht : t ∈ s.taggedBytes) :
    ∃ j, t.2 = .segment s j ∧ s.span.start + j < s.span.stop := by
  obtain ⟨j, hj⟩ := List.getElem?_of_mem ht
  have bound := (List.getElem?_eq_some_iff.1 hj).1
  rw [Segment.getElem?_taggedBytes, Option.map_eq_some_iff] at hj
  obtain ⟨b, -, rfl⟩ := hj
  have len := Text.size_toList s.raw
  obtain ⟨_, _, _, _, stop⟩ := reads
  rw [Segment.length_taggedBytes] at bound
  exact ⟨j, rfl, by omega⟩

theorem Interpolation.eq_of_mem_taggedBytes {x : Interpolation} {t : UInt8 × ByteSource}
    (ht : t ∈ x.taggedBytes) : t.2 = .interpolation x := by
  obtain ⟨b, -, rfl⟩ := List.mem_map.1 ht
  rfl

theorem Segment.pairwise_precedes (s : Segment) :
    s.taggedBytes.Pairwise fun t u => t.2.Precedes u.2 := by
  rw [List.pairwise_iff_getElem]
  intro i j hi hj lt
  simp only [Segment.taggedBytes, List.getElem_mapIdx]
  refine .inl ?_
  simp only [ByteSource.extent_segment]
  omega

theorem Interpolation.pairwise_precedes (x : Interpolation) :
    x.taggedBytes.Pairwise fun t u => t.2.Precedes u.2 :=
  List.pairwise_of_forall_mem_list fun _ ht _ hu =>
    .inr ⟨x, eq_of_mem_taggedBytes ht, eq_of_mem_taggedBytes hu⟩

section

variable {host : Text} {start stop : Nat} {ss : List Segment} {xs : List Interpolation}

namespace Tiles

theorem start_le_stop (tiles : Tiles host start stop ss xs) : start ≤ stop := by
  induction tiles with
  | last reads =>
    obtain ⟨_, _, _, _, stop⟩ := reads
    omega
  | next reads _ _ _ _ _ ih =>
    obtain ⟨_, _, _, _, stop⟩ := reads
    omega

/-- An expression lies strictly inside its substitution. -/
theorem strictly_inside (tiles : Tiles host start stop ss xs) {x : Interpolation} (hx : x ∈ xs) :
    x.substitution.start < x.expr.start ∧ x.expr.start ≤ x.expr.stop ∧
      x.expr.stop < x.substitution.stop := by
  induction tiles with
  | last => simp at hx
  | next _ _ left middle right _ ih =>
    rcases List.mem_cons.1 hx with rfl | hx
    · exact ⟨left, middle, right⟩
    · exact ih hx

theorem mem_interpolations (tiles : Tiles host start stop ss xs) {t : UInt8 × ByteSource}
    (ht : t ∈ Site.tagBytes ss xs) {x : Interpolation} (hx : t.2 = .interpolation x) : x ∈ xs := by
  have notSegment {s : Segment} : t ∉ s.taggedBytes := by
    intro ht
    obtain ⟨j, hj⟩ := List.getElem?_of_mem ht
    rw [Segment.getElem?_taggedBytes, Option.map_eq_some_iff] at hj
    obtain ⟨b, -, rfl⟩ := hj
    cases hx
  induction tiles with
  | last =>
    simp only [Site.tagBytes, List.append_nil] at ht
    exact absurd ht notSegment
  | next _ _ _ _ _ _ ih =>
    simp only [Site.tagBytes, List.mem_append] at ht
    rcases ht with ht | ht | ht
    · exact absurd ht notSegment
    · rw [Interpolation.eq_of_mem_taggedBytes ht, ByteSource.interpolation.injEq] at hx
      simp [hx]
    · exact List.mem_cons_of_mem _ (ih ht)

/-- The text of every byte lies within the tiles. -/
theorem extent_of_mem (tiles : Tiles host start stop ss xs) {t : UInt8 × ByteSource}
    (ht : t ∈ Site.tagBytes ss xs) :
    start ≤ t.2.extent.start ∧ t.2.extent.start < t.2.extent.stop ∧ t.2.extent.stop ≤ stop := by
  induction tiles with
  | last reads =>
    simp only [Site.tagBytes, List.append_nil] at ht
    obtain ⟨j, same, bound⟩ := Segment.extent_of_mem reads ht
    simp only [same, ByteSource.extent_segment]
    omega
  | @next s x stop ss xs reads touch left _ right tiles ih =>
    have inner := tiles.start_le_stop
    have outer : s.span.start ≤ s.span.stop := by
      obtain ⟨_, _, _, _, stop⟩ := reads
      omega
    simp only [Site.tagBytes, List.mem_append] at ht
    rcases ht with ht | ht | ht
    · obtain ⟨j, same, bound⟩ := Segment.extent_of_mem reads ht
      simp only [same, ByteSource.extent_segment]
      omega
    · simp only [Interpolation.eq_of_mem_taggedBytes ht, ByteSource.extent_interpolation]
      omega
    · have := ih ht
      omega

/-- Tagged bytes follow one another in the host text. -/
theorem pairwise_precedes (tiles : Tiles host start stop ss xs) :
    (Site.tagBytes ss xs).Pairwise fun t u => t.2.Precedes u.2 := by
  induction tiles with
  | @last s reads =>
    simp only [Site.tagBytes, List.append_nil]
    exact s.pairwise_precedes
  | @next s x stop ss xs reads touch left _ right tiles ih =>
    simp only [Site.tagBytes]
    refine List.pairwise_append.2 ⟨s.pairwise_precedes, ?_, ?_⟩
    · refine List.pairwise_append.2 ⟨x.pairwise_precedes, ih, fun t ht u hu => .inl ?_⟩
      have := tiles.extent_of_mem hu
      simp only [Interpolation.eq_of_mem_taggedBytes ht, ByteSource.extent_interpolation]
      omega
    · intro t ht u hu
      obtain ⟨j, same, bound⟩ := Segment.extent_of_mem reads ht
      refine .inl ?_
      rcases List.mem_append.1 hu with hu | hu
      · simp only [same, Interpolation.eq_of_mem_taggedBytes hu, ByteSource.extent_segment,
          ByteSource.extent_interpolation]
        omega
      · have := tiles.extent_of_mem hu
        simp only [same, ByteSource.extent_segment]
        omega

/-- None of the bytes comes before an offset in front of the tiles. -/
theorem countP_eq_zero (tiles : Tiles host start stop ss xs) {offset : Nat}
    (front : offset ≤ start) (side : Side) :
    (Site.tagBytes ss xs).countP (fun t => t.2.isBefore offset side) = 0 := by
  refine List.countP_eq_zero.2 fun t ht before => ?_
  have extent := tiles.extent_of_mem ht
  rw [ByteSource.isBefore_iff extent.2.1 (by omega)] at before
  omega

end Tiles

/-! ## The map counts -/

/-- A literal piece answers for offsets on it, both ends included. -/
theorem Piece.toForeign?_literal {first size hostStart offset : Nat} {side : Side} :
    (⟨first, size, .literal hostStart⟩ : Piece).toForeign? offset side =
      if hostStart ≤ offset ∧ offset ≤ hostStart + size then some (first + (offset - hostStart))
      else none := by
  simp [Piece.toForeign?]

/-- A substituted piece answers for offsets strictly inside, with one of its ends. -/
theorem Piece.toForeign?_substituted {first size offset : Nat} {side : Side} {expr sub : Span} :
    (⟨first, size, .substituted expr sub⟩ : Piece).toForeign? offset side =
      if sub.start < offset ∧ offset < sub.stop then
        some (if side = .start then first else first + size)
      else none := by
  cases side <;> simp [Piece.toForeign?, Piece.stop]

namespace PositionMap

/-- The first piece that answers gives the number of bytes before the host offset. -/
theorem findSome?_toForeign? (tiles : Tiles host start stop ss xs) {source : String}
    (resolved : Site.resolveSource ss xs = some source) {first last : Nat} {pieces : List Piece}
    (hp : piecesFrom first ss xs = some (pieces, last)) {offset : Nat} (lower : start ≤ offset)
    (upper : offset ≤ stop) (side : Side) :
    pieces.findSome? (fun p => p.toForeign? offset side) =
      some (first + (Site.tagBytes ss xs).countP fun t => t.2.isBefore offset side) := by
  induction tiles generalizing source first pieces with
  | @last s reads =>
    obtain ⟨_, _, _, _, len⟩ := reads
    rw [Text.size_toList] at len
    obtain rfl : [⟨first, s.raw.utf8ByteSize, .literal s.span.start⟩] = pieces := by
      simp only [piecesFrom, Option.bind_eq_bind, Option.bind_some, Option.some.injEq,
        Prod.mk.injEq] at hp
      exact hp.1
    have inside : s.span.start ≤ offset ∧ offset ≤ s.span.start + s.raw.utf8ByteSize := by omega
    simp only [List.findSome?_cons, Piece.toForeign?_literal, if_pos inside, Site.tagBytes,
      List.append_nil, Segment.countP_taggedBytes, Option.some.injEq]
    omega
  | @next s x stop ss xs reads touch left _ right tiles ih =>
    obtain ⟨_, _, _, _, len⟩ := reads
    rw [Text.size_toList] at len
    obtain ⟨value, rest, hv, hr, rfl⟩ := Site.resolveSource_cons resolved
    simp only [piecesFrom, hv, Option.bind_eq_bind, Option.bind_some] at hp
    obtain ⟨⟨more, last⟩, hmore, hp⟩ := Option.bind_eq_some_iff.1 hp
    simp only [Option.some.injEq, Prod.mk.injEq] at hp
    obtain ⟨rfl, rfl⟩ := hp
    simp only [Site.tagBytes, List.countP_append, Segment.countP_taggedBytes,
      Interpolation.countP_taggedBytes, hv, Option.getD_some, List.findSome?_cons,
      Piece.toForeign?_literal, Piece.toForeign?_substituted]
    have outside (h : ¬ (x.substitution.start < offset ∧ offset < x.substitution.stop)) :
        (ByteSource.interpolation x).isBefore offset side = true ↔
          x.substitution.stop ≤ offset :=
      ByteSource.isBefore_iff (b := .interpolation x)
        (show x.substitution.start < x.substitution.stop by omega) h
    -- on the segment, strictly inside the substitution, or on the tiles behind it
    by_cases onSegment : offset ≤ s.span.stop
    · have notBefore : ¬ (ByteSource.interpolation x).isBefore offset side = true := by
        rw [outside (by omega)]
        omega
      rw [if_pos (by omega), if_neg notBefore, tiles.countP_eq_zero (by omega)]
      simp only [Option.some.injEq]
      omega
    · rw [if_neg (by omega)]
      by_cases inside : offset < x.substitution.stop
      · rw [if_pos (by omega), tiles.countP_eq_zero (by omega)]
        cases side with
        | start =>
          have notBefore : ¬ (ByteSource.interpolation x).isBefore offset .start = true := by
            rw [ByteSource.isBefore_start, ByteSource.extent_interpolation]
            omega
          rw [if_neg notBefore]
          simp only [Piece.stop, if_true, Option.some.injEq]
          omega
        | stop =>
          have before : (ByteSource.interpolation x).isBefore offset .stop = true := by
            rw [ByteSource.isBefore_stop, ByteSource.extent_interpolation]
            omega
          rw [if_pos before]
          simp only [Piece.stop, reduceCtorEq, if_false, Option.some.injEq]
          omega
      · have before : (ByteSource.interpolation x).isBefore offset side = true := by
          rw [outside (by omega)]
          omega
        rw [if_neg (by omega), if_pos before]
        simp only [ih hr hmore (by omega) upper, Piece.stop, Option.some.injEq]
        omega

end PositionMap

end

/-! ## Scanned sites -/

namespace Site

def bytesBefore (site : Site) (offset : Nat) (side : Side) : Nat :=
  site.taggedBytes.countP fun t => t.2.isBefore offset side

def InSubstitution (site : Site) (offset : Nat) : Prop :=
  ∃ x ∈ site.interpolations, x.substitution.start < offset ∧ offset < x.substitution.stop

/-- The bytes of a substitution's value are those from one number up to another. -/
def Occupies (site : Site) (x : Interpolation) (first last : Nat) : Prop :=
  ∀ i, (∃ b, site.taggedBytes[i]? = some (b, .interpolation x)) ↔ first ≤ i ∧ i < last

namespace Scanned

variable {host : Text} {site : Site} {offset : Nat} {side : Side} {k : Nat} {b : UInt8}
  {t : ByteSource} (scanned : site.Scanned host)

include scanned

/-- What a byte stands for lies in the text between the marks. -/
theorem extent_of_tag (hk : site.taggedBytes[k]? = some (b, t)) :
    site.text.start ≤ t.extent.start ∧ t.extent.start < t.extent.stop ∧
      t.extent.stop ≤ site.text.stop :=
  scanned.tiles.extent_of_mem (List.mem_of_getElem? hk)

theorem mem_of_tag {x : Interpolation} (hk : site.taggedBytes[k]? = some (b, .interpolation x)) :
    x ∈ site.interpolations :=
  scanned.tiles.mem_interpolations (List.mem_of_getElem? hk) rfl

theorem precedes_of_lt {i : Nat} {c : UInt8} {u : ByteSource}
    (hi : site.taggedBytes[i]? = some (c, u)) (hk : site.taggedBytes[k]? = some (b, t))
    (lt : i < k) : u.Precedes t := by
  have ordered : site.taggedBytes.Pairwise fun t u => t.2.Precedes u.2 :=
    scanned.tiles.pairwise_precedes
  obtain ⟨boundI, valueI⟩ := List.getElem?_eq_some_iff.1 hi
  obtain ⟨boundK, valueK⟩ := List.getElem?_eq_some_iff.1 hk
  have := List.pairwise_iff_getElem.1 ordered i k boundI boundK lt
  rwa [valueI, valueK] at this

/-- The ends of a byte in the host text lie within the text it stands for. -/
theorem host_of_tag (hk : site.taggedBytes[k]? = some (b, t)) :
    t.extent.start ≤ t.host .start ∧ t.host .stop ≤ t.extent.stop := by
  cases t with
  | segment s j => exact ⟨Nat.le_refl _, Nat.le_refl _⟩
  | interpolation x =>
    have := scanned.tiles.strictly_inside (scanned.mem_of_tag hk)
    simp only [ByteSource.host, ByteSource.extent_interpolation]
    omega

/-- If a byte is before an offset, so are all bytes before it. -/
theorem pairwise_isBefore (offset : Nat) (side : Side) :
    site.taggedBytes.Pairwise fun t u =>
      u.2.isBefore offset side = true → t.2.isBefore offset side = true := by
  refine List.Pairwise.imp_of_mem ?_ scanned.tiles.pairwise_precedes
  intro t u ht hu precedes
  exact precedes.isBefore (scanned.tiles.extent_of_mem ht).2.1 (scanned.tiles.extent_of_mem hu).2.1

/-- The bytes before an offset are the first ones. -/
theorem lt_bytesBefore_iff (hk : site.taggedBytes[k]? = some (b, t)) :
    k < site.bytesBefore offset side ↔ t.isBefore offset side = true :=
  lt_countP_iff (scanned.pairwise_isBefore offset side) hk

/-- An offset outside of substitutions falls into the text of no byte. -/
theorem outside_of_tag (hk : site.taggedBytes[k]? = some (b, t))
    (outside : ¬ site.InSubstitution offset) :
    ¬ (t.extent.start < offset ∧ offset < t.extent.stop) := by
  rintro ⟨left, right⟩
  cases t with
  | segment s j =>
    simp only [ByteSource.extent_segment] at left right
    omega
  | interpolation x => exact outside ⟨x, scanned.mem_of_tag hk, left, right⟩

theorem isBefore_iff_of_outside (hk : site.taggedBytes[k]? = some (b, t))
    (outside : ¬ site.InSubstitution offset) :
    t.isBefore offset side = true ↔ t.extent.stop ≤ offset :=
  ByteSource.isBefore_iff (scanned.extent_of_tag hk).2.1 (scanned.outside_of_tag hk outside)

/-- Outside of substitutions both sides count the same bytes. -/
theorem bytesBefore_sides (outside : ¬ site.InSubstitution offset) :
    site.bytesBefore offset .start = site.bytesBefore offset .stop := by
  refine List.countP_congr ?_
  rintro ⟨b, t⟩ ht
  obtain ⟨k, hk⟩ := List.getElem?_of_mem ht
  rw [scanned.isBefore_iff_of_outside hk outside, scanned.isBefore_iff_of_outside hk outside]

theorem bytesBefore_start_le (offset : Nat) :
    site.bytesBefore offset .start ≤ site.bytesBefore offset .stop := by
  refine List.countP_mono_left fun t ht before => ?_
  have := scanned.tiles.extent_of_mem ht
  rw [ByteSource.isBefore_start] at before
  rw [ByteSource.isBefore_stop]
  omega

/-- Where a byte of a segment begins, the bytes in front of it are counted. -/
theorem bytesBefore_start_of_segment {s : Segment} {j : Nat}
    (hk : site.taggedBytes[k]? = some (b, .segment s j)) (side : Side) :
    site.bytesBefore (s.span.start + j) side = k := by
  have bound := (List.getElem?_eq_some_iff.1 hk).1
  refine countP_eq_of_seam (scanned.pairwise_isBefore _ side) (Nat.le_of_lt bound) ?_ ?_
  · rintro i ⟨c, u⟩ rfl hi
    rcases scanned.precedes_of_lt hi hk (by omega) with behind | ⟨x, _, differs⟩
    · have proper := (scanned.extent_of_tag hi).2.1
      simp only [ByteSource.extent_segment] at behind
      rw [ByteSource.isBefore_iff proper (by omega)]
      exact behind
    · cases differs
  · rintro ⟨c, u⟩ hu
    obtain ⟨rfl, rfl⟩ : c = b ∧ u = .segment s j := by simpa [hu] using hk
    simp [ByteSource.isBefore_segment]

/-- Where a byte of a segment ends, it is counted too. -/
theorem bytesBefore_stop_of_segment {s : Segment} {j : Nat}
    (hk : site.taggedBytes[k]? = some (b, .segment s j)) (side : Side) :
    site.bytesBefore (s.span.start + j + 1) side = k + 1 := by
  have bound := (List.getElem?_eq_some_iff.1 hk).1
  refine countP_eq_of_seam (scanned.pairwise_isBefore _ side) bound ?_ ?_
  · rintro i ⟨c, u⟩ same hi
    obtain rfl : i = k := by omega
    obtain ⟨rfl, rfl⟩ : c = b ∧ u = .segment s j := by simpa [hi] using hk
    simp [ByteSource.isBefore_segment]
  · rintro ⟨c, u⟩ hu
    rcases scanned.precedes_of_lt hk hu (by omega) with behind | ⟨x, differs, _⟩
    · have proper := (scanned.extent_of_tag hu).2.1
      simp only [ByteSource.extent_segment] at behind
      rw [ByteSource.isBefore_iff proper (by omega)]
      omega
    · cases differs

/-- At the ends of an expression, the bytes up to its value and with its value are counted. -/
theorem occupies_bytesBefore {x : Interpolation}
    (hk : site.taggedBytes[k]? = some (b, .interpolation x)) :
    site.Occupies x (site.bytesBefore x.expr.start .start)
      (site.bytesBefore x.expr.stop .stop) := by
  have inside := scanned.tiles.strictly_inside (scanned.mem_of_tag hk)
  intro i
  constructor
  · rintro ⟨c, hi⟩
    rw [scanned.lt_bytesBefore_iff hi, ← Nat.not_lt, scanned.lt_bytesBefore_iff hi,
      ByteSource.isBefore_start, ByteSource.isBefore_stop, ByteSource.extent_interpolation]
    omega
  · rintro ⟨lower, upper⟩
    have bound : i < site.taggedBytes.length := Nat.lt_of_lt_of_le upper List.countP_le_length
    rcases value : site.taggedBytes[i] with ⟨c, u⟩
    have hi : site.taggedBytes[i]? = some (c, u) := by rw [List.getElem?_eq_getElem bound, value]
    rw [← Nat.not_lt, scanned.lt_bytesBefore_iff hi, ByteSource.isBefore_start] at lower
    rw [scanned.lt_bytesBefore_iff hi, ByteSource.isBefore_stop] at upper
    refine ⟨c, ?_⟩
    rcases Nat.lt_trichotomy i k with lt | rfl | lt
    · rcases scanned.precedes_of_lt hi hk lt with behind | ⟨y, rfl, same⟩
      · simp only [ByteSource.extent_interpolation] at behind
        omega
      · rw [hi, same]
    · rw [hi] at hk ⊢
      simp_all
    · rcases scanned.precedes_of_lt hk hi lt with behind | ⟨y, same, rfl⟩
      · simp only [ByteSource.extent_interpolation] at behind
        omega
      · rw [hi, same]

end Scanned

end Site

namespace PositionMap

/-- The map of a scanned site answers for the text between the marks, with the number of bytes
before the offset. -/
theorem toForeign?_eq {host : Text} {site : Site} (scanned : site.Scanned host) {source : String}
    (hs : site.source = some source) {m : PositionMap} (hm : ofSite? site = some m) (offset : Nat)
    (side : Side) :
    m.toForeign? offset side =
      if site.text.start ≤ offset ∧ offset ≤ site.text.stop then
        some (site.bytesBefore offset side)
      else none := by
  obtain ⟨⟨pieces, size⟩, hp, hm⟩ := Option.bind_eq_some_iff.1 hm
  simp only [hs, Option.isSome_some, if_true, Option.some.injEq] at hm
  subst hm
  have resolved : Site.resolveSource site.segments site.interpolations = some source :=
    scanned.source ▸ hs
  simp only [toForeign?, Span.touches, Bool.and_eq_true, decide_eq_true_eq]
  split
  · rename_i within
    rw [findSome?_toForeign? scanned.tiles resolved hp within.1 within.2, Nat.zero_add]
    rfl
  · rfl

/-- What the two directions of a position map have to do with each other. -/
structure Inverse (m : PositionMap) (site : Site) : Prop where
  /-- There is an answer for every offset of the text between the marks, and for no other. -/
  isSome_iff (h : Nat) (side : Side) :
    (m.toForeign? h side).isSome ↔ site.text.start ≤ h ∧ h ≤ site.text.stop
  le_size {h q : Nat} {side : Side} : m.toForeign? h side = some q → q ≤ m.size
  monotone {h h' q q' : Nat} {side : Side} : h ≤ h' → m.toForeign? h side = some q →
    m.toForeign? h' side = some q' → q ≤ q'
  start_le_stop {h q q' : Nat} : m.toForeign? h .start = some q → m.toForeign? h .stop = some q' →
    q ≤ q'
  sides_eq {h : Nat} : ¬ site.InSubstitution h → m.toForeign? h .start = m.toForeign? h .stop
  /-- Both ends of a byte of a segment come back from the host text. -/
  segment {k : Nat} {b : UInt8} {s : Segment} {j : Nat} (side : Side) :
    site.taggedBytes[k]? = some (b, .segment s j) →
    m.toForeign? (m.toHost k .start) side = some k ∧
      m.toForeign? (m.toHost (k + 1) .stop) side = some (k + 1)
  /-- From a byte of a value the ends of the value come back. -/
  interpolation {k : Nat} {b : UInt8} {x : Interpolation} :
    site.taggedBytes[k]? = some (b, .interpolation x) →
    ∃ f g, site.Occupies x f g ∧ m.toForeign? (m.toHost k .start) .start = some f ∧
      m.toForeign? (m.toHost (k + 1) .stop) .stop = some g
  /-- Outside of substitutions a host offset lies between the two places it comes back to. -/
  between {h q : Nat} {side : Side} : ¬ site.InSubstitution h → m.toForeign? h side = some q →
    m.toHost q .stop ≤ h ∧ h ≤ m.toHost q .start

/-- An offset lies between the end of the last byte before it and the start of the next byte. -/
theorem FollowsTags.between {host : Text} {site : Site} (scanned : site.Scanned host)
    {m : PositionMap} (ht : m.text = site.text) (follows : m.FollowsTags site) {h : Nat}
    (lower : site.text.start ≤ h) (upper : h ≤ site.text.stop)
    (outside : ¬ site.InSubstitution h) (side : Side) :
    m.toHost (site.bytesBefore h side) .stop ≤ h ∧
      h ≤ m.toHost (site.bytesBefore h side) .start := by
  generalize hq : site.bytesBefore h side = q
  have bound : q ≤ site.taggedBytes.length := hq ▸ List.countP_le_length
  have first {k : Nat} {b : UInt8} {t : ByteSource} (hk : site.taggedBytes[k]? = some (b, t)) :
      k < q ↔ t.extent.stop ≤ h := by
    rw [← hq, scanned.lt_bytesBefore_iff hk, scanned.isBefore_iff_of_outside hk outside]
  constructor
  · cases q with
    | zero => simpa [toHost, ht] using lower
    | succ k =>
      have hk := List.getElem?_eq_getElem (show k < site.taggedBytes.length from bound)
      have before := (first hk).1 (Nat.lt_succ_self k)
      have goes := follows.toHost_of_tag hk .stop
      have ends := scanned.host_of_tag hk
      simp only [Side.ofByte] at goes
      omega
  · by_cases inside : q < site.taggedBytes.length
    · have hk := List.getElem?_eq_getElem inside
      have notBefore := mt (first hk).2 (Nat.lt_irrefl q)
      have goes := follows.toHost_of_tag hk .start
      have ends := scanned.host_of_tag hk
      have apart := scanned.outside_of_tag hk outside
      simp only [Side.ofByte] at goes
      omega
    · have goes : m.toHost q .start = site.text.stop := follows.toHost_beyond (by omega) .start
      omega

/-- Every scanned site with a source has a map, and its two directions are inverse. -/
theorem exists_inverse_ofSite? {host : Text} {site : Site} {source : String}
    (scanned : site.Scanned host) (hs : site.source = some source) :
    ∃ m, ofSite? site = some m ∧ m.Inverse site := by
  have hr : Site.resolveSource site.segments site.interpolations = some source :=
    scanned.source ▸ hs
  obtain ⟨m, hm, ht, hsize, follows⟩ := exists_ofSite? hs hr
  have counts := toForeign?_eq scanned hs hm
  have count {h q : Nat} {side : Side} (found : m.toForeign? h side = some q) :
      (site.text.start ≤ h ∧ h ≤ site.text.stop) ∧ site.bytesBefore h side = q := by
    rw [counts] at found
    split at found
    · exact ⟨by assumption, Option.some.inj found⟩
    · cases found
  have answer {h : Nat} {side : Side} (lower : site.text.start ≤ h) (upper : h ≤ site.text.stop) :
      m.toForeign? h side = some (site.bytesBefore h side) := by
    rw [counts, if_pos ⟨lower, upper⟩]
  refine ⟨m, hm, ?_⟩
  refine
    { isSome_iff := ?_
      le_size := ?_
      monotone := ?_
      start_le_stop := ?_
      sides_eq := ?_
      segment := ?_
      interpolation := ?_
      between := ?_ }
  · intro h side
    rw [counts]
    split <;> simp_all
  · intro h q side found
    obtain ⟨-, rfl⟩ := count found
    rw [hsize, ← Site.length_tagBytes hr]
    exact List.countP_le_length
  · intro h h' q q' side le found found'
    obtain ⟨-, rfl⟩ := count found
    obtain ⟨-, rfl⟩ := count found'
    exact List.countP_mono_left fun t _ => ByteSource.isBefore_mono le
  · intro h q q' found found'
    obtain ⟨-, rfl⟩ := count found
    obtain ⟨-, rfl⟩ := count found'
    exact scanned.bytesBefore_start_le h
  · intro h outside
    rw [counts, counts, scanned.bytesBefore_sides outside]
  · intro k b s j side hk
    have starts : m.toHost k .start = s.span.start + j := follows.toHost_of_tag hk .start
    have stops : m.toHost (k + 1) .stop = s.span.start + j + 1 := follows.toHost_of_tag hk .stop
    have extent := scanned.extent_of_tag hk
    simp only [ByteSource.extent_segment] at extent
    rw [starts, stops, answer (by omega) (by omega), answer (by omega) (by omega),
      scanned.bytesBefore_start_of_segment hk, scanned.bytesBefore_stop_of_segment hk]
    exact ⟨rfl, rfl⟩
  · intro k b x hk
    have starts : m.toHost k .start = x.expr.start := follows.toHost_of_tag hk .start
    have stops : m.toHost (k + 1) .stop = x.expr.stop := follows.toHost_of_tag hk .stop
    have extent := scanned.extent_of_tag hk
    have inside := scanned.tiles.strictly_inside (scanned.mem_of_tag hk)
    simp only [ByteSource.extent_interpolation] at extent
    refine ⟨_, _, scanned.occupies_bytesBefore hk, ?_, ?_⟩
    · rw [starts, answer (by omega) (by omega)]
    · rw [stops, answer (by omega) (by omega)]
  · intro h q side outside found
    obtain ⟨⟨lower, upper⟩, rfl⟩ := count found
    exact follows.between scanned ht lower upper outside side

/-- The site with adjacent substitutions has a map whose two directions are inverse. -/
theorem inverse_adjacentSite :
    adjacentSite.Scanned adjacentHost ∧ adjacentSite.source = some "éabb" ∧
      ∃ m, ofSite? adjacentSite = some m ∧ m.Inverse adjacentSite :=
  ⟨scanned_adjacentSite, rfl, exists_inverse_ofSite? scanned_adjacentSite rfl⟩

end PositionMap

end SolidityInlay
