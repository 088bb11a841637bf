import SolidityInlay.Host.Language
import SolidityInlay.Proofs.PositionMap
import SolidityInlay.Proofs.Scan

/-!
# The shape of the sites a scan finds

A site's segments and substitutions come out of one pass over the template, its source out of a
second over segments and values, and its position map out of a third. In a tree laid over its text
the three agree: segments and substitutions tile the text between the marks, and source and map
exist together, of one size.

Main definitions: `Host.Tree.LaidOver`, `Host.Parser.Faithful`, `Site.Consistent`.
-/

namespace SolidityInlay

open Host

/-! ## Trees over a text -/

/-- A tree whose nodes lie in order inside their parents and begin and end between characters of the
text. A substitution begins with a dollar sign and has its expression strictly inside it. -/
structure Host.Tree.LaidOver (t : Tree) : Prop where
  nested : t.Nested
  boundary : ∀ l, t.Holds l → t.text.IsBoundary l.span.start ∧ t.text.IsBoundary l.span.stop
  -- nesting alone would let a substitution cover the opening mark of its template
  opened : ∀ l, t.Holds l → l.node.is .templateSubstitution → (l.textIn t.text).head? = some '$'
  strict : ∀ l, t.Holds l → l.node.is .templateSubstitution → ∀ e ∈ l.operand?,
    l.span.start < e.span.start ∧ e.span.stop < l.span.stop

instance (t : Tree) : Decidable t.LaidOver :=
  decidable_of_iff (t.Nested ∧
      (∀ l, t.Holds l → t.text.IsBoundary l.span.start ∧ t.text.IsBoundary l.span.stop) ∧
      (∀ l, t.Holds l → l.node.is .templateSubstitution →
        (l.textIn t.text).head? = some '$') ∧
      ∀ l, t.Holds l → l.node.is .templateSubstitution → ∀ e ∈ l.operand?,
        l.span.start < e.span.start ∧ e.span.stop < l.span.stop)
    ⟨fun ⟨nested, boundary, opened, strict⟩ => ⟨nested, boundary, opened, strict⟩,
      fun ⟨nested, boundary, opened, strict⟩ => ⟨nested, boundary, opened, strict⟩⟩

/-- A parser whose trees are of the texts it is given, and laid over them. -/
structure Host.Parser.Faithful (parse : Parser) : Prop where
  text : ∀ language text, (parse language text).text = text.toList
  laidOver : ∀ language text, (parse language text).LaidOver

namespace Template

variable {t : Tree} {template : Located}

/-- Inside its marks a template begins and ends between characters. -/
theorem isBoundary_of_marked (laid : t.LaidOver) (held : t.Holds template)
    (marked : Marked t.text template) :
    t.text.IsBoundary (template.span.start + 1) ∧ t.text.IsBoundary (template.span.stop - 1) := by
  obtain ⟨body, marked⟩ := marked
  obtain ⟨hstart, hstop⟩ := laid.boundary template held
  obtain ⟨before, after, whole, start, stop⟩ :=
    hstart.readsAt_slice hstop (laid.nested template held).ordered
  change t.text = before ++ template.textIn t.text ++ after at whole
  change template.span.stop = template.span.start + Text.size (template.textIn t.text) at stop
  rw [marked] at whole stop
  have one : quote.utf8Size = 1 := by decide
  constructor
  · refine ⟨before ++ [quote], body ++ [quote] ++ after, by simp [whole], ?_⟩
    simp [start, one]
  · refine ⟨before ++ quote :: body, quote :: after, by simp [whole], ?_⟩
    simp [start, one, stop]
    omega

/-- A substitution begins after the opening mark: it cannot begin with it. -/
theorem start_lt_of_mem_substitutions (laid : t.LaidOver) (held : t.Holds template)
    (marked : Marked t.text template) {s : Located} (h : s ∈ substitutions template) :
    template.span.start + 1 ≤ s.span.start := by
  obtain ⟨child, isSubstitution⟩ := mem_substitutions h
  have inside := (laid.nested template held).inside _ (Located.node_mem_of_mem_children child)
  have opened := laid.opened s (Tree.holds_of_mem_children held child) isSubstitution
  obtain ⟨body, marked⟩ := marked
  have first : (template.textIn t.text).head? = some quote := by simp [marked]
  have other : s.span.start ≠ template.span.start := by
    intro same
    have here := Text.head?_slice opened
    have there := Text.head?_slice first
    change (t.text.dropBytes s.span.start).head? = _ at here
    change (t.text.dropBytes template.span.start).head? = _ at there
    rw [same, there] at here
    exact absurd here (by decide)
  simp only [Located.span] at *
  omega

theorem pairwise_substitutions (nested : t.Nested) (held : t.Holds template) :
    (substitutions template).Pairwise fun a b => a.span.stop ≤ b.span.start := by
  have children : template.children.Pairwise fun a b => a.span.stop ≤ b.span.start := by
    have nodes := (nested template held).apart
    rwa [← Located.map_node_children, List.pairwise_map] at nodes
  exact (children.filter _).filter _

/-- Splitting at substitutions that stand in order tiles the text from the cursor on. -/
theorem tiles_of_split (laid : t.LaidOver) (held : t.Holds template) {cursor stop : Nat}
    {found : List Located} {parts : Parts} (mem : ∀ s ∈ found, s ∈ substitutions template)
    (apart : found.Pairwise fun a b => a.span.stop ≤ b.span.start)
    (ahead : ∀ s ∈ found, cursor ≤ s.span.start) (hc : t.text.IsBoundary cursor)
    (hs : t.text.IsBoundary stop) (h : split cursor stop found = some parts) :
    Tiles t.text cursor stop (parts.segments.map (Site.segmentAt t))
      (parts.substitutions.map (Site.interpolationOf t)) := by
  induction found generalizing cursor parts with
  | nil =>
    simp only [split] at h
    split at h
    · rename_i le
      obtain rfl := Option.some.inj h
      refine Tiles.last (s := Site.segmentAt t ⟨cursor, stop⟩) ?_
      simpa [Site.segmentAt, Text.sliceString] using hc.readsAt_slice hs le
    · simp at h
  | cons s rest ih =>
    obtain ⟨expr, he, h⟩ := Option.bind_eq_some_iff.1 h
    obtain ⟨more, hm, rfl⟩ := Option.map_eq_some_iff.1 h
    obtain ⟨child, isSubstitution⟩ := mem_substitutions (mem s (by simp))
    have sHeld := Tree.holds_of_mem_children held child
    have eHeld := Tree.holds_of_mem_children sHeld (Located.mem_children_of_operand? he)
    obtain ⟨startB, stopB⟩ := laid.boundary s sHeld
    obtain ⟨after, apart⟩ := List.pairwise_cons.1 apart
    obtain ⟨left, right⟩ := laid.strict s sHeld isSubstitution expr he
    refine Tiles.next (s := Site.segmentAt t ⟨cursor, s.span.start⟩)
      (x := Site.interpolationOf t ⟨s.span, expr⟩) ?_ rfl left
      (laid.nested expr eHeld).ordered right
      (ih (fun s hs => mem s (by simp [hs])) apart after stopB hm)
    simpa [Site.segmentAt, Text.sliceString] using hc.readsAt_slice startB (ahead s (by simp))

end Template

/-- There is a segment more than there are substitutions. -/
theorem Tiles.length {host : Text} {start stop : Nat} {ss : List Segment}
    {xs : List Interpolation} (h : Tiles host start stop ss xs) : ss.length = xs.length + 1 := by
  induction h with
  | last => rfl
  | next _ _ _ _ _ _ ih => simp [ih]

theorem Tiles.ordered {host : Text} {start stop : Nat} {ss : List Segment}
    {xs : List Interpolation} (h : Tiles host start stop ss xs) {x : Interpolation} (hx : x ∈ xs) :
    x.expr.start ≤ x.expr.stop ∧ x.substitution.start ≤ x.substitution.stop := by
  induction h with
  | last => simp at hx
  | next _ _ left expr right _ ih =>
    rcases List.mem_cons.1 hx with rfl | hx
    · omega
    · exact ih hx

/-! ## Sources and values -/

namespace Site

/-- The source is known exactly if every value is. -/
theorem isSome_resolveSource_iff {ss : List Segment} {xs : List Interpolation}
    (h : xs.length ≤ ss.length) :
    (resolveSource ss xs).isSome ↔ ∀ x ∈ xs, x.value.isSome := by
  fun_induction resolveSource ss xs with
  | case1 xs =>
    obtain rfl : xs = [] := by simpa using h
    simp
  | case2 s ss ih => simpa using ih
  | case3 s ss x xs ih =>
    have rest := ih (by simpa using h)
    cases hv : x.value with
    | none => simp [hv]
    | some value => simpa [hv] using rest

/-- With every value known, the source is segments and values in turn. -/
theorem resolveSource_eq {ss : List Segment} {xs : List Interpolation} {values : List String}
    (h : xs.map Interpolation.value = values.map some) :
    resolveSource ss xs = some (String.ofList
      (interleave (ss.map fun s => s.raw.toList) (values.map String.toList))) := by
  fun_induction resolveSource ss xs generalizing values with
  | case1 xs => rfl
  | case2 s ss ih =>
    obtain rfl : values = [] := by simpa using h.symm
    simp [@ih [] rfl, interleave]
  | case3 s ss x xs ih =>
    cases values with
    | nil => simp at h
    | cons value values =>
      obtain ⟨hv, h⟩ : x.value = some value ∧ xs.map Interpolation.value = values.map some := by
        simpa using h
      simp [hv, ih h, interleave, String.append_assoc]

/-- There is a position map exactly if the source is known. -/
theorem isSome_ofSite?_iff {site : Site}
    (h : site.source = resolveSource site.segments site.interpolations) :
    (PositionMap.ofSite? site).isSome ↔ site.source.isSome := by
  constructor
  · intro mapped
    obtain ⟨m, hm⟩ := Option.isSome_iff_exists.1 mapped
    obtain ⟨⟨pieces, size⟩, _, hm⟩ := Option.bind_eq_some_iff.1 hm
    simp only at hm
    split at hm
    · assumption
    · simp at hm
  · intro resolved
    obtain ⟨source, hs⟩ := Option.isSome_iff_exists.1 resolved
    obtain ⟨m, hm, _⟩ := PositionMap.exists_ofSite? hs (h ▸ hs)
    simp [hm]

/-- The position map has the size of the source. -/
theorem size_of_ofSite? {site : Site} {m : PositionMap} {source : String}
    (h : site.source = resolveSource site.segments site.interpolations)
    (hm : PositionMap.ofSite? site = some m) (hs : site.source = some source) :
    m.size = source.utf8ByteSize := by
  obtain ⟨m', hm', _, size, _⟩ := PositionMap.exists_ofSite? hs (h ▸ hs)
  obtain rfl : m = m' := Option.some.inj (hm.symm.trans hm')
  exact size

/-! ## Consistent sites -/

def spans (site : Site) : List Span :=
  site.name.toList.map SiteName.span ++ [site.marker, site.span, site.template, site.text] ++
    site.segments.map Segment.span ++
    site.interpolations.flatMap fun x => [x.expr, x.substitution]

/-- Segments and substitutions tile the text between the marks. The source is there if every value
is and holds segments and values in turn; the position map is there if the source is and has its
size. No recorded range is turned around. -/
structure Consistent (host : Text) (site : Site) : Prop where
  length : site.segments.length = site.interpolations.length + 1
  scanned : site.Scanned host
  raw : ∀ s ∈ site.segments, s.raw = host.sliceString s.span
  resolved_iff : site.source.isSome ↔ ∀ x ∈ site.interpolations, x.value.isSome
  source_eq : ∀ values : List String,
    site.interpolations.map Interpolation.value = values.map some →
      site.source = some (String.ofList
        (interleave (site.segments.map fun s => s.raw.toList) (values.map String.toList)))
  mapped_iff : (PositionMap.ofSite? site).isSome ↔ site.source.isSome
  size_eq : ∀ m ∈ PositionMap.ofSite? site, ∀ source ∈ site.source, m.size = source.utf8ByteSize
  ordered : ∀ span ∈ site.spans, span.start ≤ span.stop

variable {t : Tree} {site : Site}

/-- The tag and the name of a callee stand in the tree. -/
theorem Tag.holds {text : Text} {callee tag : Located} {name : Option SiteName}
    (h : Tag text callee tag name) (held : t.Holds callee) :
    t.Holds tag ∧ ∀ n ∈ name, ∃ arg, t.Holds arg ∧ n.span = arg.span := by
  cases h with
  | bare => exact ⟨held, by simp⟩
  | @named tag args arg value _ hf ha _ only =>
    have argsHeld := Tree.holds_of_mem_children held (Located.mem_children_of_child? ha)
    have listed : arg ∈ args.named.filter fun n => !n.node.is .comment := by simp [only]
    have child := Located.mem_children_of_mem_named (List.mem_filter.1 listed).1
    refine ⟨Tree.holds_of_mem_children held (Located.mem_children_of_child? hf), ?_⟩
    rintro n hn
    obtain rfl := Option.some.inj hn
    exact ⟨arg, Tree.holds_of_mem_children argsHeld child, rfl⟩

/-- The site at a node of a tree laid over its text tiles the text between the marks. -/
theorem scanned_of_match? (laid : t.LaidOver) {marker : Text} {expr : Located}
    (held : t.Holds expr) (h : match? marker t expr = some site) : site.Scanned t.text := by
  obtain ⟨template, tag, name, parts, applies, hp, rfl⟩ := match?_eq_some_iff.1 h
  obtain ⟨marked, hsplit⟩ := Template.parts?_eq_some_iff.1 hp
  have templateHeld :=
    Tree.holds_of_mem_children held (Located.mem_children_of_child? applies.argument)
  obtain ⟨startB, stopB⟩ := Template.isBoundary_of_marked laid templateHeld marked
  exact ⟨Template.tiles_of_split laid templateHeld (fun _ hs => hs)
    (Template.pairwise_substitutions laid.nested templateHeld)
    (fun _ hs => Template.start_lt_of_mem_substitutions laid templateHeld marked hs)
    startB stopB hsplit, rfl⟩

/-- No range that such a site records is turned around. -/
theorem ordered_of_match? (laid : t.LaidOver) {marker : Text} {expr : Located}
    (held : t.Holds expr) (h : match? marker t expr = some site) :
    ∀ span ∈ site.spans, span.start ≤ span.stop := by
  have tiles := (scanned_of_match? laid held h).tiles
  obtain ⟨template, tag, name, parts, applies, hp, rfl⟩ := match?_eq_some_iff.1 h
  obtain ⟨callee, hc, tagged⟩ := applies.tagged
  obtain ⟨tagHeld, named⟩ :=
    tagged.holds (Tree.holds_of_mem_children held (Located.mem_children_of_child? hc))
  have templateHeld :=
    Tree.holds_of_mem_children held (Located.mem_children_of_child? applies.argument)
  have two := (Template.parts?_eq_some_iff.1 hp).1.two_le
  intro span hspan
  simp only [spans, List.mem_append, List.mem_map, List.mem_cons, List.mem_flatMap,
    Option.mem_toList, List.not_mem_nil, or_false] at hspan
  rcases hspan with ((⟨n, hn, rfl⟩ | rfl | rfl | rfl | rfl) | ⟨s, hs, rfl⟩) | ⟨x, hx, rfl | rfl⟩
  · obtain ⟨arg, argHeld, same⟩ := named n hn
    exact same ▸ (laid.nested arg argHeld).ordered
  · exact (laid.nested tag tagHeld).ordered
  · exact (laid.nested expr held).ordered
  · exact (laid.nested template templateHeld).ordered
  · simp only [Site.text, assemble]
    omega
  · obtain ⟨_, _, _, _, stop⟩ := tiles.readsAt hs
    omega
  · exact (tiles.ordered hx).1
  · exact (tiles.ordered hx).2

/-- In a tree laid over its text, every site a scan finds is consistent. -/
theorem consistent_of_mem_scan (laid : t.LaidOver) (marker : String) (h : site ∈ scan marker t) :
    site.Consistent t.text := by
  obtain ⟨expr, held, hm⟩ := exists_holds_of_mem_scan h
  have scanned := scanned_of_match? laid held hm
  have length := scanned.tiles.length
  refine ⟨length, scanned, fun s hs => ?_, ?_, fun values hv => ?_,
    isSome_ofSite?_iff scanned.source, fun m mapped source resolved => ?_,
    ordered_of_match? laid held hm⟩
  · rw [Text.sliceString, (scanned.tiles.readsAt hs).slice, String.ofList_toList]
  · rw [scanned.source, isSome_resolveSource_iff (by omega)]
  · rw [scanned.source, resolveSource_eq hv]
  · exact size_of_ofSite? scanned.source mapped resolved

theorem consistent_twoSites :
    twoSites.LaidOver ∧
      (scan "sol" twoSites).map (fun site => site.segments.map Segment.raw) =
        [["a", ""], ["", "b"]] ∧
      ∀ site ∈ scan "sol" twoSites, site.Consistent twoSites.text := by
  have laid : twoSites.LaidOver := by decide
  refine ⟨laid, ?_, fun site h => consistent_of_mem_scan laid "sol" h⟩
  rw [scan_eq]
  decide

end Site

end SolidityInlay
