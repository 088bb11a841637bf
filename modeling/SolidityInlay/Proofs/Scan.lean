import SolidityInlay.Proofs.Text
import SolidityInlay.Proofs.Walk
import SolidityInlay.Site.Scan

/-!
# Which nodes a scan finds

A node is a site if it applies the marker to a well-formed template, the marker bare or called with
one string literal. A scan enters everything that is no site, whatever it looks like, and nothing
that is one. It finds the outermost sites in the order of the text, and in a tree whose children lie
in order inside their parents no two of them overlap.

Main definitions: `Template.WellFormed`, `Site.Recognized`, `Site.Outermost`.
-/

namespace SolidityInlay

open Host

def Span.Within (a b : Span) : Prop := b.start ≤ a.start ∧ a.stop ≤ b.stop

/-! ## Well-formed templates -/

namespace Template

variable {text : Text} {template : Located}

def substitutions (template : Located) : List Located :=
  template.named.filter fun c => c.node.is .templateSubstitution

theorem mem_substitutions {s : Located} (h : s ∈ substitutions template) :
    s ∈ template.children ∧ s.node.is .templateSubstitution := by
  obtain ⟨named, isSubstitution⟩ := List.mem_filter.1 h
  exact ⟨Located.mem_children_of_mem_named named, isSubstitution⟩

def Marked (text : Text) (template : Located) : Prop :=
  ∃ body, template.textIn text = quote :: (body ++ [quote])

/-- A template with both its marks and an expression in every substitution, the last of which ends
before the closing mark. -/
structure WellFormed (text : Text) (template : Located) : Prop where
  marked : Marked text template
  filled : ∀ s ∈ substitutions template, s.operand?.isSome
  closed : ∀ s ∈ (substitutions template).getLast?, s.span.stop ≤ template.span.stop - 1

theorem marked_iff :
    (2 ≤ (template.textIn text).length && (template.textIn text).head? == some quote &&
      (template.textIn text).getLast? == some quote) = true ↔ Marked text template := by
  rw [Marked]
  generalize template.textIn text = whole
  constructor
  · intro h
    simp only [Bool.and_eq_true, decide_eq_true_eq, beq_iff_eq] at h
    obtain ⟨⟨long, first⟩, last⟩ := h
    cases whole with
    | nil => simp at long
    | cons c rest =>
      obtain rfl : c = quote := by simpa using first
      rcases List.eq_nil_or_concat rest with rfl | ⟨body, d, rfl⟩
      · simp at long
      · obtain rfl : d = quote := by simpa [List.getLast?_cons] using last
        exact ⟨body, by simp⟩
  · rintro ⟨body, rfl⟩
    simp [List.getLast?_cons]

theorem parts?_eq_some_iff {parts : Parts} :
    parts? text template = some parts ↔ Marked text template ∧
      split (template.span.start + 1) (template.span.stop - 1) (substitutions template) =
        some parts := by
  rw [← marked_iff]
  simp only [parts?, substitutions]
  split <;> simp_all

/-- Splitting fails only for want of an expression, or of room after the last substitution. -/
theorem isSome_split_iff {cursor stop : Nat} {found : List Located} :
    (split cursor stop found).isSome ↔
      (∀ s ∈ found, s.operand?.isSome) ∧
        ((found.getLast?.map fun s => s.span.stop).getD cursor) ≤ stop := by
  induction found generalizing cursor with
  | nil =>
    simp only [split]
    split <;> simp_all
  | cons s rest ih =>
    simp only [split, List.getLast?_cons, List.forall_mem_cons]
    cases s.operand? with
    | none => simp
    | some expr =>
      have last : (rest.getLast?.map fun s => s.span.stop).getD s.span.stop =
          (rest.getLast?.getD s).span.stop := by
        cases rest.getLast? <;> rfl
      simp [ih, last]

/-- The two marks take two bytes. -/
theorem Marked.two_le (h : Marked text template) :
    template.span.start + 2 ≤ template.span.stop := by
  obtain ⟨body, h⟩ := h
  have fits := Text.size_slice_le text template.span
  have two := Text.length_le_size (template.textIn text)
  rw [h] at two
  simp only [List.length_cons, List.length_append] at two
  change Text.size (template.textIn text) ≤ _ at fits
  rw [h] at fits
  omega

/-- A template has parts exactly if it is well-formed. -/
theorem isSome_parts?_iff : (parts? text template).isSome ↔ WellFormed text template := by
  have parts : (parts? text template).isSome ↔ Marked text template ∧
      (split (template.span.start + 1) (template.span.stop - 1)
        (substitutions template)).isSome := by
    simp only [Option.isSome_iff_exists, parts?_eq_some_iff, exists_and_left]
  rw [parts, isSome_split_iff]
  constructor
  · rintro ⟨marked, filled, room⟩
    refine ⟨marked, filled, fun s hs => ?_⟩
    rw [Option.mem_def.1 hs] at room
    exact room
  · rintro ⟨marked, filled, closed⟩
    refine ⟨marked, filled, ?_⟩
    cases h : (substitutions template).getLast? with
    | none =>
      have := marked.two_le
      simp only [Option.map_none, Option.getD_none]
      omega
    | some s => exact closed s h

end Template

/-! ## Recognized nodes -/

namespace Site

variable {marker : Text} {t : Tree} {expr : Located} {site : Site}

/-- What a template is applied to: an identifier alone, or something called with a valid string
literal as its only argument, comments left out. -/
inductive Tag (text : Text) (callee : Located) : Located → Option SiteName → Prop
  | bare : callee.node.is .identifier → Tag text callee callee none
  | named {tag args arg : Located} {value : Text} : callee.node.is .callExpression →
      callee.child? .function = some tag → callee.child? .arguments = some args →
      args.node.is .arguments → (args.named.filter fun n => !n.node.is .comment) = [arg] →
      arg.node.is .string → StringLiteral.cook (arg.textIn text) = some value →
      Tag text callee tag (some ⟨String.ofList value, arg.span⟩)

structure Applies (marker : Text) (t : Tree) (expr template tag : Located)
    (name : Option SiteName) : Prop where
  call : expr.node.is .callExpression
  argument : expr.child? .arguments = some template
  isTemplate : template.node.is .templateString
  tagged : ∃ callee, expr.child? .function = some callee ∧ Tag t.text callee tag name
  isIdentifier : tag.node.is .identifier
  isMarker : tag.textIn t.text = marker

/-- The node applies the marker to a well-formed template. -/
def Recognized (marker : Text) (t : Tree) (expr : Located) : Prop :=
  ∃ template tag name, Applies marker t expr template tag name ∧
    Template.WellFormed t.text template

/-- A name is read exactly from a call with one argument, a string literal. -/
theorem name?_eq_some_iff {text : Text} {call : Located} {name : SiteName} :
    name? text call = some name ↔ ∃ args arg value, call.child? .arguments = some args ∧
      args.node.is .arguments ∧ (args.named.filter fun n => !n.node.is .comment) = [arg] ∧
      arg.node.is .string ∧ StringLiteral.cook (arg.textIn text) = some value ∧
      name = ⟨String.ofList value, arg.span⟩ := by
  constructor
  · intro h
    obtain ⟨args, ha, h⟩ := Option.bind_eq_some_iff.1 h
    split at h
    · rename_i isArgs
      split at h
      · rename_i arg only
        split at h
        · rename_i isString
          obtain ⟨value, hv, rfl⟩ := Option.map_eq_some_iff.1 h
          exact ⟨args, arg, value, ha, isArgs, only, isString, hv, rfl⟩
        · simp at h
      · simp at h
    · simp at h
  · rintro ⟨args, arg, value, ha, isArgs, only, isString, hv, rfl⟩
    simp [name?, ha, isArgs, only, isString, hv]

theorem marker?_eq_some_iff {text : Text} {callee tag : Located} {name : Option SiteName} :
    marker? text callee = some (tag, name) ↔ Tag text callee tag name := by
  constructor
  · intro h
    simp only [marker?] at h
    split at h
    · rename_i isIdentifier
      obtain ⟨rfl, rfl⟩ : callee = tag ∧ none = name := by simpa using h
      exact .bare isIdentifier
    · split at h
      · rename_i isCall
        obtain ⟨inner, hi, h⟩ := Option.bind_eq_some_iff.1 h
        obtain ⟨given, hn, h⟩ := Option.bind_eq_some_iff.1 h
        obtain ⟨rfl, rfl⟩ : inner = tag ∧ some given = name := by simpa using h
        obtain ⟨args, arg, value, ha, isArgs, only, isString, hv, rfl⟩ := name?_eq_some_iff.1 hn
        exact .named isCall hi ha isArgs only isString hv
      · simp at h
  · rintro (isIdentifier | ⟨isCall, hi, ha, isArgs, only, isString, hv⟩)
    · simp [marker?, isIdentifier]
    · have other : ¬ callee.node.is .identifier = true := by
        simp only [Node.is, beq_iff_eq] at isCall ⊢
        simp [isCall]
      have hn := name?_eq_some_iff.2 ⟨_, _, _, ha, isArgs, only, isString, hv, rfl⟩
      simp [marker?, other, isCall, hi, hn]

def segmentAt (t : Tree) (span : Span) : Segment := ⟨t.text.sliceString span, span⟩

def interpolationOf (t : Tree) (s : Template.Substitution) : Interpolation :=
  ⟨s.expr.span, s.span, (foldExpression t s.expr).map String.ofList⟩

/-- The site at a node, from what the node applies to what and the template's parts. -/
def assemble (t : Tree) (expr template tag : Located) (name : Option SiteName)
    (parts : Template.Parts) : Site :=
  let segments := parts.segments.map (segmentAt t)
  let interpolations := parts.substitutions.map (interpolationOf t)
  { name
    marker := tag.span
    span := expr.span
    template := template.span
    segments
    interpolations
    source := resolveSource segments interpolations }

/-- The site at a node is put together from what the node applies to what. -/
theorem match?_eq_some_iff :
    match? marker t expr = some site ↔ ∃ template tag name parts,
      Applies marker t expr template tag name ∧ Template.parts? t.text template = some parts ∧
        site = assemble t expr template tag name parts := by
  constructor
  · intro h
    simp only [match?] at h
    split at h
    · rename_i call
      obtain ⟨template, ht, h⟩ := Option.bind_eq_some_iff.1 h
      obtain ⟨callee, hc, h⟩ := Option.bind_eq_some_iff.1 h
      split at h
      · rename_i isTemplate
        obtain ⟨⟨tag, name⟩, hm, h⟩ := Option.bind_eq_some_iff.1 h
        split at h
        · rename_i isMarker
          simp only [Bool.and_eq_true, beq_iff_eq] at isMarker
          obtain ⟨parts, hp, h⟩ := Option.bind_eq_some_iff.1 h
          exact ⟨template, tag, name, parts,
            ⟨call, ht, isTemplate, ⟨callee, hc, marker?_eq_some_iff.1 hm⟩, isMarker.1, isMarker.2⟩,
            hp, (Option.some.inj h).symm⟩
        · simp at h
      · simp at h
    · simp at h
  · rintro ⟨template, tag, name, parts, ⟨call, ht, isTemplate, ⟨callee, hc, tagged⟩, isId, same⟩,
      hp, rfl⟩
    simp [match?, call, ht, hc, isTemplate, marker?_eq_some_iff.2 tagged, isId, same, hp]
    rfl

/-- There is a site at a node exactly if the node is recognized. -/
theorem isSome_match?_iff : (match? marker t expr).isSome ↔ Recognized marker t expr := by
  constructor
  · intro h
    obtain ⟨site, h⟩ := Option.isSome_iff_exists.1 h
    obtain ⟨template, tag, name, parts, applies, hp, _⟩ := match?_eq_some_iff.1 h
    exact ⟨template, tag, name, applies, Template.isSome_parts?_iff.1 (by simp [hp])⟩
  · rintro ⟨template, tag, name, applies, wellFormed⟩
    obtain ⟨parts, hp⟩ := Option.isSome_iff_exists.1 (Template.isSome_parts?_iff.2 wellFormed)
    rw [match?_eq_some_iff.2 ⟨template, tag, name, parts, applies, hp, rfl⟩]
    rfl

/-! ## The ranges of a recognized node -/

/-- A site covers something, its template lies inside it and its substitutions inside the
template. -/
structure Enclosed (site : Site) : Prop where
  nonempty : site.span.start < site.span.stop
  template : site.span.start ≤ site.template.start ∧ site.template.stop ≤ site.span.stop
  substitution : ∀ x ∈ site.interpolations,
    site.template.start ≤ x.substitution.start ∧ x.substitution.stop ≤ site.template.stop

theorem span_of_match? (h : match? marker t expr = some site) : site.span = expr.span := by
  obtain ⟨template, tag, name, parts, _, _, rfl⟩ := match?_eq_some_iff.1 h
  rfl

/-- In a nested tree the parts of a site lie inside one another. -/
theorem enclosed_of_match? (nested : t.Nested) (held : t.Holds expr)
    (h : match? marker t expr = some site) : site.Enclosed := by
  obtain ⟨template, tag, name, parts, applies, hp, rfl⟩ := match?_eq_some_iff.1 h
  obtain ⟨marked, hsplit⟩ := Template.parts?_eq_some_iff.1 hp
  have child := Located.mem_children_of_child? applies.argument
  have inside := (nested expr held).inside _ (Located.node_mem_of_mem_children child)
  have size := marked.two_le
  refine ⟨?_, inside, fun x hx => ?_⟩
  · simp only [assemble, Located.span] at size ⊢
    omega
  · obtain ⟨s, hs, rfl⟩ := List.mem_map.1 hx
    obtain ⟨c, hc, _, same⟩ := Template.mem_substitutions_of_split hsplit hs
    have held := Tree.holds_of_mem_children held child
    have grandchild := (Template.mem_substitutions hc).1
    change template.span.start ≤ s.span.start ∧ s.span.stop ≤ template.span.stop
    rw [← same]
    exact (nested template held).inside _ (Located.node_mem_of_mem_children grandchild)

/-- Of two sites apart from each other, neither lies inside a part of the other. -/
theorem Enclosed.not_within {a b : Site} (ha : a.Enclosed) (hb : b.Enclosed)
    (apart : a.span.stop ≤ b.span.start ∨ b.span.stop ≤ a.span.start) :
    ¬ b.span.Within a.template ∧ ∀ x ∈ a.interpolations, ¬ b.span.Within x.substitution := by
  have nonempty := hb.nonempty
  have template := ha.template
  constructor
  · rintro ⟨start, stop⟩
    omega
  · rintro x hx ⟨start, stop⟩
    have := ha.substitution x hx
    omega

/-! ## The scan -/

def found (marker : Text) (t : Tree) : List Located :=
  t.root.outermost (fun l => (match? marker t l).isSome) []

/-- A scan finds the sites at the outermost recognized nodes. -/
theorem scan_eq (marker : String) (t : Tree) :
    scan marker t = (found marker.toList t).filterMap (match? marker.toList t) := by
  have walked := walk_eq_traverse (collect (match? marker.toList t)) [] t.located
  rw [show t.located.node = t.root from rfl, show t.located.place = [] from rfl,
    Node.traverse_collect, List.append_nil] at walked
  rw [found, ← List.reverse_reverse (List.filterMap _ _), ← walked]
  simp only [scan]
  congr 2
  funext sites c
  unfold collect
  cases match? marker.toList t ⟨c.place, c.node⟩ <;> rfl

/-- A scan stops at recognized nodes, so it finds those inside no other. -/
theorem mem_found_iff {l : Located} :
    l ∈ found marker t ↔ t.Holds l ∧ Recognized marker t l ∧
      ∀ a ∈ t.enclosing l.place, ¬ Recognized marker t a := by
  have root : t.Holds ⟨[], t.root⟩ := rfl
  rw [found, mem_outermost_iff root]
  simp [isSome_match?_iff]

theorem exists_match?_of_mem_found {l : Located} (h : l ∈ found marker t) :
    ∃ site, match? marker t l = some site :=
  Option.isSome_iff_exists.1 (isSome_match?_iff.2 (mem_found_iff.1 h).2.1)

theorem exists_holds_of_mem_scan {marker : String} (h : site ∈ scan marker t) :
    ∃ l, t.Holds l ∧ match? marker.toList t l = some site := by
  rw [scan_eq] at h
  obtain ⟨l, hl, hm⟩ := List.mem_filterMap.1 h
  exact ⟨l, (mem_found_iff.1 hl).1, hm⟩

section

variable (nested : t.Nested)

include nested

theorem enclosed_of_mem_scan {marker : String} (h : site ∈ scan marker t) : site.Enclosed := by
  obtain ⟨l, held, hm⟩ := exists_holds_of_mem_scan h
  exact enclosed_of_match? nested held hm

theorem pairwise_found :
    (found marker t).Pairwise fun a b => a.span.stop ≤ b.span.start :=
  nested.pairwise_outermost _ rfl

theorem nodup_found : (found marker t).Nodup := by
  refine (pairwise_found nested).imp_of_mem fun {a b} ha _ before same => ?_
  obtain ⟨site, hm⟩ := exists_match?_of_mem_found ha
  have nonempty := (enclosed_of_match? nested (mem_found_iff.1 ha).1 hm).nonempty
  rw [span_of_match? hm] at nonempty
  subst same
  omega

/-- The sites of a scan stand one after another. -/
theorem pairwise_scan (marker : String) :
    (scan marker t).Pairwise fun a b => a.span.stop ≤ b.span.start := by
  rw [scan_eq, List.pairwise_filterMap]
  refine (pairwise_found nested).imp fun {a b} before site hs site' hs' => ?_
  rw [span_of_match? hs, span_of_match? hs']
  exact before

end

/-- The sites are those at the given nodes, which are the recognized nodes inside no other, each
once. The sites stand one after the other, and none inside a part of another. -/
structure Outermost (marker : Text) (t : Tree) (nodes : List Located) (sites : List Site) :
    Prop where
  sites_eq : sites.map some = nodes.map (match? marker t)
  nodup : nodes.Nodup
  mem_iff : ∀ l, l ∈ nodes ↔ t.Holds l ∧ Recognized marker t l ∧
    ∀ a ∈ t.enclosing l.place, ¬ Recognized marker t a
  increasing : sites.Pairwise fun a b => a.span.start < b.span.start
  disjoint : sites.Pairwise fun a b => a.span.stop ≤ b.span.start
  outside : ∀ i j (hi : i < sites.length) (hj : j < sites.length), i ≠ j →
    ¬ sites[j].span.Within sites[i].template ∧
      ∀ x ∈ sites[i].interpolations, ¬ sites[j].span.Within x.substitution

/-- In a tree whose nodes enclose their children, the sites a scan finds are the outermost
recognized nodes, in order and apart. -/
theorem outermost_scan (marker : String) (t : Tree) (nested : t.Nested) :
    ∃ nodes, Outermost marker.toList t nodes (scan marker t) := by
  have enclosed (site : Site) (h : site ∈ scan marker t) := enclosed_of_mem_scan nested h
  have disjoint := pairwise_scan nested marker
  refine ⟨found marker.toList t, ?_, nodup_found nested, fun l => mem_found_iff, ?_, disjoint, ?_⟩
  · rw [scan_eq, List.map_filterMap_some_eq_filter_map_isSome, List.filter_eq_self]
    intro reply hr
    obtain ⟨l, hl, rfl⟩ := List.mem_map.1 hr
    exact isSome_match?_iff.2 (mem_found_iff.1 hl).2.1
  · refine disjoint.imp_of_mem fun {a b} ha _ before => ?_
    have := (enclosed a ha).nonempty
    omega
  · intro i j hi hj ne
    refine (enclosed _ (List.getElem_mem hi)).not_within (enclosed _ (List.getElem_mem hj)) ?_
    rw [List.pairwise_iff_getElem] at disjoint
    rcases Nat.lt_or_gt_of_ne ne with before | before
    · exact .inl (disjoint i j hi hj before)
    · exact .inr (disjoint j i hj hi before)

/-- Two statements: a site with another in its substitution, and a site whose substitution is a
literal. -/
def twoSites : Tree where
  text := "sol`a$\x7bsol`x`\x7d`;sol`$\x7b\"T\"\x7db`".toList
  root :=
    .mk (.named .program) none ⟨0, 28⟩ [
      .mk (.named .expressionStatement) none ⟨0, 16⟩ [
        .mk (.named .callExpression) none ⟨0, 15⟩ [
          .mk (.named .identifier) (some .function) ⟨0, 3⟩ [],
          .mk (.named .templateString) (some .arguments) ⟨3, 15⟩ [
            .mk (.token "`") none ⟨3, 4⟩ [],
            .mk (.named .stringFragment) none ⟨4, 5⟩ [],
            .mk (.named .templateSubstitution) none ⟨5, 14⟩ [
              .mk (.token "$\x7b") none ⟨5, 7⟩ [],
              .mk (.named .callExpression) none ⟨7, 13⟩ [
                .mk (.named .identifier) (some .function) ⟨7, 10⟩ [],
                .mk (.named .templateString) (some .arguments) ⟨10, 13⟩ [
                  .mk (.token "`") none ⟨10, 11⟩ [],
                  .mk (.named .stringFragment) none ⟨11, 12⟩ [],
                  .mk (.token "`") none ⟨12, 13⟩ []]],
              .mk (.token "\x7d") none ⟨13, 14⟩ []],
            .mk (.token "`") none ⟨14, 15⟩ []]],
        .mk (.token ";") none ⟨15, 16⟩ []],
      .mk (.named .expressionStatement) none ⟨16, 28⟩ [
        .mk (.named .callExpression) none ⟨16, 28⟩ [
          .mk (.named .identifier) (some .function) ⟨16, 19⟩ [],
          .mk (.named .templateString) (some .arguments) ⟨19, 28⟩ [
            .mk (.token "`") none ⟨19, 20⟩ [],
            .mk (.named .templateSubstitution) none ⟨20, 26⟩ [
              .mk (.token "$\x7b") none ⟨20, 22⟩ [],
              .mk (.named .string) none ⟨22, 25⟩ [
                .mk (.token "\"") none ⟨22, 23⟩ [],
                .mk (.named .stringFragment) none ⟨23, 24⟩ [],
                .mk (.token "\"") none ⟨24, 25⟩ []],
              .mk (.token "\x7d") none ⟨25, 26⟩ []],
            .mk (.named .stringFragment) none ⟨26, 27⟩ [],
            .mk (.token "`") none ⟨27, 28⟩ []]]]]

theorem outermost_twoSites :
    twoSites.Nested ∧ (scan "sol" twoSites).map Site.span = [⟨0, 15⟩, ⟨16, 28⟩] ∧
      ∃ nodes, Outermost "sol".toList twoSites nodes (scan "sol" twoSites) := by
  have nested : twoSites.Nested := by decide
  refine ⟨nested, ?_, outermost_scan "sol" twoSites nested⟩
  rw [scan_eq]
  decide

end Site

end SolidityInlay
