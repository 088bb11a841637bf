import Mathlib.Data.List.Forall2
import SolidityInlay.Proofs.Duplicates
import SolidityInlay.Proofs.LineColumns
import SolidityInlay.Proofs.MappedSpans
import SolidityInlay.Proofs.Parse

/-!
# Diagnostics at their places

What is reported about a host file is what came of its sites and nothing else, in the order of the
text. A diagnostic of the compiler stays inside the template it is about, whatever range the
compiler gave, and every range that is reported lies in the text and is not turned around, so that
it can be underlined. All that is asked of the parser is that its trees are laid over the text.

Main definitions: `SiteAnalysis.Reports`, `InTextOrder`, `Analysis.Reported`. Main statements:
`HostDiagnostic.reports_ofSite`, `inTextOrder_mergeSort`, `reported_hostDiagnostics`.
-/

namespace SolidityInlay

open Host

/-! ## What is to be reported -/

/-- The diagnostic says in the host text what the compiler said, inside the template. -/
structure Relays (template : Span) (said : Diagnostic) (shown : HostDiagnostic) : Prop where
  code : shown.code = .compiler
  severity : shown.severity = said.severity
  message : shown.message = said.message
  inside : shown.span.Within template

structure ErrorAt (code : DiagnosticCode) (span : Span) (shown : HostDiagnostic) : Prop where
  code : shown.code = code
  severity : shown.severity = .error
  span : shown.span = span

/-- The diagnostics that a site calls for: one for each of the compiler's, in its order, one for a
compiler that could not run and one for a name that no contract has. -/
inductive SiteAnalysis.Reports (s : SiteAnalysis) : List HostDiagnostic → Prop
  | unresolved : s.outcome = .unresolved → Reports s []
  | failed {said : List Diagnostic} {shown : List HostDiagnostic} : s.outcome = .failed said →
      List.Forall₂ (Relays s.site.template) said shown → Reports s shown
  | crashed {message : String} {shown : HostDiagnostic} : s.outcome = .crashed message →
      ErrorAt .compilerCrash s.site.span shown → Reports s [shown]
  | compiled {held : HeldUnit} {shown : List HostDiagnostic} : s.outcome = .compiled held →
      List.Forall₂ (Relays s.site.template) held.unit.diagnostics shown →
      (∀ name ∈ s.site.name, held.unit.contract? name.value ≠ none) → Reports s shown
  | misnamed {held : HeldUnit} {shown : List HostDiagnostic} {name : SiteName}
      {unknown : HostDiagnostic} : s.outcome = .compiled held →
      List.Forall₂ (Relays s.site.template) held.unit.diagnostics shown →
      s.site.name = some name → held.unit.contract? name.value = none →
      ErrorAt .unknownName name.span unknown → Reports s (shown ++ [unknown])

structure WarnsOf (duplicate : Duplicate) (shown : HostDiagnostic) : Prop where
  code : shown.code = .duplicateName
  severity : shown.severity = .warning
  span : shown.span = duplicate.conflicting.span

def Analysis.duplicatesIn (a : Analysis) (declarations : Option DeclarationSet) : List Duplicate :=
  (declarations.elim [] DeclarationSet.duplicates).filter fun d => d.conflicting.file.same a.path

/-- The same diagnostics by start, then by end; those at one range stay in their order. -/
structure InTextOrder (given sorted : List HostDiagnostic) : Prop where
  perm : sorted.Perm given
  ordered : sorted.Pairwise fun d e =>
    d.span.start < e.span.start ∨ d.span.start = e.span.start ∧ d.span.stop ≤ e.span.stop
  stable : ∀ span, sorted.filter (fun d => d.span = span) = given.filter fun d => d.span = span

/-- The diagnostics of a file: those that its sites call for and the warnings of duplicates, each at
a range of the text. If the text has less than `2 ^ 32` bytes, the range can be underlined: lines
and columns are numbers of 32 bits, and on one line the range does not end before it starts. -/
structure Analysis.Reported (a : Analysis) (declarations : Option DeclarationSet)
    (shown : List HostDiagnostic) : Prop where
  complete : ∃ sites duplicates, List.Forall₂ SiteAnalysis.Reports a.sites sites ∧
    List.Forall₂ WarnsOf (a.duplicatesIn declarations) duplicates ∧
    InTextOrder (sites.flatten ++ duplicates) shown
  inside : ∀ d ∈ shown, d.span.start ≤ d.span.stop ∧ d.span.stop ≤ Text.size a.text.toList
  underlined : Text.size a.text.toList < 2 ^ 32 → ∀ d ∈ shown, ∀ start stop,
    (LineIndex.ofString a.text).range d.span = (start, stop) →
      start.Fits ∧ stop.Fits ∧ (stop.line = start.line → start.column ≤ stop.column)

/-- The declarations a file is shown with: none, or those of a project of different files that it
belongs to. -/
inductive Analysis.Among (a : Analysis) : Option DeclarationSet → Prop
  | alone : Among a none
  | project {analyses : List Analysis} : a ∈ analyses →
      (analyses.Pairwise fun a b => a.path.same b.path = false) →
      Among a (some (.build (declarationsOf analyses)))

/-! ## The order -/

theorem Span.le_trans (a b c : Span) (h : a.le b) (h' : b.le c) : a.le c := by
  simp [Span.le] at *
  omega

theorem Span.le_total (a b : Span) : a.le b || b.le a := by
  simp [Span.le]
  omega

/-- Sorting moves nothing among elements that may stand in either order. -/
theorem filter_mergeSort {α : Type} {le : α → α → Bool} (trans : ∀ a b c, le a b → le b c → le a c)
    (total : ∀ a b, le a b || le b a) {p : α → Bool} (tied : ∀ a b, p a → p b → le a b)
    (l : List α) : (l.mergeSort le).filter p = l.filter p := by
  have kept : (l.filter p).Pairwise fun a b => le a b := by
    refine List.pairwise_of_forall_mem_list fun a ha b hb => ?_
    exact tied a b (List.mem_filter.mp ha).2 (List.mem_filter.mp hb).2
  have sublist := (List.sublist_mergeSort trans total kept List.filter_sublist).filter p
  rw [List.filter_filter] at sublist
  simp only [Bool.and_self] at sublist
  exact (sublist.eq_of_length ((List.mergeSort_perm l le).filter p).length_eq.symm).symm

/-- A stable sort by ranges puts diagnostics in the order of the text. -/
theorem inTextOrder_mergeSort (given : List HostDiagnostic) :
    InTextOrder given (given.mergeSort fun d e => d.span.le e.span) := by
  have trans (d e f : HostDiagnostic) := Span.le_trans d.span e.span f.span
  have total (d e : HostDiagnostic) := Span.le_total d.span e.span
  refine ⟨List.mergeSort_perm _ _, ?_, fun span => filter_mergeSort trans total ?_ given⟩
  · refine (List.pairwise_mergeSort trans total given).imp fun {d e} le => ?_
    simpa [Span.le] using le
  · intro d e hd he
    have same : d.span = e.span := (of_decide_eq_true hd).trans (of_decide_eq_true he).symm
    simp [same, Span.le]

/-! ## The ranges of a site -/

def Span.InText (span : Span) (host : Text) : Prop := span.start ≤ span.stop ∧ span.stop ≤ host.size

structure Site.InText (host : Text) (site : Site) : Prop where
  scanned : site.Scanned host
  span : site.span.InText host
  template : site.template.InText host
  name : ∀ name ∈ site.name, name.span.InText host

/-- The nodes of a tree laid over a text cover ranges of it. -/
theorem Host.Tree.LaidOver.inText {t : Tree} (laid : t.LaidOver) {l : Located} (held : t.Holds l) :
    l.span.InText t.text :=
  ⟨(laid.nested l held).ordered, (laid.boundary l held).2.le_size⟩

/-- A site that is found lies in the text with all its parts. -/
theorem Site.inText_of_mem_scan {t : Tree} (laid : t.LaidOver) {marker : String} {site : Site}
    (h : site ∈ scan marker t) : site.InText t.text := by
  obtain ⟨expr, held, matched⟩ := exists_holds_of_mem_scan h
  have scanned := scanned_of_match? laid held matched
  obtain ⟨template, tag, name, parts, applies, _, rfl⟩ := match?_eq_some_iff.mp matched
  obtain ⟨callee, function, tagged⟩ := applies.tagged
  have calleeHeld := Tree.holds_of_mem_children held (Located.mem_children_of_child? function)
  have templateHeld :=
    Tree.holds_of_mem_children held (Located.mem_children_of_child? applies.argument)
  refine ⟨scanned, laid.inText held, laid.inText templateHeld, fun n named => ?_⟩
  obtain ⟨arg, argHeld, same⟩ := (tagged.holds calleeHeld).2 n named
  rw [same]
  exact laid.inText argHeld

/-- The sites of an analysis lie in its text, if the parser is faithful. -/
theorem inText_of_analyze {σ : Type} {c : Compiler σ} {cache : Cache σ} {marker text : String}
    {path : Path} {parse : Host.Parser} (faithful : parse.Faithful) {a : Analysis}
    (ran : (analyze c marker path text cache parse).1 = .ok a) {s : SiteAnalysis}
    (mem : s ∈ a.sites) : s.site.InText a.text.toList := by
  obtain ⟨rfl, language, _, sites⟩ := sites_of_analyze ran
  have scanned : s.site ∈ Site.scan marker (parse language a.text) := by
    rw [← map_site_compileSites c cache (Site.scan marker (parse language a.text)), ← sites]
    exact List.mem_map_of_mem mem
  rw [← faithful.text language]
  exact Site.inText_of_mem_scan (faithful.laidOver language a.text) scanned

/-! ## What is reported -/

namespace HostDiagnostic

variable {host : Text}

/-- Wherever the compiler placed a diagnostic, it is shown inside the template. -/
theorem span_ofDiagnostic {site : Site} (h : site.InText host) (said : Diagnostic) :
    (ofDiagnostic site said).span.start ≤ (ofDiagnostic site said).span.stop ∧
      (ofDiagnostic site said).span.Within site.template := by
  unfold ofDiagnostic
  split
  · next map span mapped _ =>
    obtain ⟨source, resolved⟩ := Option.isSome_iff_exists.mp
      ((Site.isSome_ofSite?_iff h.scanned.source).mp (by simp [mapped]))
    obtain ⟨left, ordered, right⟩ :=
      PositionMap.mapSpan_inside h.scanned resolved mapped span
    exact ⟨ordered, Nat.le_of_succ_le left, Nat.le_trans right (Nat.sub_le _ _)⟩
  · exact ⟨h.template.1, Nat.le_refl _, Nat.le_refl _⟩

/-- The compiler's diagnostic is relayed with its severity and message, inside the template. -/
theorem relays_ofDiagnostic {site : Site} (h : site.InText host) (said : Diagnostic) :
    Relays site.template said (ofDiagnostic site said) :=
  ⟨rfl, rfl, rfl, (span_ofDiagnostic h said).2⟩

/-- Wherever the compiler points, the diagnostic is shown at a range of the host text. -/
theorem inText_ofDiagnostic {site : Site} (h : site.InText host) (said : Diagnostic) :
    (ofDiagnostic site said).span.InText host := by
  obtain ⟨ordered, _, within⟩ := span_ofDiagnostic h said
  exact ⟨ordered, Nat.le_trans within h.template.2⟩

/-- Each diagnostic of the compiler is relayed by the one at its place in the list. -/
theorem forall₂_ofDiagnostic {site : Site} (h : site.InText host) (said : List Diagnostic) :
    List.Forall₂ (Relays site.template) said (said.map (ofDiagnostic site)) := by
  rw [List.forall₂_map_right_iff, List.forall₂_same]
  exact fun d _ => relays_ofDiagnostic h d

/-- A site is reported as its outcome calls for. -/
theorem reports_ofSite {s : SiteAnalysis} (h : s.site.InText host) : s.Reports (ofSite s) := by
  unfold ofSite
  split
  · next outcome => exact .unresolved outcome
  · next said outcome => exact .failed outcome (forall₂_ofDiagnostic h said)
  · next message outcome => exact .crashed outcome ⟨rfl, rfl, rfl⟩
  · next held outcome =>
    have relayed := forall₂_ofDiagnostic h held.unit.diagnostics
    cases named : s.site.name with
    | none =>
      simp only [List.append_nil]
      exact .compiled outcome relayed (by simp [named])
    | some name =>
      simp only
      split
      · next defined =>
        rw [List.append_nil]
        refine .compiled outcome relayed ?_
        rintro n held
        obtain rfl : name = n := by simpa [named] using held
        exact Option.isSome_iff_ne_none.mp defined
      · next missing =>
        refine .misnamed outcome relayed named ?_ ⟨rfl, rfl, rfl⟩
        simpa [CompiledUnit.contract?, NameMap.contains] using missing

/-- Whatever is said about a site is at one of its ranges. -/
theorem inText_of_mem_ofSite {s : SiteAnalysis} (h : s.site.InText host) {d : HostDiagnostic}
    (mem : d ∈ ofSite s) : d.span.InText host := by
  have relayed (said : List Diagnostic) (mem : d ∈ said.map (ofDiagnostic s.site)) :
      d.span.InText host := by
    obtain ⟨e, _, rfl⟩ := List.mem_map.mp mem
    exact inText_ofDiagnostic h e
  unfold ofSite at mem
  split at mem
  · cases mem
  · exact relayed _ mem
  · rw [List.mem_singleton.mp mem]
    exact h.span
  · rcases List.mem_append.mp mem with said | unknown
    · exact relayed _ said
    · split at unknown
      · cases unknown
      · next name named =>
        split at unknown
        · cases unknown
        · rw [List.mem_singleton.mp unknown]
          exact h.name name named

end HostDiagnostic

/-- The duplicates in a file are at names of its sites. -/
theorem inText_of_mem_duplicatesIn {a : Analysis} {declarations : Option DeclarationSet}
    (among : a.Among declarations) {host : Text} (sites : ∀ s ∈ a.sites, s.site.InText host)
    {d : Duplicate} (mem : d ∈ a.duplicatesIn declarations) : d.conflicting.span.InText host := by
  cases among with
  | alone => cases mem
  | @project analyses member distinct =>
    have own : d ∈ a.duplicatesAmong (declarationsOf analyses) := by
      rw [← filter_duplicates distinct member]
      exact mem
    obtain ⟨e, declared, duplicate⟩ := List.mem_filterMap.mp own
    obtain ⟨s, site, declared⟩ := List.mem_filterMap.mp declared
    obtain ⟨name, abi, declares, rfl⟩ := SiteAnalysis.declaration?_eq_some_iff.mp declared
    obtain ⟨first, _, duplicate⟩ := Option.bind_eq_some_iff.mp duplicate
    split at duplicate
    · cases duplicate
    · cases duplicate
      exact (sites s site).name name declares.name_eq

/-- The diagnostics of a file are those of its sites and its duplicates, sorted. -/
theorem hostDiagnostics_eq (a : Analysis) (declarations : Option DeclarationSet) :
    hostDiagnostics a declarations =
      (a.sites.flatMap HostDiagnostic.ofSite ++
        (a.duplicatesIn declarations).map (HostDiagnostic.ofDuplicate a)).mergeSort
          fun d e => d.span.le e.span := by
  cases declarations <;> rfl

/-- On one line, a range in the text ends at or behind the column where it starts. -/
theorem Span.InText.column_le {span : Span} {text : String} (h : span.InText text.toList)
    {start stop : Position} (range : (LineIndex.ofString text).range span = (start, stop))
    (line : stop.line = start.line) : start.column ≤ stop.column := by
  cases range
  rcases LineIndex.position_eq_or_before text.toList h.1 with same | earlier | ⟨_, before⟩
  · exact Nat.le_of_eq (congrArg Position.column same)
  · exact absurd line (Nat.ne_of_gt earlier)
  · exact Nat.le_of_lt before

/-- A file whose sites lie in its text is reported as they call for. -/
theorem reported_of_inText {a : Analysis} (sites : ∀ s ∈ a.sites, s.site.InText a.text.toList)
    {declarations : Option DeclarationSet} (among : a.Among declarations) :
    a.Reported declarations (hostDiagnostics a declarations) := by
  have inText : ∀ d ∈ hostDiagnostics a declarations, d.span.InText a.text.toList := by
    intro d mem
    rw [hostDiagnostics_eq, List.mem_mergeSort, List.mem_append] at mem
    rcases mem with own | duplicate
    · obtain ⟨s, site, mem⟩ := List.mem_flatMap.mp own
      exact HostDiagnostic.inText_of_mem_ofSite (sites s site) mem
    · obtain ⟨e, mem, rfl⟩ := List.mem_map.mp duplicate
      exact inText_of_mem_duplicatesIn among sites mem
  refine ⟨⟨a.sites.map HostDiagnostic.ofSite,
    (a.duplicatesIn declarations).map (HostDiagnostic.ofDuplicate a), ?_, ?_, ?_⟩, inText, ?_⟩
  · rw [List.forall₂_map_right_iff, List.forall₂_same]
    exact fun s mem => HostDiagnostic.reports_ofSite (sites s mem)
  · rw [List.forall₂_map_right_iff, List.forall₂_same]
    exact fun d _ => ⟨rfl, rfl, rfl⟩
  · rw [hostDiagnostics_eq, ← List.flatMap_def]
    exact inTextOrder_mergeSort _
  · rintro small d mem _ _ ⟨⟩
    exact ⟨LineIndex.fits_position small _, LineIndex.fits_position small _,
      (inText d mem).column_le rfl⟩

/-- The grammar's parser is faithful, so that its analyses are reported so. -/
theorem reported_analyze {σ : Type} {c : Compiler σ} {cache : Cache σ} {marker text : String}
    {path : Path} {a : Analysis} (ran : (analyze c marker path text cache).1 = .ok a)
    {declarations : Option DeclarationSet} (among : a.Among declarations) :
    a.Reported declarations (hostDiagnostics a declarations) :=
  reported_of_inText (fun _ mem => inText_of_analyze faithful_parse ran mem) among

end SolidityInlay
