import Mathlib.Data.List.Induction
import SolidityInlay.Editor.Diagnostics
import SolidityInlay.Proofs.Layout

/-!
# Duplicate names

A name belongs to the first site of the project that declares it. A later site conflicts if it
gives the name another interface. The duplicates shown in a file are the conflicting sites of that
file, each once, at the site's name.

Main definitions: `SiteAnalysis.Declares`, `FirstDeclares`, `Conflicts`. Main statements:
`DeclarationSet.duplicates_build`, `perm_duplicates_hostDiagnostics`.
-/

namespace SolidityInlay

/-! ## What sites declare -/

/-- The site compiled to a contract of its name, with this interface. -/
def SiteAnalysis.Declares (s : SiteAnalysis) (name : SiteName) (abi : List Json.Value) : Prop :=
  ∃ held artifact, s.outcome = .compiled held ∧ s.site.name = some name ∧
    held.unit.contract? name.value = some artifact ∧ artifact.abi = abi

/-- The first of the sites that declare a name gives it this interface. -/
def FirstDeclares (sites : List SiteAnalysis) (name : String) (abi : List Json.Value) : Prop :=
  ∃ before s after n, sites = before ++ s :: after ∧ s.Declares n abi ∧ n.value = name ∧
    ∀ t ∈ before, ∀ n' abi', t.Declares n' abi' → n'.value ≠ name

/-- The site gives its name another interface than the first site that declares it. -/
def Conflicts (sites : List SiteAnalysis) (s : SiteAnalysis) : Prop :=
  ∃ name abi first, s.Declares name abi ∧ FirstDeclares sites name.value first ∧ abi ≠ first

def IntegralInterfaces (sites : List SiteAnalysis) : Prop :=
  ∀ s ∈ sites, ∀ name abi, s.Declares name abi → ∀ v ∈ abi, v.Integral

open Classical in
/-- The names of a file's sites that conflict, where they stand in the text. -/
noncomputable def Analysis.conflictSpans (a : Analysis) (sites : List SiteAnalysis) : List Span :=
  (a.sites.filter fun s => Conflicts sites s).filterMap fun s => s.site.name.map SiteName.span

namespace SiteAnalysis

variable {s : SiteAnalysis} {file : Path}

/-- The program finds a declaration at a site exactly if the site declares something. -/
theorem declaration?_eq_some_iff {d : Declaration} :
    s.declaration? file = some d ↔
      ∃ name abi, s.Declares name abi ∧ d = ⟨name.value, abi, ⟨file, name.span⟩⟩ := by
  constructor
  · intro h
    obtain ⟨name, named, h⟩ := Option.bind_eq_some_iff.1 h
    obtain ⟨artifact, found, h⟩ := Option.bind_eq_some_iff.1 h
    obtain ⟨unit, compiled, found⟩ := Option.bind_eq_some_iff.1 found
    obtain ⟨held, outcome, rfl⟩ : ∃ held, s.outcome = .compiled held ∧ held.unit = unit := by
      unfold unit? at compiled
      split at compiled
      · rename_i held outcome
        exact ⟨held, outcome, Option.some.inj compiled⟩
      · cases compiled
    rw [named] at found
    exact ⟨name, artifact.abi, ⟨held, artifact, outcome, named, found, rfl⟩,
      (Option.some.inj h).symm⟩
  · rintro ⟨_, _, ⟨held, artifact, outcome, named, found, rfl⟩, rfl⟩
    simp [declaration?, namedArtifact?, unit?, outcome, named, found]

theorem Declares.unique {name name' : SiteName} {abi abi' : List Json.Value}
    (h : s.Declares name abi) (h' : s.Declares name' abi') : name = name' ∧ abi = abi' := by
  obtain ⟨held, artifact, outcome, named, found, rfl⟩ := h
  obtain ⟨held', artifact', outcome', named', found', rfl⟩ := h'
  rw [outcome, Outcome.compiled.injEq] at outcome'
  rw [named, Option.some.injEq] at named'
  subst outcome' named'
  rw [found, Option.some.injEq] at found'
  exact ⟨rfl, by rw [found']⟩

theorem Declares.name_eq {name : SiteName} {abi : List Json.Value} (h : s.Declares name abi) :
    s.site.name = some name := by
  obtain ⟨_, _, _, named, _⟩ := h
  exact named

def interface? (file : Path) (name : String) (s : SiteAnalysis) : Option (List Json.Value) :=
  ((s.declaration? file).filter fun d => d.name == name).map Declaration.abi

theorem interface?_eq_some_iff {name : String} {abi : List Json.Value} :
    s.interface? file name = some abi ↔ ∃ n, s.Declares n abi ∧ n.value = name := by
  simp only [interface?, Option.map_eq_some_iff, Option.filter_eq_some_iff,
    declaration?_eq_some_iff, beq_iff_eq]
  constructor
  · rintro ⟨_, ⟨⟨n, _, declares, rfl⟩, same⟩, rfl⟩
    exact ⟨n, declares, same⟩
  · rintro ⟨n, declares, same⟩
    exact ⟨_, ⟨⟨n, abi, declares, rfl⟩, same⟩, rfl⟩

theorem interface?_eq (file file' : Path) : interface? file = interface? file' := by
  funext name s
  refine Option.ext fun abi => ?_
  rw [interface?_eq_some_iff, interface?_eq_some_iff]

theorem interface?_eq_none_iff {name : String} :
    s.interface? file name = none ↔ ∀ n abi, s.Declares n abi → n.value ≠ name := by
  constructor
  · intro h n abi declares same
    rw [interface?_eq_some_iff.2 ⟨n, declares, same⟩] at h
    cases h
  · intro h
    rw [Option.eq_none_iff_forall_ne_some]
    intro abi found
    obtain ⟨n, declares, same⟩ := interface?_eq_some_iff.1 found
    exact h n abi declares same

end SiteAnalysis

/-- The first site that declares a name is found by going through the sites. -/
theorem firstDeclares_iff (file : Path) {sites : List SiteAnalysis} {name : String}
    {abi : List Json.Value} :
    FirstDeclares sites name abi ↔
      sites.findSome? (SiteAnalysis.interface? file name) = some abi := by
  simp only [FirstDeclares, List.findSome?_eq_some_iff, SiteAnalysis.interface?_eq_some_iff,
    SiteAnalysis.interface?_eq_none_iff]
  constructor
  · rintro ⟨before, s, after, n, split, declares, same, first⟩
    exact ⟨before, s, after, split, ⟨n, declares, same⟩, first⟩
  · rintro ⟨before, s, after, split, ⟨n, declares, same⟩, first⟩
    exact ⟨before, s, after, n, split, declares, same, first⟩

theorem find?_filterMap_declaration? (file : Path) (sites : List SiteAnalysis) (name : String) :
    ((sites.filterMap (SiteAnalysis.declaration? file)).find? fun d => d.name == name).map
        Declaration.abi =
      sites.findSome? (SiteAnalysis.interface? file name) := by
  induction sites with
  | nil => rfl
  | cons s sites ih =>
    rw [List.filterMap_cons, List.findSome?_cons, ← ih, SiteAnalysis.interface?]
    cases s.declaration? file with
    | none => rfl
    | some d => by_cases same : d.name = name <;> simp [same, Option.filter]

/-- Among all declarations of a project the first of a name has the interface that the first site
gives it. -/
theorem find?_declarationsOf (file : Path) (analyses : List Analysis) (name : String) :
    ((declarationsOf analyses).find? fun d => d.name == name).map Declaration.abi =
      (analyses.flatMap Analysis.sites).findSome? (SiteAnalysis.interface? file name) := by
  induction analyses with
  | nil => rfl
  | cons a analyses ih =>
    have split : declarationsOf (a :: analyses) =
        a.sites.filterMap (SiteAnalysis.declaration? a.path) ++ declarationsOf analyses := rfl
    rw [split, List.find?_append, List.flatMap_cons, List.findSome?_append, ← ih, Option.map_or,
      find?_filterMap_declaration?, SiteAnalysis.interface?_eq a.path file]

/-- The declaration of a name that is found has the interface of the first site. -/
theorem firstDeclares_of_find? {analyses : List Analysis} {name : String} {d : Declaration}
    (found : (declarationsOf analyses).find? (fun d => d.name == name) = some d) :
    FirstDeclares (analyses.flatMap Analysis.sites) name d.abi := by
  rw [firstDeclares_iff d.origin.file, ← find?_declarationsOf, found, Option.map_some]

theorem FirstDeclares.unique {sites : List SiteAnalysis} {name : String}
    {abi abi' : List Json.Value} (h : FirstDeclares sites name abi)
    (h' : FirstDeclares sites name abi') : abi = abi' := by
  rw [firstDeclares_iff default] at h h'
  exact Option.some.inj (h.symm.trans h')

/-! ## The set of declarations -/

namespace DeclarationSet

theorem build_concat (ds : List Declaration) (d : Declaration) :
    build (ds ++ [d]) = (build ds).add d := by
  simp [build]

/-- A name is declared by the first declaration of it. -/
theorem get?_build (ds : List Declaration) (name : String) :
    (build ds).get? name = ds.find? fun d => d.name == name := by
  induction ds using List.reverseRecOn with
  | nil => rfl
  | append_singleton ds d ih =>
    rw [build_concat, List.find?_append, ← ih, add]
    cases found : (build ds).get? d.name with
    | none =>
      simp only [get?, List.find?_append]
    | some first =>
      have same : (if first.signature = d.signature then build ds else
          { build ds with duplicates := (build ds).duplicates ++
            [⟨d.name, first.origin, d.origin⟩] }).get? name = (build ds).get? name := by
        split <;> rfl
      simp only [same]
      by_cases named : d.name = name
      · rw [← named, found, Option.some_or]
      · simp [named]

def duplicate? (ds : List Declaration) (d : Declaration) : Option Duplicate :=
  (ds.find? fun e => e.name == d.name).bind fun first =>
    if first.signature = d.signature then none else some ⟨d.name, first.origin, d.origin⟩

/-- The duplicates of a set are, in order, what each declaration is among all of them. -/
theorem duplicates_build (ds : List Declaration) :
    (build ds).duplicates = ds.filterMap (duplicate? ds) := by
  induction ds using List.reverseRecOn with
  | nil => rfl
  | append_singleton ds d ih =>
    -- what is in the list already is found there, so the new declaration makes no difference
    have before : ds.filterMap (duplicate? (ds ++ [d])) = ds.filterMap (duplicate? ds) := by
      refine List.filterMap_congr fun e he => ?_
      have declared : (ds.find? fun f => f.name == e.name).isSome := by
        simpa using ⟨e, he, rfl⟩
      rw [duplicate?, duplicate?, List.find?_append, Option.or_of_isSome declared]
    have last : duplicate? (ds ++ [d]) d = duplicate? ds d := by
      rw [duplicate?, duplicate?, List.find?_append]
      cases ds.find? (fun e => e.name == d.name) <;> simp
    simp only [List.filterMap_append, before, ← ih, List.filterMap_cons, last, List.filterMap_nil]
    rw [build_concat, add, get?_build, duplicate?]
    cases ds.find? (fun e => e.name == d.name) with
    | none => simp
    | some first =>
      simp only [Option.bind_some]
      split_ifs <;> simp

end DeclarationSet

/-! ## The duplicates of a file -/

section

variable {analyses : List Analysis} {a : Analysis}

def Analysis.duplicatesAmong (ds : List Declaration) (a : Analysis) : List Duplicate :=
  (a.sites.filterMap (SiteAnalysis.declaration? a.path)).filterMap (DeclarationSet.duplicate? ds)

/-- The duplicates of a project, file by file. -/
theorem duplicates_declarationsOf (analyses : List Analysis) :
    (DeclarationSet.build (declarationsOf analyses)).duplicates =
      analyses.flatMap (Analysis.duplicatesAmong (declarationsOf analyses)) := by
  rw [DeclarationSet.duplicates_build]
  have among (ds : List Declaration) : (declarationsOf analyses).filterMap
      (DeclarationSet.duplicate? ds) = analyses.flatMap (Analysis.duplicatesAmong ds) := by
    rw [declarationsOf, List.filterMap_flatMap]
    rfl
  exact among _

/-- A duplicate is in the file of the site that declares it. -/
theorem file_of_mem_duplicatesAmong {ds : List Declaration} {d : Duplicate}
    (h : d ∈ a.duplicatesAmong ds) : d.conflicting.file = a.path := by
  obtain ⟨e, he, duplicate⟩ := List.mem_filterMap.1 h
  obtain ⟨s, _, declared⟩ := List.mem_filterMap.1 he
  obtain ⟨name, abi, _, rfl⟩ := SiteAnalysis.declaration?_eq_some_iff.1 declared
  obtain ⟨first, _, duplicate⟩ := Option.bind_eq_some_iff.1 duplicate
  split at duplicate
  · cases duplicate
  · cases duplicate
    rfl

/-- Files of other paths have no duplicates in a file. -/
theorem filter_flatMap_duplicatesAmong {ds : List Declaration} {path : Path}
    (other : ∀ b ∈ analyses, b.path.same path = false) :
    (analyses.flatMap (Analysis.duplicatesAmong ds)).filter
      (fun d => d.conflicting.file.same path) = [] := by
  rw [List.filter_eq_nil_iff]
  intro d hd
  obtain ⟨b, hb, hd⟩ := List.mem_flatMap.1 hd
  rw [file_of_mem_duplicatesAmong hd, other b hb]
  exact Bool.false_ne_true

/-- The duplicates in a file of the project are those that its own sites declare. -/
theorem filter_duplicates (distinct : analyses.Pairwise fun a b => a.path.same b.path = false)
    (member : a ∈ analyses) :
    (DeclarationSet.build (declarationsOf analyses)).duplicates.filter
        (fun d => d.conflicting.file.same a.path) =
      a.duplicatesAmong (declarationsOf analyses) := by
  rw [duplicates_declarationsOf]
  generalize declarationsOf analyses = ds
  obtain ⟨before, after, rfl⟩ := List.append_of_mem member
  obtain ⟨_, distinct, apart⟩ := List.pairwise_append.1 distinct
  have left : ∀ b ∈ before, b.path.same a.path = false := fun b hb => apart b hb a (by simp)
  have right : ∀ b ∈ after, b.path.same a.path = false := by
    intro b hb
    have different : a.path.components ≠ b.path.components := by
      simpa [Path.same] using (List.pairwise_cons.1 distinct).1 b hb
    simpa [Path.same] using different.symm
  have own : (a.duplicatesAmong ds).filter (fun d => d.conflicting.file.same a.path) =
      a.duplicatesAmong ds := by
    rw [List.filter_eq_self]
    intro d hd
    simp [file_of_mem_duplicatesAmong hd, Path.same]
  simp only [List.flatMap_append, List.flatMap_cons, List.filter_append,
    filter_flatMap_duplicatesAmong left, filter_flatMap_duplicatesAmong right, own,
    List.nil_append, List.append_nil]

/-- Interfaces without doubles differ exactly if their texts do. -/
theorem signature_eq_iff {d e : Declaration} (hd : ∀ v ∈ d.abi, v.Integral)
    (he : ∀ v ∈ e.abi, v.Integral) : d.signature = e.signature ↔ d.abi = e.abi := by
  constructor
  · exact Json.compact_array_inj hd he
  · intro same
    rw [Declaration.signature, Declaration.signature, same]

/-- The declarations of a project are those of its sites. -/
theorem mem_declarationsOf {d : Declaration} :
    d ∈ declarationsOf analyses ↔ ∃ b ∈ analyses, ∃ s ∈ b.sites, ∃ name abi,
      s.Declares name abi ∧ d = ⟨name.value, abi, ⟨b.path, name.span⟩⟩ := by
  simp only [declarationsOf, List.mem_flatMap, List.mem_filterMap,
    SiteAnalysis.declaration?_eq_some_iff]

open Classical in
/-- What a site of the project declares is a duplicate exactly if the site conflicts. -/
theorem duplicate?_of_declares
    (integral : IntegralInterfaces (analyses.flatMap Analysis.sites)) (member : a ∈ analyses)
    {s : SiteAnalysis} (site : s ∈ a.sites) {name : SiteName} {abi : List Json.Value}
    (declares : s.Declares name abi) :
    (DeclarationSet.duplicate? (declarationsOf analyses)
        ⟨name.value, abi, ⟨a.path, name.span⟩⟩).map (fun d => d.conflicting.span) =
      if Conflicts (analyses.flatMap Analysis.sites) s then some name.span else none := by
  -- the name is declared at least here, so there is a first declaration to compare with
  have declared := mem_declarationsOf.2 ⟨a, member, s, site, name, abi, declares, rfl⟩
  obtain ⟨first, found⟩ : ∃ first,
      (declarationsOf analyses).find? (fun d => d.name == name.value) = some first := by
    rw [← Option.isSome_iff_exists, List.find?_isSome]
    exact ⟨_, declared, by simp⟩
  have firstDeclares := firstDeclares_of_find? found
  have firstIntegral : ∀ v ∈ first.abi, v.Integral := by
    obtain ⟨b, hb, t, ht, n, abi', declares', rfl⟩ :=
      mem_declarationsOf.1 (List.mem_of_find?_eq_some found)
    exact integral t (List.mem_flatMap.2 ⟨b, hb, ht⟩) n abi' declares'
  have conflicts : Conflicts (analyses.flatMap Analysis.sites) s ↔ first.abi ≠ abi := by
    constructor
    · rintro ⟨name', abi', first', declares', first'Declares, differs⟩
      obtain ⟨rfl, rfl⟩ := declares.unique declares'
      rw [firstDeclares.unique first'Declares]
      exact differs.symm
    · intro differs
      exact ⟨name, abi, first.abi, declares, firstDeclares, differs.symm⟩
  have here := integral s (List.mem_flatMap.2 ⟨a, member, site⟩) name abi declares
  have texts := signature_eq_iff (e := ⟨name.value, abi, ⟨a.path, name.span⟩⟩) firstIntegral here
  simp only [DeclarationSet.duplicate?, found, Option.bind_some, conflicts, texts]
  by_cases same : first.abi = abi <;> simp [same]

/-- The places of the duplicates in a file are those of the names that conflict. -/
theorem span_duplicatesAmong
    (integral : IntegralInterfaces (analyses.flatMap Analysis.sites)) (member : a ∈ analyses) :
    (a.duplicatesAmong (declarationsOf analyses)).map (fun d => d.conflicting.span) =
      a.conflictSpans (analyses.flatMap Analysis.sites) := by
  classical
  rw [Analysis.duplicatesAmong, List.filterMap_filterMap, List.map_filterMap,
    Analysis.conflictSpans, List.filterMap_filter]
  refine List.filterMap_congr fun s site => ?_
  cases declared : s.declaration? a.path with
  | none =>
    have silent : ¬ Conflicts (analyses.flatMap Analysis.sites) s := by
      rintro ⟨name, abi, _, declares, _⟩
      rw [SiteAnalysis.declaration?_eq_some_iff.2 ⟨name, abi, declares, rfl⟩] at declared
      cases declared
    simp [silent]
  | some d =>
    obtain ⟨name, abi, declares, rfl⟩ := SiteAnalysis.declaration?_eq_some_iff.1 declared
    rw [Option.bind_some, duplicate?_of_declares integral member site declares, declares.name_eq]
    simp

/-- Nothing that is said about a site by itself is about duplicates. -/
theorem code_of_mem_ofSite {s : SiteAnalysis} {d : HostDiagnostic}
    (h : d ∈ HostDiagnostic.ofSite s) : d.code ≠ .duplicateName := by
  have compiler (diagnostics : List Diagnostic)
      (h : d ∈ diagnostics.map (HostDiagnostic.ofDiagnostic s.site)) : d.code ≠ .duplicateName := by
    obtain ⟨e, _, rfl⟩ := List.mem_map.1 h
    exact DiagnosticCode.noConfusion
  unfold HostDiagnostic.ofSite at h
  split at h
  · cases h
  · exact compiler _ h
  · rw [List.mem_singleton.1 h]
    exact DiagnosticCode.noConfusion
  · rcases List.mem_append.1 h with h | h
    · exact compiler _ h
    · split at h
      · cases h
      · split at h
        · cases h
        · rw [List.mem_singleton.1 h]
          exact DiagnosticCode.noConfusion

/-- In every file of a project, whose files differ and whose interfaces have no doubles, the
duplicates shown are warnings at the names of its conflicting sites, one for each. No site conflicts
that gives its name the same interface as the first site. -/
theorem perm_duplicates_hostDiagnostics
    (distinct : analyses.Pairwise fun a b => a.path.same b.path = false)
    (integral : IntegralInterfaces (analyses.flatMap Analysis.sites)) (member : a ∈ analyses) :
    (((hostDiagnostics a (some (.build (declarationsOf analyses)))).filter
        fun d => d.code = .duplicateName).map fun d => (d.severity, d.span)).Perm
      ((a.conflictSpans (analyses.flatMap Analysis.sites)).map fun span =>
        (Severity.warning, span)) ∧
    ∀ s name abi, s.Declares name abi →
      FirstDeclares (analyses.flatMap Analysis.sites) name.value abi →
      ¬ Conflicts (analyses.flatMap Analysis.sites) s := by
  constructor
  · have own : (a.sites.flatMap HostDiagnostic.ofSite).filter
        (fun d => d.code = .duplicateName) = [] := by
      rw [List.filter_eq_nil_iff]
      intro d hd
      obtain ⟨s, _, hd⟩ := List.mem_flatMap.1 hd
      simpa using code_of_mem_ofSite hd
    rw [← span_duplicatesAmong integral member, ← filter_duplicates distinct member]
    refine ((((List.mergeSort_perm _ _).filter _).map _)).trans ?_
    have shown : (HostDiagnostic.ofDuplicates a (.build (declarationsOf analyses))).filter
        (fun d => d.code = .duplicateName) =
          HostDiagnostic.ofDuplicates a (.build (declarationsOf analyses)) := by
      rw [List.filter_eq_self]
      intro d hd
      obtain ⟨duplicate, _, rfl⟩ := List.mem_map.1 hd
      rfl
    rw [List.filter_append, own, Option.map_some, Option.getD_some, shown, List.nil_append,
      HostDiagnostic.ofDuplicates, List.map_map, List.map_map]
    exact .rfl
  · rintro s name abi declares first ⟨name', abi', first', declares', first'Declares, differs⟩
    obtain ⟨rfl, rfl⟩ := declares.unique declares'
    exact differs (first.unique first'Declares)

end

def tokenSite (name : Span) (abi : List Json.Value) : SiteAnalysis where
  site := {
    name := some ⟨"Token", name⟩, marker := ⟨0, 3⟩, span := ⟨0, name.stop + 3⟩
    template := ⟨name.stop + 1, name.stop + 3⟩, segments := [], interpolations := []
    source := some "" }
  outcome := .compiled ⟨0, ⟨"", ⟨[("Token", ⟨abi, [], []⟩)], List.pairwise_singleton _ _⟩, []⟩⟩

theorem declares_tokenSite (name : Span) (abi : List Json.Value) :
    (tokenSite name abi).Declares ⟨"Token", name⟩ abi :=
  ⟨_, ⟨abi, [], []⟩, rfl, rfl, rfl, rfl⟩

/-- The second file gives the name of the first another interface and then the same. -/
def tokenProject : List Analysis := [
  ⟨⟨"a.ts"⟩, "", .typescript, [tokenSite ⟨4, 11⟩ []]⟩, later]
where
  later : Analysis :=
    ⟨⟨"b.ts"⟩, "", .typescript, [tokenSite ⟨4, 11⟩ [.null], tokenSite ⟨40, 47⟩ []]⟩

theorem integralInterfaces_tokenProject :
    IntegralInterfaces (tokenProject.flatMap Analysis.sites) := by
  intro s hs name abi declares v hv
  obtain ⟨span, abi', rfl, null⟩ :
      ∃ span abi', s = tokenSite span abi' ∧ ∀ v ∈ abi', v = .null := by
    simp only [tokenProject, tokenProject.later, List.flatMap_cons, List.flatMap_nil,
      List.cons_append, List.nil_append, List.append_nil, List.mem_cons, List.not_mem_nil,
      or_false] at hs
    rcases hs with rfl | rfl | rfl <;> exact ⟨_, _, rfl, by simp⟩
  rw [← ((declares_tokenSite span abi').unique declares).2] at hv
  rw [null v hv]
  exact .null

theorem perm_duplicates_tokenProject :
    (((hostDiagnostics tokenProject.later (some (.build (declarationsOf tokenProject)))).filter
      fun d => d.code = .duplicateName).map fun d => (d.severity, d.span)).Perm
        [(.warning, ⟨4, 11⟩)] := by
  have distinct : tokenProject.Pairwise fun a b => a.path.same b.path = false := by
    simpa [tokenProject, tokenProject.later] using
      show Path.same ⟨"a.ts"⟩ ⟨"b.ts"⟩ = false by decide
  have first : FirstDeclares (tokenProject.flatMap Analysis.sites) "Token" [] :=
    ⟨[], _, _, _, rfl, declares_tokenSite ⟨4, 11⟩ [], rfl, by simp⟩
  have conflicts : Conflicts (tokenProject.flatMap Analysis.sites) (tokenSite ⟨4, 11⟩ [.null]) :=
    ⟨_, _, _, declares_tokenSite _ _, first, by simp⟩
  obtain ⟨reported, same⟩ := perm_duplicates_hostDiagnostics distinct
    integralInterfaces_tokenProject (show tokenProject.later ∈ tokenProject by simp [tokenProject])
  have agrees := same (tokenSite ⟨40, 47⟩ []) _ _ (declares_tokenSite _ _) first
  have spans : tokenProject.later.conflictSpans (tokenProject.flatMap Analysis.sites) =
      [⟨4, 11⟩] := by
    have names (name : Span) (abi : List Json.Value) :
        (tokenSite name abi).site.name = some ⟨"Token", name⟩ := rfl
    simp [Analysis.conflictSpans, tokenProject.later, conflicts, agrees, names]
  rwa [spans] at reported

end SolidityInlay
