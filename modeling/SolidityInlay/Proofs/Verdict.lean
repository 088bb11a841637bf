import SolidityInlay.Editor.Diagnostics
import SolidityInlay.Proofs.Memoization
import SolidityInlay.Proofs.Splice
import SolidityInlay.Proofs.StoreHistory

/-!
# A file has errors for everyone or for no one

A build stops at a file exactly if the file counts as having errors, and exactly if an error is
shown in it. This rests on what units and failures say: a unit has no error among its diagnostics
and a failure has one, whether they come from the compiler, from a cache or from a store. Which
sites the file has, and so how it was parsed, makes no difference.

Main definitions: `Store.Written`, `Cache.Reached`, `Outcome.Coherent`, `Analysis.ErrorsAgree`. Main
statement: `errors_agree_of_compileSites`.
-/

namespace SolidityInlay

/-! ## Rows keep severities -/

theorem Bytes.littleEndian_mod (width n : Nat) :
    littleEndian width (n % 256 ^ width) = littleEndian width n := by
  induction width generalizing n with
  | zero => rfl
  | succ width ih =>
    have low : n % 256 ^ (width + 1) % 256 = n % 256 := by
      rw [Nat.pow_succ, Nat.mod_mul_left_mod]
    have high : n % 256 ^ (width + 1) / 256 = n / 256 % 256 ^ width := by
      rw [Nat.pow_succ, Nat.mul_comm, Nat.mod_mul_right_div_self]
    rw [littleEndian, littleEndian, low, high, ih]

/-- The diagnostic with the offsets that fit into 64 bits. -/
def Diagnostic.wrapped (d : Diagnostic) : Diagnostic :=
  { d with span := d.span.map fun s => ⟨s.start % 256 ^ 8, s.stop % 256 ^ 8⟩ }

theorem Codec.diagnostic_write_wrapped (d : Diagnostic) :
    diagnostic.write d.wrapped = diagnostic.write d := by
  obtain ⟨severity, message, formatted, _ | s⟩ := d
  · rfl
  · simp only [Diagnostic.wrapped, diagnostic, span, convert, pair, option, nat, Option.map_some,
      Bytes.littleEndian_mod]

namespace Row

def wrapped (row : Row) : Row := { row with diagnostics := row.diagnostics.map .wrapped }

/-- A row is written as if its offsets had wrapped around. -/
theorem encode_wrapped (row : Row) : row.wrapped.encode = row.encode := by
  simp [wrapped, encode, codec, Codec.convert, Codec.pair, Codec.list, List.flatMap_map,
    Codec.diagnostic_write_wrapped]

/-- Whatever its offsets are, a row is read back but for them. -/
theorem decode?_encode_wrapped {row : Row} (size : row.encode.length < 2 ^ 64) :
    decode? row.encode = some row.wrapped := by
  rw [← encode_wrapped] at size ⊢
  refine decode?_encode ?_ size
  intro d hd s hs
  obtain ⟨e, _, rfl⟩ := List.mem_map.1 hd
  obtain ⟨r, _, rfl⟩ := Option.map_eq_some_iff.1 hs
  constructor <;> simp only <;> omega

end Row

/-- No diagnostic of the unit is an error. -/
def CompiledUnit.Clean (u : CompiledUnit) : Prop := ∀ d ∈ u.diagnostics, d.isError = false

namespace Store

/-- The stores that come about by use: rows are written for units that the compiler's responses
give, as far as they fit into 64 bits, the store is cleared, and opened again. -/
inductive Written : Store → Prop
  | empty : Written empty
  | put {s : Store} {r : Response} {u : CompiledUnit} (build : String) (key : ContentKey) :
      Written s → normalize key.hex r = .ok u → (Row.ofUnit u).encode.length < 2 ^ 64 →
      Written (s.put build key u)
  | clear {s : Store} : Written s → Written s.clear
  | reopened {s s' : Store} : Written s → s.encode.length < 2 ^ 64 → decode? s.encode = some s' →
      Written s'

theorem diagnostics_of_get? {s : Store} {build : String} {key : ContentKey} {u : CompiledUnit}
    (h : s.get? build key = some u) :
    ∃ row, (s.rows.get? (rowName build key)).bind Row.decode? = some row ∧
      u.diagnostics = row.diagnostics := by
  obtain ⟨row, found, hrow⟩ := Option.bind_eq_some_iff.1 h
  simp only [Row.unit?, Option.bind_eq_bind] at hrow
  obtain ⟨contracts, _, hu⟩ := Option.bind_eq_some_iff.1 hrow
  exact ⟨row, found, by rw [← Option.some.inj hu]⟩

/-- A unit without errors comes back from a store without errors. -/
theorem clean_of_get?_put {s : Store} {build : String} {key : ContentKey} {u v : CompiledUnit}
    (clean : u.Clean) (size : (Row.ofUnit u).encode.length < 2 ^ 64)
    (h : (s.put build key u).get? build key = some v) : v.Clean := by
  obtain ⟨row, found, same⟩ := diagnostics_of_get? h
  obtain rfl : (Row.ofUnit u).wrapped = row := by
    simpa [Store.put, putRow, Row.decode?_encode_wrapped size] using found
  intro d hd
  rw [same] at hd
  obtain ⟨e, he, rfl⟩ := List.mem_map.1 hd
  exact clean e he

/-- What is found in such a store has no errors. -/
theorem Written.clean {s : Store} (h : s.Written) {build : String} {key : ContentKey}
    {u : CompiledUnit} (found : s.get? build key = some u) : u.Clean := by
  induction h with
  | empty => simp at found
  | put build' key' _ normalized size ih =>
    by_cases same : build = build' ∧ key = key'
    · obtain ⟨rfl, rfl⟩ := same
      exact clean_of_get?_put (isError_of_normalize normalized) size found
    · rw [get?_put_of_ne _ same] at found
      exact ih found
  | clear => simp [Store.clear] at found
  | reopened _ size reopened ih =>
    -- the file gives back the store itself
    rw [decode?_encode size, Option.some.injEq] at reopened
    exact ih (reopened ▸ found)

end Store

/-! ## Caches -/

/-- Every unit that the compiler's responses give fits into 64 bits as a row. -/
def Compiler.Fits {σ : Type} (c : Compiler σ) : Prop :=
  ∀ request state response, (c.compile request state).1 = .ok response →
    ∀ key u, normalize key response = .ok u → (Row.ofUnit u).encode.length < 2 ^ 64

theorem exists_isError_of_normalize {key : String} {r : Response} {diagnostics : List Diagnostic}
    (h : normalize key r = .error diagnostics) : ∃ d ∈ diagnostics, d.isError = true := by
  simp only [normalize] at h
  split at h
  · rename_i broken
    cases h
    exact List.any_eq_true.1 broken
  · cases h

/-- A unit has no errors and a failure has one. -/
def Compilation.Coherent : Compilation → Prop
  | compiled held => held.unit.Clean
  | failed diagnostics => ∃ d ∈ diagnostics, d.isError = true

namespace Cache

variable {σ : Type} {c : Compiler σ} {s : Cache σ}

/-- The caches that come about by use, with a store that others may use as well and that may fail to
be read or written. -/
inductive Reached (c : Compiler σ) : Cache σ → Prop
  | fresh (options : CompilerOptions) (compiler : σ) (nextId : Nat) (accesses : List Access)
      {store : Option Store} : (∀ s ∈ store, s.Written) →
      Reached c (.fresh options compiler store nextId accesses)
  | compile {s : Cache σ} (source : String) : Reached c s → Reached c (s.compile c source).2
  /-- An analysis compiles the sites it finds. -/
  | compileSites {s : Cache σ} (sites : List Site) : Reached c s →
      Reached c (compileSites c s sites).2
  | reset {s : Cache σ} : Reached c s → Reached c s.reset
  | shared {s : Cache σ} {store : Store} : Reached c s → store.Written →
      Reached c { s with store := some store }

structure Clean (s : Cache σ) : Prop where
  held : ∀ e ∈ s.held, e.2.unit.Clean
  store : ∀ store ∈ s.store, store.Written

theorem Clean.hold (h : s.Clean) {unit : CompiledUnit} (clean : unit.Clean) (key : ContentKey) :
    (s.hold key unit).2.Clean := by
  refine ⟨?_, h.store⟩
  intro e he
  rcases List.mem_cons.1 he with rfl | he
  · exact clean
  · exact h.held e he

/-- Storing a clean unit leaves the cache clean, whether or not the write succeeds. -/
theorem Clean.persist (h : s.Clean) {key : ContentKey} {r : Response} {unit : CompiledUnit}
    (normalized : normalize key.hex r = .ok unit) (size : (Row.ofUnit unit).encode.length < 2 ^ 64)
    (access : Access) (build : Option String) : (s.persist access build key unit).Clean := by
  unfold Cache.persist
  split
  · rename_i store build there
    split
    · refine ⟨h.held, ?_⟩
      rintro _ ⟨⟩
      exact .put build key (h.store store there) normalized size
    · exact h
  · exact h

theorem Clean.invoke (fits : c.Fits) (h : s.Clean) (access : Access) (build : Option String)
    (key : ContentKey) (source : String) :
    (∀ a, (s.invoke c access build key source).1 = .ok a → a.Coherent) ∧
      (s.invoke c access build key source).2.Clean := by
  rcases asked : c.compile ⟨source, s.options⟩ s.compiler with ⟨answer, state⟩
  have later : { s with compiler := state, invocations := s.invocations + 1 }.Clean :=
    ⟨h.held, h.store⟩
  simp only [Cache.invoke, asked]
  cases answer with
  | error e => exact ⟨by simp, later⟩
  | ok response =>
    cases normalized : normalize key.hex response with
    | error diagnostics =>
      simp only [normalized]
      refine ⟨?_, later⟩
      rintro _ ⟨⟩
      exact exists_isError_of_normalize normalized
    | ok unit =>
      have clean := isError_of_normalize normalized
      have size := fits _ _ response (by rw [asked]) _ unit normalized
      simp only [normalized]
      refine ⟨?_, (later.persist normalized size access build).hold clean key⟩
      rintro _ ⟨⟩
      exact clean

/-- A compilation is coherent and leaves the cache clean. -/
theorem Clean.compile (fits : c.Fits) (h : s.Clean) (source : String) :
    (∀ a, (s.compile c source).1 = .ok a → a.Coherent) ∧ (s.compile c source).2.Clean := by
  cases missing : s.get? (s.keyOf source) with
  | some held =>
    rw [compile_of_get? missing]
    refine ⟨?_, h⟩
    rintro _ ⟨⟩
    exact h.held _ (mem_held_of_get? missing)
  | none =>
    obtain ⟨compiler, build, _, hsnd⟩ := identified_askBuild c s
    rcases hask : s.askBuild c with ⟨known, s'⟩
    obtain rfl : s' = { s with compiler, build } := by rw [← hsnd, hask]
    -- asking for the build touches neither what is held nor what is stored
    have later : { s with compiler, build, accesses := s.accesses.tail }.Clean := ⟨h.held, h.store⟩
    simp only [Cache.compile, missing, hask, nextAccess]
    split
    · rename_i unit found
      obtain ⟨store, there⟩ := Option.isSome_iff_exists.1 (stored?_cases found).1
      obtain ⟨_, _, stored⟩ := exists_of_stored? there found
      have clean := (later.store store there).clean stored
      refine ⟨?_, later.hold clean _⟩
      rintro _ ⟨⟩
      exact clean
    · exact later.invoke fits _ known _ source

end Cache

/-! ## Sites -/

def Outcome.Coherent : Outcome → Prop
  | compiled held => held.unit.Clean
  | failed diagnostics => ∃ d ∈ diagnostics, d.isError = true
  | _ => True

section

variable {σ : Type} {c : Compiler σ} {s : Cache σ}

theorem Cache.Clean.compileSite (fits : c.Fits) (h : s.Clean) (site : Site) :
    (compileSite c s site).1.Coherent ∧ (compileSite c s site).2.Clean := by
  unfold SolidityInlay.compileSite
  cases site.source with
  | none => exact ⟨trivial, h⟩
  | some source =>
    obtain ⟨coherent, clean⟩ := h.compile fits source
    rcases compiled : s.compile c source with ⟨_ | a, s'⟩
    · rw [compiled] at clean
      simp only [compiled]
      exact ⟨trivial, clean⟩
    · rw [compiled] at coherent clean
      cases a with
      | compiled held =>
        simp only [compiled]
        exact ⟨coherent _ rfl, clean⟩
      | failed diagnostics =>
        simp only [compiled]
        exact ⟨coherent _ rfl, clean⟩

theorem Cache.Clean.compileSites (fits : c.Fits) (h : s.Clean) (sites : List Site) :
    (∀ t ∈ (compileSites c s sites).1, t.outcome.Coherent) ∧
      (compileSites c s sites).2.Clean := by
  induction sites generalizing s with
  | nil => exact ⟨by simp [SolidityInlay.compileSites], h⟩
  | cons site rest ih =>
    obtain ⟨first, clean⟩ := h.compileSite fits site
    obtain ⟨more, clean⟩ := ih clean
    refine ⟨?_, clean⟩
    intro t ht
    rcases List.mem_cons.1 ht with rfl | ht
    · exact first
    · exact more t ht

/-- By induction on the use, nothing with an error is ever held or stored. -/
theorem Cache.Reached.clean (fits : c.Fits) (h : s.Reached c) : s.Clean := by
  induction h with
  | fresh options compiler nextId accesses written => exact ⟨by simp [Cache.fresh], written⟩
  | compile source _ ih => exact (ih.compile fits source).2
  | compileSites sites _ ih => exact (ih.compileSites fits sites).2
  | reset _ ih => exact ⟨by simp [Cache.reset], ih.store⟩
  | shared _ written ih =>
    refine ⟨ih.held, ?_⟩
    rintro _ ⟨⟩
    exact written

end

/-! ## Verdicts -/

namespace SiteAnalysis

/-- A site has an unknown name exactly if its unit has no contract of it. -/
theorem hasUnknownName_iff {s : SiteAnalysis} {held : HeldUnit} (h : s.outcome = .compiled held) :
    s.hasUnknownName = true ↔
      ∃ name, s.site.name = some name ∧ held.unit.contract? name.value = none := by
  cases named : s.site.name <;> simp [hasUnknownName, unit?, h, named]

/-- A build stops at the broken sites. -/
theorem exists_obstructs_iff (s : SiteAnalysis) : (∃ e, s.Obstructs e) ↔ s.isBroken = true := by
  constructor
  · rintro ⟨e, obstructs⟩
    cases obstructs with
    | failed h => simp [isBroken, h]
    | crashed h => simp [isBroken, h]
    | unknownName h named absent =>
      simpa [isBroken, h] using (hasUnknownName_iff h).2 ⟨_, named, absent⟩
  · intro broken
    cases h : s.outcome with
    | unresolved => simp [isBroken, hasUnknownName, unit?, h] at broken
    | failed diagnostics => exact ⟨_, .failed h⟩
    | crashed message => exact ⟨_, .crashed h⟩
    | compiled held =>
      obtain ⟨name, named, absent⟩ := (hasUnknownName_iff h).1 (by simpa [isBroken, h] using broken)
      exact ⟨_, .unknownName h named absent held.unit.contracts.pairwise_names
        held.unit.contracts.mem_names⟩

theorem exists_error_map_iff (site : Site) (diagnostics : List Diagnostic) :
    (∃ d ∈ diagnostics.map (HostDiagnostic.ofDiagnostic site), d.isError = true) ↔
      ∃ d ∈ diagnostics, d.isError = true := by
  simp [HostDiagnostic.ofDiagnostic, HostDiagnostic.isError, Diagnostic.isError]

/-- An error is shown at the broken sites. -/
theorem exists_error_iff {s : SiteAnalysis} (coherent : s.outcome.Coherent) :
    (∃ d ∈ HostDiagnostic.ofSite s, d.isError = true) ↔ s.isBroken = true := by
  cases h : s.outcome with
  | unresolved => simp [HostDiagnostic.ofSite, isBroken, hasUnknownName, unit?, h]
  | failed diagnostics =>
    rw [h] at coherent
    simp only [HostDiagnostic.ofSite, isBroken, h, exists_error_map_iff, iff_true]
    exact coherent
  | crashed message =>
    simp [HostDiagnostic.ofSite, isBroken, HostDiagnostic.ofCrash, HostDiagnostic.isError, h]
  | compiled held =>
    rw [h] at coherent
    have silent : ¬ ∃ d ∈ held.unit.diagnostics.map (HostDiagnostic.ofDiagnostic s.site),
        d.isError = true := by
      rw [exists_error_map_iff]
      rintro ⟨d, hd, isError⟩
      rw [coherent d hd] at isError
      cases isError
    have broken : s.isBroken = s.hasUnknownName := by simp [isBroken, h]
    rw [broken, hasUnknownName_iff h]
    simp only [HostDiagnostic.ofSite, h, List.mem_append, or_and_right, exists_or, silent, false_or]
    cases s.site.name with
    | none => simp
    | some name =>
      simp [HostDiagnostic.ofUnknownName, HostDiagnostic.isError, NameMap.contains,
        CompiledUnit.contract?]

end SiteAnalysis

/-- The errors shown in a file are those of its sites: duplicates are warnings. -/
theorem exists_error_hostDiagnostics_iff (a : Analysis) (declarations : Option DeclarationSet) :
    (∃ d ∈ hostDiagnostics a declarations, d.isError = true) ↔
      ∃ s ∈ a.sites, ∃ d ∈ HostDiagnostic.ofSite s, d.isError = true := by
  have warnings : ¬ ∃ d ∈ (declarations.map (HostDiagnostic.ofDuplicates a)).getD [],
      d.isError = true := by
    rintro ⟨d, hd, isError⟩
    cases declarations with
    | none => simp at hd
    | some set =>
      obtain ⟨duplicate, _, rfl⟩ := List.mem_map.1 hd
      cases isError
  simp only [hostDiagnostics, List.mem_mergeSort, List.mem_append, or_and_right, exists_or,
    warnings, or_false, List.mem_flatMap]
  grind

/-- A build stops at the file exactly if it has errors, and exactly if an error is shown in it. -/
structure Analysis.ErrorsAgree (a : Analysis) (runtimeModule : String)
    (declarations : Option DeclarationSet) : Prop where
  build : (∃ e, transform runtimeModule a = .error e) ↔ a.hasErrors = true
  editor : a.hasErrors = true ↔ ∃ d ∈ hostDiagnostics a declarations, d.severity = .error

/-- In an analysis with coherent outcomes build and editor agree on errors. -/
theorem Analysis.errorsAgree_of_coherent {a : Analysis}
    (coherent : ∀ s ∈ a.sites, s.outcome.Coherent) (runtimeModule : String)
    (declarations : Option DeclarationSet) : a.ErrorsAgree runtimeModule declarations := by
  have broken : a.hasErrors = true ↔ ∃ s ∈ a.sites, s.isBroken = true := List.any_eq_true
  constructor
  · simp only [transform_eq_error_iff]
    rw [exists_firstObstruction_iff, broken]
    simp only [SiteAnalysis.exists_obstructs_iff]
  · have error (d : HostDiagnostic) : d.severity = .error ↔ d.isError = true := by
      simp [HostDiagnostic.isError]
    simp only [error]
    rw [exists_error_hostDiagnostics_iff, broken]
    refine exists_congr fun s => and_congr_right fun hs => ?_
    exact (SiteAnalysis.exists_error_iff (coherent s hs)).symm

/-- Of a file with any sites, compiled at any time with any compiler and a store that was only ever
written by use, a build stops at it exactly if it has errors, and exactly if an error is shown in
it. -/
theorem errors_agree_of_compileSites {σ : Type} {c : Compiler σ} (fits : c.Fits) {cache : Cache σ}
    (reached : cache.Reached c) (sites : List Site) {a : Analysis}
    (compiled : a.sites = (compileSites c cache sites).1) (runtimeModule : String)
    (declarations : Option DeclarationSet) : a.ErrorsAgree runtimeModule declarations := by
  obtain ⟨coherent, _⟩ := (reached.clean fits).compileSites fits sites
  exact Analysis.errorsAgree_of_coherent (compiled ▸ coherent) runtimeModule declarations

/-- So it is for every analysis, however the file is parsed. -/
theorem errorsAgree_of_analyze {σ : Type} {c : Compiler σ} (fits : c.Fits) {cache : Cache σ}
    (reached : cache.Reached c) {marker text : String} {path : Path} {parse : Host.Parser}
    {a : Analysis} (analyzed : (analyze c marker path text cache parse).1 = .ok a)
    (runtimeModule : String) (declarations : Option DeclarationSet) :
    a.ErrorsAgree runtimeModule declarations := by
  obtain ⟨_, language, _, compiled⟩ := sites_of_analyze analyzed
  obtain ⟨coherent, _⟩ := (reached.clean fits).compileSites fits
    (Site.scan marker (parse language text))
  exact Analysis.errorsAgree_of_coherent (compiled ▸ coherent) runtimeModule declarations

theorem fits_counterCompiler : counterCompiler.compiler.Fits := by
  rintro request state _ ⟨⟩ key u normalized
  rw [normalize_counterResponse] at normalized
  cases normalized
  exact (storable_counter key).size

/-- The analysis of a site that is named after a contract it does not have, while the store can
neither be read nor written. -/
def misnamedAnalysis : Except UnsupportedFile Analysis :=
  (analyze counterCompiler.compiler "sol" ⟨"counter.ts"⟩ "sol(\"Token\")`contract Counter \x7b\x7d`"
    (.fresh {} () (some .empty) 0 [⟨false, false⟩])).1

theorem errors_agree_misnamedAnalysis :
    ∃ a, misnamedAnalysis = .ok a ∧ a.hasErrors = true ∧
      (∃ e, transform "runtime" a = .error e) ∧
      ∃ d ∈ hostDiagnostics a (some .empty), d.severity = .error := by
  have broken : misnamedAnalysis.toOption.map Analysis.hasErrors = some true := by decide +kernel
  cases analyzed : misnamedAnalysis with
  | error e => simp [analyzed, Except.toOption] at broken
  | ok a =>
    have errors : a.hasErrors = true := by simpa [analyzed, Except.toOption] using broken
    have written : ∀ s ∈ some Store.empty, s.Written := by
      rintro _ ⟨⟩
      exact .empty
    obtain ⟨_, _, _, compiled⟩ := sites_of_analyze analyzed
    have agree := errors_agree_of_compileSites fits_counterCompiler (.fresh {} () 0 _ written) _
      compiled "runtime" (some .empty)
    exact ⟨a, rfl, errors, agree.build.2 errors, agree.editor.1 errors⟩

end SolidityInlay
