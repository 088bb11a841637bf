import SolidityInlay.Editor.Project
import SolidityInlay.Proofs.FileTree
import SolidityInlay.Proofs.Key
import SolidityInlay.Proofs.Memoization

/-!
# Analysis without a cache

What the analysis of a file, and of the files of a project, comes to if every site is compiled by
the compiler itself. With a cache, with or without a store, it comes to the same, whatever was
compiled before: a unit from a cache is another occasion of the unit that the compiler would give.
All sources of one cache are compiled with the same options, so their keys can be equal only if the
hash collides. Nothing here depends on how files are found or parsed.

Main definitions: `directAnalysis?`, `declaredIn`, `Cache.Sound`. Main statement:
`declarations_analyzeReadable`.
-/

namespace SolidityInlay

/-! ## Direct analysis -/

section

variable (frontend : Frontend) (c : FixedCompiler) (config : Config)

/-- What comes of a site if the compiler is asked. The occasion of a unit is left open. -/
def directOutcome (site : Site) : Outcome :=
  match site.source with
  | none => .unresolved
  | some source =>
    match Call.direct ⟨c, ⟨source, config.compilerOptions⟩⟩ with
    | .ok (.ok unit) => .compiled ⟨0, unit⟩
    | .ok (.error diagnostics) => .failed diagnostics
    | .error e => .crashed e.message

def sitesOf (language : Host.Language) (text : String) : List Site :=
  Site.scan config.marker (frontend.parse language text)

/-- The analysis of a text, none if it is not that of a host file. -/
def directAnalysis? (path : Path) (text : String) : Option Analysis :=
  (Host.Language.ofPath? path).map fun language =>
    ⟨path, text, language, (sitesOf frontend config language text).map fun site =>
      ⟨site, directOutcome c config site⟩⟩

/-- The analyses of those files that are readable and host files. -/
def directAnalyses (t : FileTree) (files : List Path) : List Analysis :=
  files.filterMap fun path =>
    (t.readText path).toOption.bind (directAnalysis? frontend c config path)

def declaredIn (root : Path) (t : FileTree) : Except MissingPath DeclarationSet :=
  (frontend.find t config root).map fun files =>
    .build (declarationsOf (directAnalyses frontend c config t files))

end

/-! ## Sources -/

section

variable (frontend : Frontend) (config : Config)

def sourcesIn (path : Path) (text : String) : List String :=
  ((Host.Language.ofPath? path).map fun language =>
    (sitesOf frontend config language text).filterMap Site.source).getD []

def sourcesAt (t : FileTree) (files : List Path) : List String :=
  files.flatMap fun path =>
    match t.readText path with
    | .ok text => sourcesIn frontend config path text
    | .error _ => []

def sourcesOf (root : Path) (t : FileTree) : List String :=
  match frontend.find t config root with
  | .ok files => sourcesAt frontend config t files
  | .error _ => []

end

/-- The hash tells the sources apart. -/
def Distinguished (options : CompilerOptions) (sources : List String) : Prop :=
  ∀ a ∈ sources, ∀ b ∈ sources,
    ¬ Sha256.Collide (Request.message ⟨a, options⟩) (Request.message ⟨b, options⟩)

/-- Under the same options no source reads on over the end of another. -/
theorem Request.not_absorbs {a b : Request} (same : a.options = b.options) : ¬ a.Absorbs b := by
  rintro ⟨taken, -, options⟩
  have sizes := congrArg List.length options
  rw [same, List.length_append, List.length_cons] at sizes
  omega

/-- Sources that the hash tells apart have keys of their own. -/
theorem Distinguished.eq_of_key {options : CompilerOptions} {sources : List String}
    (distinguished : Distinguished options sources) {a b : String} (ha : a ∈ sources)
    (hb : b ∈ sources) (same : ContentKey.derive a options = .derive b options) : a = b := by
  let first : Request := ⟨a, options⟩
  let second : Request := ⟨b, options⟩
  have messages : first.message = second.message :=
    (Request.message_eq_or_collide_of_key (show first.key = second.key from same)).resolve_right
      (distinguished a ha b hb)
  rcases Request.message_eq_iff.1 messages with equal | absorbs | absorbs
  · exact congrArg Request.source equal
  · exact absurd absorbs (Request.not_absorbs rfl)
  · exact absurd absorbs (Request.not_absorbs rfl)

def callsFor (c : FixedCompiler) (options : CompilerOptions) (sources : List String) : List Call :=
  sources.map fun source => ⟨c, ⟨source, options⟩⟩

/-- A store that can be used for sources: what it has of them are the compiler's answers, and it can
keep these. -/
structure Store.Usable (c : FixedCompiler) (options : CompilerOptions) (sources : List String)
    (s : Store) : Prop where
  sound : s.Sound (callsFor c options sources)
  storable : ∀ call ∈ callsFor c options sources, ∀ u, call.direct = .ok (.ok u) → u.Storable

/-- The calls for such sources are told apart by a cache, before any store that can be used for
them. -/
theorem Distinguished.cacheable {c : FixedCompiler} {options : CompilerOptions}
    {sources : List String} (distinguished : Distinguished options sources) {store : Store}
    (usable : store.Usable c options sources) : Cacheable (callsFor c options sources) where
  keys := by
    simp only [callsFor, List.forall_mem_map]
    intro a ha b hb same
    rw [distinguished.eq_of_key ha hb same]
  builds := by simp [callsFor]
  storable := usable.storable

/-! ## Caches that are right about sources -/

/-- Every unit that a source finds is the compiler's answer for it. -/
structure Cache.Sound (c : FixedCompiler) (options : CompilerOptions) (sources : List String)
    (s : Cache c.σ) : Prop where
  same : s.options = options
  held : ∀ source ∈ sources, ∀ h, s.get? (.derive source options) = some h →
    Call.direct ⟨c, ⟨source, options⟩⟩ = .ok (.ok h.unit)
  build : ∀ b, s.build = some b → b = c.build
  store : ∀ store, s.store = some store → store.Usable c options sources

namespace Cache

variable {c : FixedCompiler} {options : CompilerOptions} {sources : List String} {s : Cache c.σ}

/-- A new cache holds nothing, so it is right if its store is. -/
theorem sound_fresh {store : Option Store}
    (usable : ∀ s, store = some s → s.Usable c options sources) (state : c.σ) (nextId : Nat)
    (accesses : List Access) :
    (fresh options state store nextId accesses).Sound c options sources where
  same := rfl
  held := by simp [fresh, get?]
  build := by simp [fresh]
  store := usable

namespace Sound

theorem reset (sound : s.Sound c options sources) : s.reset.Sound c options sources :=
  ⟨sound.same, by simp [Cache.reset, get?], sound.build, sound.store⟩

/-- Asking for the build keeps the cache right, and if there is a store the build is known. -/
theorem askBuild (sound : s.Sound c options sources) :
    ∃ known s', s.askBuild c.compiler = (known, s') ∧ s'.Sound c options sources ∧
      ∀ store, s'.store = some store → known = c.build := by
  cases hstore : s.store with
  | none =>
    refine ⟨none, s, by simp [Cache.askBuild, hstore], sound, ?_⟩
    simp [hstore]
  | some store =>
    obtain ⟨s', asked, same, held, hstore', build⟩ := askBuild_spec c hstore sound.build
    refine ⟨_, s', asked, ⟨same.trans sound.same, ?_, ?_, ?_⟩, fun _ _ => rfl⟩
    · simp only [get?, held]
      exact sound.held
    · rintro b hb
      rw [build, Option.some.injEq] at hb
      exact hb.symm
    · rw [hstore', ← hstore]
      exact sound.store

theorem nextAccess (sound : s.Sound c options sources) :
    ∃ access s', s.nextAccess = (access, s') ∧ s'.Sound c options sources ∧ s'.store = s.store :=
  ⟨_, _, rfl, ⟨sound.same, sound.held, sound.build, sound.store⟩, rfl⟩

variable {source : String} {unit : CompiledUnit}

/-- Holding the compiler's answer for a source says nothing wrong about another. -/
theorem hold (distinguished : Distinguished options sources) (sound : s.Sound c options sources)
    (mem : source ∈ sources) (direct : Call.direct ⟨c, ⟨source, options⟩⟩ = .ok (.ok unit)) :
    (s.hold (.derive source options) unit).2.Sound c options sources := by
  refine ⟨sound.same, ?_, sound.build, sound.store⟩
  intro other hother h found
  have lookup : (if ContentKey.derive source options = .derive other options
      then some ⟨s.nextId, unit⟩ else s.get? (.derive other options)) = some h :=
    (get?_cons ..).symm.trans found
  split at lookup
  · rename_i same
    obtain rfl := distinguished.eq_of_key mem hother same
    rw [← Option.some.inj lookup]
    exact direct
  · exact sound.held other hother h lookup

/-- Storing it does not either, and a write that fails changes nothing. -/
theorem persist (distinguished : Distinguished options sources) (sound : s.Sound c options sources)
    (mem : source ∈ sources) (direct : Call.direct ⟨c, ⟨source, options⟩⟩ = .ok (.ok unit))
    {known : Option String} (identified : ∀ store, s.store = some store → known = c.build)
    (access : Access) :
    (s.persist access known (.derive source options) unit).Sound c options sources := by
  cases hstore : s.store with
  | none =>
    have same : s.persist access known (.derive source options) unit = s := by
      simp [Cache.persist, hstore]
    rwa [same]
  | some store =>
    rw [persist_eq hstore, identified store hstore]
    have usable := sound.store store hstore
    refine ⟨sound.same, sound.held, sound.build, ?_⟩
    rintro _ ⟨⟩
    refine ⟨?_, usable.storable⟩
    exact usable.sound.putFor (distinguished.cacheable usable) (List.mem_map_of_mem mem) direct
      access

/-- The compiler's answer is the direct one, and the cache stays right whether or not it could be
stored. -/
theorem invoke (distinguished : Distinguished options sources) (sound : s.Sound c options sources)
    (mem : source ∈ sources) {known : Option String}
    (identified : ∀ store, s.store = some store → known = c.build) (access : Access) :
    ∃ answer s', s.invoke c.compiler access known (.derive source options) source = (answer, s') ∧
      answer.map Compilation.result = Call.direct ⟨c, ⟨source, options⟩⟩ ∧
      s'.Sound c options sources := by
  rcases hc : c.compiler.compile ⟨source, s.options⟩ s.compiler with ⟨reply, state⟩
  have hreply : c.answer ⟨source, options⟩ = reply := by
    rw [← c.compile_eq _ s.compiler, ← sound.same, hc]
  let asked : Cache c.σ := { s with compiler := state, invocations := s.invocations + 1 }
  have later : asked.Sound c options sources := ⟨sound.same, sound.held, sound.build, sound.store⟩
  simp only [Cache.invoke, hc]
  cases reply with
  | error e => exact ⟨_, asked, rfl, by simp [Call.direct, hreply, Except.map], later⟩
  | ok response =>
    have direct : Call.direct ⟨c, ⟨source, options⟩⟩ =
        .ok (normalize (ContentKey.derive source options).hex response) := by
      simp [Call.direct, hreply, Except.map, Call.key]
    cases hn : normalize (ContentKey.derive source options).hex response with
    | error diagnostics =>
      simp only [hn]
      exact ⟨_, asked, rfl, by rw [direct, hn]; rfl, later⟩
    | ok unit =>
      rw [hn] at direct
      have persisted := later.persist distinguished mem direct identified access
      simp only [hn]
      exact ⟨_, _, rfl, direct.symm, persisted.hold distinguished mem direct⟩

/-- A cache answers as the compiler does, whatever it was used for before. -/
theorem compile (distinguished : Distinguished options sources) (sound : s.Sound c options sources)
    (mem : source ∈ sources) :
    ∃ answer s', s.compile c.compiler source = (answer, s') ∧
      answer.map Compilation.result = Call.direct ⟨c, ⟨source, options⟩⟩ ∧
      s'.Sound c options sources := by
  have key : s.keyOf source = .derive source options := by rw [keyOf, sound.same]
  cases missing : s.get? (.derive source options) with
  | some h =>
    exact ⟨_, s, compile_of_get? (by rwa [key]) c.compiler, (sound.held source mem h missing).symm,
      sound⟩
  | none =>
    obtain ⟨known, asked, hasked, later, identified⟩ := sound.askBuild
    obtain ⟨access, s', next, later, same⟩ := later.nextAccess
    rw [← same] at identified
    simp only [Cache.compile, key, missing, hasked, next]
    cases found : s'.stored? access known (.derive source options) with
    | some unit =>
      obtain ⟨store, there⟩ := Option.isSome_iff_exists.1 (stored?_cases found).1
      obtain ⟨build, hknown, row⟩ := exists_of_stored? there found
      have direct := (later.store store there).sound _ (List.mem_map_of_mem mem) build
        ((identified store there).symm.trans hknown) unit row
      exact ⟨_, _, rfl, direct.symm, later.hold distinguished mem direct⟩
    | none => exact later.invoke distinguished mem identified access

end Sound

end Cache

/-! ## Analysis with a cache -/

/-- The outcome without the occasion of the unit. -/
def Outcome.undated : Outcome → Outcome
  | compiled held => compiled ⟨0, held.unit⟩
  | outcome => outcome

def SiteAnalysis.undated (s : SiteAnalysis) : SiteAnalysis := ⟨s.site, s.outcome.undated⟩

def Analysis.undated (a : Analysis) : Analysis :=
  { a with sites := a.sites.map SiteAnalysis.undated }

/-- What a site declares does not depend on the occasion of its unit. -/
theorem SiteAnalysis.declaration?_undated (file : Path) (s : SiteAnalysis) :
    s.undated.declaration? file = s.declaration? file := by
  obtain ⟨site, outcome⟩ := s
  cases outcome <;> rfl

/-- Declarations do not tell when a unit was made. -/
theorem declarationsOf_undated (analyses : List Analysis) :
    declarationsOf (analyses.map Analysis.undated) = declarationsOf analyses := by
  simp only [declarationsOf, List.flatMap_map, Analysis.undated, List.filterMap_map,
    Function.comp_def, SiteAnalysis.declaration?_undated]

theorem toOption_mapError {α ε ε' : Type} (f : ε → ε') (result : Except ε α) :
    (result.mapError f).toOption = result.toOption := by
  cases result <;> rfl

theorem analyzePath_of_readText {σ : Type} {t : FileTree} {path : Path} {text : String}
    (read : t.readText path = .ok text) (c : Compiler σ) (marker : String) (s : Cache σ)
    (parse : Host.Parser) :
    analyzePath c marker t path s parse =
      ((analyze c marker path text s parse).1.mapError .unsupported,
        (analyze c marker path text s parse).2) := by
  rw [analyzePath, read]
  rfl

section

variable {c : FixedCompiler} {config : Config} {sources : List String} {s : Cache c.σ}
  (distinguished : Distinguished config.compilerOptions sources)
  (sound : s.Sound c config.compilerOptions sources)

include distinguished sound

/-- A site compiled through the cache has the outcome of asking the compiler, up to the occasion of
the unit. -/
theorem compileSite_sound {site : Site} (mem : ∀ source, site.source = some source →
      source ∈ sources) :
    (compileSite c.compiler s site).1.undated = directOutcome c config site ∧
      (compileSite c.compiler s site).2.Sound c config.compilerOptions sources := by
  unfold compileSite directOutcome
  cases written : site.source with
  | none => exact ⟨rfl, sound⟩
  | some source =>
    obtain ⟨answer, s', compiled, direct, later⟩ := sound.compile distinguished (mem source written)
    simp only [compiled, ← direct]
    rcases answer with e | held | diagnostics
    · exact ⟨rfl, later⟩
    · exact ⟨rfl, later⟩
    · exact ⟨rfl, later⟩

/-- The same of sites in order, by induction with the cache right before each. -/
theorem compileSites_sound {sites : List Site}
    (mem : ∀ source ∈ sites.filterMap Site.source, source ∈ sources) :
    (compileSites c.compiler s sites).1.map SiteAnalysis.undated =
        sites.map (fun site => ⟨site, directOutcome c config site⟩) ∧
      (compileSites c.compiler s sites).2.Sound c config.compilerOptions sources := by
  induction sites generalizing s with
  | nil => exact ⟨rfl, sound⟩
  | cons site rest ih =>
    have here (source : String) (written : site.source = some source) : source ∈ sources :=
      mem source (List.mem_filterMap.2 ⟨site, by simp, written⟩)
    obtain ⟨outcome, sound⟩ := compileSite_sound distinguished sound here
    obtain ⟨more, sound⟩ := ih sound fun source h => mem source (by
      obtain ⟨other, hother, written⟩ := List.mem_filterMap.1 h
      exact List.mem_filterMap.2 ⟨other, by simp [hother], written⟩)
    refine ⟨?_, sound⟩
    simp only [compileSites, List.map_cons, SiteAnalysis.undated, outcome]
    exact congrArg _ more

/-- A text is analyzed through the cache as if the compiler were asked for each of its sites. -/
theorem analyze_sound (frontend : Frontend) {path : Path} {text : String}
    (mem : ∀ source ∈ sourcesIn frontend config path text, source ∈ sources) :
    (analyze c.compiler config.marker path text s frontend.parse).1.toOption.map Analysis.undated =
        directAnalysis? frontend c config path text ∧
      (analyze c.compiler config.marker path text s frontend.parse).2.Sound c
        config.compilerOptions sources := by
  unfold analyze directAnalysis?
  cases supported : Host.Language.ofPath? path with
  | none => exact ⟨rfl, sound⟩
  | some language =>
    rw [sourcesIn, supported] at mem
    obtain ⟨sites, sound⟩ := compileSites_sound distinguished sound mem
    refine ⟨?_, sound⟩
    simp only [Except.toOption, Option.map_some, Analysis.undated]
    rw [← sites]
    rfl

theorem analyzePath_sound (frontend : Frontend) {t : FileTree} {path : Path}
    (mem : ∀ source ∈ sourcesAt frontend config t [path], source ∈ sources) :
    (analyzePath c.compiler config.marker t path s frontend.parse).1.toOption.map Analysis.undated =
        (t.readText path).toOption.bind (directAnalysis? frontend c config path) ∧
      (analyzePath c.compiler config.marker t path s frontend.parse).2.Sound c
        config.compilerOptions sources := by
  cases read : t.readText path with
  | error e =>
    rw [analyzePath, read]
    exact ⟨rfl, sound⟩
  | ok text =>
    simp only [sourcesAt, List.flatMap_cons, List.flatMap_nil, List.append_nil, read] at mem
    rw [analyzePath_of_readText read, toOption_mapError]
    exact analyze_sound distinguished sound frontend mem

/-- So are files, each of them with the cache that the others left. -/
theorem analyzeFiles_sound (frontend : Frontend) {t : FileTree} {files : List Path}
    (mem : ∀ source ∈ sourcesAt frontend config t files, source ∈ sources) :
    ((analyzeFiles c.compiler config.marker t files s frontend.parse).1.filterMap
        Except.toOption).map Analysis.undated = directAnalyses frontend c config t files ∧
      (analyzeFiles c.compiler config.marker t files s frontend.parse).2.Sound c
        config.compilerOptions sources := by
  induction files generalizing s with
  | nil => exact ⟨rfl, sound⟩
  | cons path rest ih =>
    have split : sourcesAt frontend config t (path :: rest) =
        sourcesAt frontend config t [path] ++ sourcesAt frontend config t rest := by
      simp [sourcesAt]
    simp only [split, List.mem_append] at mem
    obtain ⟨first, sound⟩ := analyzePath_sound distinguished sound frontend fun source h =>
      mem source (.inl h)
    obtain ⟨more, sound⟩ := ih sound fun source h => mem source (.inr h)
    refine ⟨?_, sound⟩
    simp only [analyzeFiles, directAnalyses, List.filterMap_cons, ← first]
    cases (analyzePath c.compiler config.marker t path s frontend.parse).1.toOption with
    | none => exact more
    | some a => exact congrArg (a.undated :: ·) more

/-- Through a cache the files of a project declare what they declare without one. -/
theorem declarations_analyzeReadable (frontend : Frontend) {t : FileTree} {files : List Path}
    (mem : ∀ source ∈ sourcesAt frontend config t files, source ∈ sources) :
    declarationsOf (analyzeReadable c.compiler config.marker t files s frontend.parse).1 =
        declarationsOf (directAnalyses frontend c config t files) ∧
      (analyzeReadable c.compiler config.marker t files s frontend.parse).2.Sound c
        config.compilerOptions sources := by
  obtain ⟨analyses, sound⟩ := analyzeFiles_sound distinguished sound frontend mem
  refine ⟨?_, sound⟩
  rw [← analyses, declarationsOf_undated]
  rfl

end

end SolidityInlay
