import SolidityInlay.Proofs.DirectAnalysis

/-!
# What a project in an editor shows

A project is used in any order while its files change in any way. What it shows as declarations
depends on nothing but the files: on those of the first call that succeeded since the project was
last made to forget, if the interval never passes, and on those of the moment, if there is no
interval. Calls that fail and analyses of buffers leave no trace in later declarations, although
both caches of the project are shared with them. This holds however files are found and parsed, and
whichever reads and writes of the store fail.

Main definitions: `LiveProject`, `LiveProject.run`, `LiveProject.origin`. Main statement:
`LiveProject.declarations_follow_files`.
-/

namespace SolidityInlay

/-! ## Projects and their files -/

structure LiveProject (σ : Type) where
  files : FileTree
  project : Project σ

namespace LiveProject

/-- What can happen. Calls for declarations come with their time. -/
inductive Action where
  /-- The files are changed to these. -/
  | edit (files : FileTree)
  | analyze (path : Path) (text : String)
  | declarations (now : Nat)
  | declarationText (now : Nat)
  | invalidate
  | beginPass

inductive Answer where
  | done
  | analyzed (result : Except UnsupportedFile Analysis)
  | declared (result : Except MissingPath Derived)
  | text (result : Except MissingPath (Option String))

structure Event where
  action : Action
  files : FileTree
  answer : Answer

variable {σ : Type} (frontend : Frontend)

def step (c : Compiler σ) (w : LiveProject σ) : Action → Answer × LiveProject σ
  | .edit files => (.done, { w with files })
  | .analyze path text =>
    let (result, project) := w.project.analyzeBuffer c path text frontend
    (.analyzed result, { w with project })
  | .declarations now =>
    let (result, project) := w.project.declarations c w.files now frontend
    (.declared result, { w with project })
  | .declarationText now =>
    let (result, project) := w.project.declarationText c w.files now frontend
    (.text result, { w with project })
  | .invalidate => (.done, { w with project := w.project.invalidate })
  | .beginPass => (.done, { w with project := w.project.beginPass })

def run (c : Compiler σ) (w : LiveProject σ) : List Action → List Event
  | [] => []
  | action :: rest =>
    let (answer, next) := w.step frontend c action
    ⟨action, w.files, answer⟩ :: next.run c rest

namespace Action

def isAnalyze : Action → Bool
  | analyze _ _ => true
  | _ => false

def forgets : Action → Bool
  | invalidate | beginPass => true
  | _ => false

def time? : Action → Option Nat
  | declarations now | declarationText now => some now
  | _ => none

def sources (config : Config) (root : Path) (files : FileTree) : Action → List String
  | analyze path text => sourcesIn frontend config path text
  | declarations _ | declarationText _ => sourcesOf frontend config root files
  | _ => []

def filesAfter (files : FileTree) : Action → FileTree
  | edit changed => changed
  | _ => files

end Action

def sourcesDuring (config : Config) (root : Path) : FileTree → List Action → List String
  | _, [] => []
  | files, action :: rest =>
    action.sources frontend config root files ++
      sourcesDuring config root (action.filesAfter files) rest

namespace Event

def succeeded (e : Event) : Bool :=
  match e.answer with
  | .declared (.ok _) | .text (.ok _) => true
  | _ => false

def failed (e : Event) : Bool :=
  match e.answer with
  | .declared (.error _) | .text (.error _) => true
  | _ => false

end Event

/-- The interval does not pass from any call to a later one. -/
def Unelapsed (interval : Nat) (actions : List Action) : Prop :=
  actions.Pairwise fun a b => ∀ before, a.time? = some before → ∀ now, b.time? = some now →
    now - before < interval

def sinceForgotten (past : List Event) : List Event :=
  (past.reverse.takeWhile fun e => !e.action.forgets).reverse

/-- The files that declarations are of: those of the first call that succeeded since the project was
last made to forget, or the given ones if there is none. -/
def origin (past : List Event) (files : FileTree) : FileTree :=
  (((sinceForgotten past).find? Event.succeeded).map Event.files).getD files

section

variable (c : FixedCompiler) (config : Config) (root : Path)

/-- A call answers with the declarations of some files. -/
def Event.DeclaresFiles (files : FileTree) (e : Event) : Prop :=
  (∀ result, e.answer = .declared result →
    result.map Derived.set = declaredIn frontend c config root files) ∧
  ∀ result, e.answer = .text result →
    result = (declaredIn frontend c config root files).map fun set =>
      set.render config.runtimeModule

/-- A call for the declarations gives the very ones that were given before. -/
def Event.Repeats (past : List Event) (e : Event) : Prop :=
  ∀ result, e.answer = .declared result → ∀ other ∈ sinceForgotten past, ∀ derived,
    other.answer = .declared (.ok derived) → result = .ok derived

end

theorem run_cons (c : Compiler σ) (w : LiveProject σ) (action : Action) (rest : List Action) :
    w.run frontend c (action :: rest) =
      ⟨action, w.files, (w.step frontend c action).1⟩ ::
        (w.step frontend c action).2.run frontend c rest := rfl

theorem sinceForgotten_concat (past : List Event) {e : Event} (h : e.action.forgets = false) :
    sinceForgotten (past ++ [e]) = sinceForgotten past ++ [e] := by
  simp [sinceForgotten, h]

theorem sinceForgotten_concat_forgets (past : List Event) {e : Event}
    (h : e.action.forgets = true) : sinceForgotten (past ++ [e]) = [] := by
  simp [sinceForgotten, h]

end LiveProject

/-! ## One call -/

namespace Project

variable {frontend : Frontend}

/-- A call that fails changes nothing. -/
theorem declarations_of_error {σ : Type} {c : Compiler σ} {p : Project σ} {t : FileTree} {now : Nat}
    {missing : MissingPath} (h : (p.declarations c t now frontend).1 = .error missing) :
    (p.declarations c t now frontend).2 = p := by
  unfold declarations derive at *
  split at h
  · simp at h
  · split at h
    · rfl
    · simp at h

/-- The ways in which a call for declarations ends: with those that were derived before, with
failure, or with new ones. -/
inductive Declares (frontend : Frontend) (c : FixedCompiler) (sources : List String)
    (p : Project c.σ) (t : FileTree) (now : Nat) : Except MissingPath Derived → Project c.σ → Prop
  | shown {derived : Derived} : p.current? now = some derived →
      Declares frontend c sources p t now (.ok derived) p
  | missing {path : MissingPath} : p.current? now = none →
      declaredIn frontend c p.config p.root t = .error path →
      Declares frontend c sources p t now (.error path) p
  | derived {set : DeclarationSet} {cache : Cache c.σ} : p.current? now = none →
      declaredIn frontend c p.config p.root t = .ok set →
      cache.Sound c p.config.compilerOptions sources →
      Declares frontend c sources p t now (.ok ⟨p.nextId, now, set⟩)
        { p with cache, derived := some ⟨p.nextId, now, set⟩, nextId := p.nextId + 1 }

/-- A call for the declarations ends in one of these ways. -/
theorem declares_declarations {c : FixedCompiler} {sources : List String} {p : Project c.σ}
    {t : FileTree} (distinguished : Distinguished p.config.compilerOptions sources)
    (sound : p.cache.Sound c p.config.compilerOptions sources)
    (mem : ∀ source ∈ sourcesOf frontend p.config p.root t, source ∈ sources) (now : Nat) :
    Declares frontend c sources p t now (p.declarations c.compiler t now frontend).1
      (p.declarations c.compiler t now frontend).2 := by
  cases shown : p.current? now with
  | some derived =>
    simp only [declarations, shown]
    exact .shown shown
  | none =>
    simp only [declarations, shown, derive]
    cases found : frontend.find t p.config p.root with
    | error path => exact .missing shown (by simp [declaredIn, found, Except.map])
    | ok files =>
      simp only [sourcesOf, found] at mem
      obtain ⟨same, later⟩ := declarations_analyzeReadable distinguished sound frontend mem
      simp only [same]
      exact .derived shown (by simp [declaredIn, found, Except.map]) later

/-- Declarations that are not too old stay current. -/
theorem current?_eq_derived {σ : Type} {p : Project σ} {now : Nat}
    (h : ∀ derived, p.derived = some derived → now - derived.time < p.config.refreshMs) :
    p.current? now = p.derived := by
  cases hd : p.derived with
  | none => simp [current?, hd]
  | some derived => simp [current?, hd, h derived hd]

theorem Declares.config_eq {c : FixedCompiler} {sources : List String} {p p' : Project c.σ}
    {t : FileTree} {now : Nat} {result : Except MissingPath Derived}
    (h : Declares frontend c sources p t now result p') : p'.config = p.config := by
  cases h <;> rfl

/-- A call ends alike whatever is in the cache. -/
theorem Declares.alike {c : FixedCompiler} {sources : List String} {p p' q q' : Project c.σ}
    {t : FileTree} {now : Nat} {result result' : Except MissingPath Derived}
    (h : Declares frontend c sources p t now result q)
    (h' : Declares frontend c sources p' t now result' q')
    (config : p'.config = p.config) (root : p'.root = p.root) (derived : p'.derived = p.derived)
    (nextId : p'.nextId = p.nextId) :
    result' = result ∧ q'.derived = q.derived ∧ q'.nextId = q.nextId := by
  have current : p'.current? now = p.current? now := by rw [current?, current?, derived, config]
  have declared :
      declaredIn frontend c p'.config p'.root t = declaredIn frontend c p.config p.root t := by
    rw [config, root]
  cases h with
  | shown shown =>
    cases h' with
    | shown shown' =>
      rw [current, shown] at shown'
      exact ⟨congrArg _ (Option.some.inj shown').symm, derived, nextId⟩
    | missing shown' => simp [current, shown] at shown'
    | derived shown' => simp [current, shown] at shown'
  | missing shown missing =>
    cases h' with
    | shown shown' => simp [current, shown] at shown'
    | missing _ missing' =>
      rw [declared, missing] at missing'
      exact ⟨congrArg _ (Except.error.inj missing').symm, derived, nextId⟩
    | derived _ set' => simp [declared, missing] at set'
  | derived shown set =>
    cases h' with
    | shown shown' => simp [current, shown] at shown'
    | missing _ missing' => simp [declared, set] at missing'
    | derived _ set' =>
      rw [declared, set] at set'
      obtain rfl := Except.ok.inj set'
      simp [nextId]

end Project

/-! ## One action -/

namespace LiveProject

variable {frontend : Frontend} {c : FixedCompiler} {config : Config} {root : Path}
  {sources : List String} {w w' : LiveProject c.σ} {action : Action} {answer : Answer}

/-- The settings of the project are these, and its cache is right about sources. -/
structure Sound (c : FixedCompiler) (config : Config) (root : Path) (sources : List String)
    (w : LiveProject c.σ) : Prop where
  config_eq : w.project.config = config
  root_eq : w.project.root = root
  cache : w.project.cache.Sound c config.compilerOptions sources

inductive Reports (config : Config) (now : Nat) (result : Except MissingPath Derived) :
    Action → Answer → Prop
  | set : Reports config now result (.declarations now) (.declared result)
  | text : Reports config now result (.declarationText now)
      (.text (result.map fun derived => derived.set.render config.runtimeModule))

inductive Steps (frontend : Frontend) (c : FixedCompiler) (config : Config) (root : Path)
    (sources : List String) (w : LiveProject c.σ) : Action → Answer → LiveProject c.σ → Prop
  | edit (files : FileTree) :
      Steps frontend c config root sources w (.edit files) .done { w with files }
  | analyze {path : Path} {text : String} {result : Except UnsupportedFile Analysis}
      {cache : Cache c.σ} : cache.Sound c config.compilerOptions sources →
      Steps frontend c config root sources w (.analyze path text) (.analyzed result)
        { w with project := { w.project with cache } }
  | call {now : Nat} {result : Except MissingPath Derived} {action : Action} {answer : Answer}
      {project : Project c.σ} : Reports config now result action answer →
      w.project.Declares frontend c sources w.files now result project →
      Steps frontend c config root sources w action answer { w with project }
  | forget {action : Action} {cache : Cache c.σ} : action.forgets = true →
      cache.Sound c config.compilerOptions sources →
      Steps frontend c config root sources w action .done
        { w with project := { w.project with cache, derived := none } }

/-- A sound project does with each action what is said of it. -/
theorem Sound.steps (distinguished : Distinguished config.compilerOptions sources)
    (sound : w.Sound c config root sources)
    (mem : ∀ source ∈ action.sources frontend config root w.files, source ∈ sources) :
    Steps frontend c config root sources w action (w.step frontend c.compiler action).1
      (w.step frontend c.compiler action).2 := by
  obtain ⟨rfl, rfl, cache⟩ := sound
  cases action with
  | edit files => exact .edit files
  | analyze path text => exact .analyze (analyze_sound distinguished cache frontend mem).2
  | declarations now =>
    exact .call .set (Project.declares_declarations distinguished cache mem now)
  | declarationText now =>
    have declares := Project.declares_declarations distinguished cache mem now
    simp only [step, Project.declarationText, declares.config_eq]
    exact .call .text declares
  | invalidate => exact .forget rfl cache
  | beginPass => exact .forget rfl cache.reset

/-- An action leaves the project sound. -/
theorem Steps.sound (steps : Steps frontend c config root sources w action answer w')
    (sound : w.Sound c config root sources) : w'.Sound c config root sources := by
  obtain ⟨rfl, rfl, cache⟩ := sound
  cases steps with
  | edit files => exact ⟨rfl, rfl, cache⟩
  | analyze later => exact ⟨rfl, rfl, later⟩
  | call _ declares =>
    cases declares with
    | shown => exact ⟨rfl, rfl, cache⟩
    | missing => exact ⟨rfl, rfl, cache⟩
    | derived _ _ later => exact ⟨rfl, rfl, later⟩
  | forget _ later => exact ⟨rfl, rfl, later⟩

theorem Steps.files (steps : Steps frontend c config root sources w action answer w') :
    w'.files = action.filesAfter w.files := by
  cases steps with
  | edit files => rfl
  | analyze _ => rfl
  | call reports _ => cases reports <;> rfl
  | forget forgets _ => cases action <;> simp_all [Action.forgets, Action.filesAfter]

/-- The first of some actions; its sources and those of the rest are known. -/
theorem Sound.steps_cons (distinguished : Distinguished config.compilerOptions sources)
    (sound : w.Sound c config root sources) {rest : List Action}
    (mem : ∀ source ∈ sourcesDuring frontend config root w.files (action :: rest),
      source ∈ sources) :
    Steps frontend c config root sources w action (w.step frontend c.compiler action).1
        (w.step frontend c.compiler action).2 ∧
      (w.step frontend c.compiler action).2.Sound c config root sources ∧
      ∀ source ∈
        sourcesDuring frontend config root (w.step frontend c.compiler action).2.files rest,
        source ∈ sources := by
  simp only [sourcesDuring, List.mem_append] at mem
  have taken := sound.steps distinguished fun source h => mem source (.inl h)
  refine ⟨taken, taken.sound sound, ?_⟩
  rw [taken.files]
  exact fun source h => mem source (.inr h)

/-! ## Calls -/

theorem Event.succeeded_of_declared {e : Event} {derived : Derived}
    (h : e.answer = .declared (.ok derived)) : e.succeeded = true := by
  simp [succeeded, h]

/-- If no call succeeded, none gave declarations. -/
theorem not_declared_of_find? {events : List Event} (h : events.find? Event.succeeded = none) :
    ∀ e ∈ events, ∀ derived, e.answer ≠ .declared (.ok derived) := by
  intro e he derived answered
  exact List.find?_eq_none.1 h e he (Event.succeeded_of_declared answered)

section

variable {now : Nat} {result : Except MissingPath Derived}

namespace Reports

theorem forgets (reports : Reports config now result action answer) : action.forgets = false := by
  cases reports <;> rfl

theorem time? (reports : Reports config now result action answer) : action.time? = some now := by
  cases reports <;> rfl

theorem succeeded (reports : Reports config now result action answer) (files : FileTree) :
    Event.succeeded ⟨action, files, answer⟩ = result.isOk := by
  cases reports <;> cases result <;> rfl

theorem result_eq (reports : Reports config now result action answer)
    {other : Except MissingPath Derived} (h : answer = .declared other) : other = result := by
  cases reports with
  | set => exact (Answer.declared.inj h).symm
  | text => cases h

/-- The answer to a call is that for the files whose declarations came of it. -/
theorem declaresFiles (reports : Reports config now result action answer) {files : FileTree}
    (h : result.map Derived.set = declaredIn frontend c config root files) (found : FileTree) :
    Event.DeclaresFiles frontend c config root files ⟨action, found, answer⟩ := by
  cases reports with
  | set =>
    refine ⟨?_, by simp⟩
    rintro _ ⟨⟩
    exact h
  | text =>
    refine ⟨by simp, ?_⟩
    rintro _ ⟨⟩
    rw [← h]
    cases result <;> rfl

end Reports

/-- Remembered declarations were remembered before or are of the time of this action. -/
theorem Steps.derived_cases (steps : Steps frontend c config root sources w action answer w')
    {derived : Derived} (h : w'.project.derived = some derived) :
    w.project.derived = some derived ∨ action.time? = some derived.time := by
  cases steps with
  | edit files => exact .inl h
  | analyze _ => exact .inl h
  | forget _ _ => cases h
  | call reports declares =>
    cases declares with
    | shown => exact .inl h
    | missing => exact .inl h
    | derived =>
      obtain rfl := Option.some.inj h
      exact .inr reports.time?

end

/-! ## While the interval does not pass -/

/-- What the project remembers is what the past says: nothing if no call succeeded since it was made
to forget, and otherwise the declarations of the files of the first such call, which every call
since has given. -/
structure Tracks (frontend : Frontend) (c : FixedCompiler) (config : Config) (root : Path)
    (past : List Event) (w : LiveProject c.σ) : Prop where
  nothing : (sinceForgotten past).find? Event.succeeded = none → w.project.derived = none
  first : ∀ e, (sinceForgotten past).find? Event.succeeded = some e →
    ∃ derived, w.project.derived = some derived ∧
      declaredIn frontend c config root e.files = .ok derived.set ∧
      ∀ other ∈ sinceForgotten past, ∀ d, other.answer = .declared (.ok d) → d = derived

namespace Tracks

variable {past : List Event} {e : Event}

/-- If nothing is remembered, no call succeeded since the project was made to forget. -/
theorem find?_of_none (tracks : Tracks frontend c config root past w)
    (h : w.project.derived = none) :
    (sinceForgotten past).find? Event.succeeded = none := by
  cases found : (sinceForgotten past).find? Event.succeeded with
  | none => rfl
  | some e =>
    obtain ⟨derived, remembered, -⟩ := tracks.first e found
    simp [h] at remembered

/-- What is remembered is that of the first call that succeeded since then. -/
theorem find?_of_some (tracks : Tracks frontend c config root past w) {derived : Derived}
    (h : w.project.derived = some derived) :
    ∃ e, (sinceForgotten past).find? Event.succeeded = some e ∧
      declaredIn frontend c config root e.files = .ok derived.set ∧
      ∀ other ∈ sinceForgotten past, ∀ d, other.answer = .declared (.ok d) → d = derived := by
  cases found : (sinceForgotten past).find? Event.succeeded with
  | none => simp [tracks.nothing found] at h
  | some e =>
    obtain ⟨d, remembered, declared, given⟩ := tracks.first e found
    obtain rfl : d = derived := by simpa [h] using remembered.symm
    exact ⟨e, rfl, declared, given⟩

/-- An event that leaves what is remembered, and gives nothing else. -/
theorem concat (tracks : Tracks frontend c config root past w) (stays : e.action.forgets = false)
    (same : w'.project.derived = w.project.derived)
    (given : e.succeeded = true → ∃ derived, w.project.derived = some derived ∧
      ∀ d, e.answer = .declared (.ok d) → d = derived) :
    Tracks frontend c config root (past ++ [e]) w' := by
  have since := sinceForgotten_concat past stays
  cases remembered : w.project.derived with
  | none =>
    have unsuccessful : e.succeeded = false := by
      cases h : e.succeeded with
      | false => rfl
      | true =>
        obtain ⟨derived, there, -⟩ := given h
        simp [remembered] at there
    have found : (sinceForgotten (past ++ [e])).find? Event.succeeded = none := by
      simp [since, tracks.find?_of_none remembered, unsuccessful]
    exact ⟨fun _ => same.trans remembered, by simp [found]⟩
  | some derived =>
    obtain ⟨first, hfirst, declared, before⟩ := tracks.find?_of_some remembered
    have found : (sinceForgotten (past ++ [e])).find? Event.succeeded = some first := by
      simp [since, hfirst]
    refine ⟨by simp [found], ?_⟩
    rintro _ h
    obtain rfl : first = _ := Option.some.inj (found.symm.trans h)
    refine ⟨derived, same.trans remembered, declared, ?_⟩
    intro other hother d answered
    rw [since, List.mem_append, List.mem_singleton] at hother
    rcases hother with hother | rfl
    · exact before other hother d answered
    · obtain ⟨derived', there, here⟩ := given (Event.succeeded_of_declared answered)
      rw [here d answered, ← Option.some.inj (remembered.symm.trans there)]

/-- The first call that succeeds. -/
theorem concat_first (tracks : Tracks frontend c config root past w)
    (forgotten : w.project.derived = none)
    (stays : e.action.forgets = false) (succeeded : e.succeeded = true) {derived : Derived}
    (remembered : w'.project.derived = some derived)
    (declared : declaredIn frontend c config root e.files = .ok derived.set)
    (given : ∀ d, e.answer = .declared (.ok d) → d = derived) :
    Tracks frontend c config root (past ++ [e]) w' := by
  have since := sinceForgotten_concat past stays
  have none_before := tracks.find?_of_none forgotten
  have found : (sinceForgotten (past ++ [e])).find? Event.succeeded = some e := by
    simp [since, none_before, succeeded]
  refine ⟨by simp [found], ?_⟩
  rintro _ h
  obtain rfl : e = _ := Option.some.inj (found.symm.trans h)
  refine ⟨derived, remembered, declared, ?_⟩
  intro other hother d answered
  rw [since, List.mem_append, List.mem_singleton] at hother
  rcases hother with hother | rfl
  · exact absurd answered (not_declared_of_find? none_before other hother d)
  · exact given d answered

/-- A project that was made to forget remembers nothing, as the past says. -/
theorem concat_forgets (forgets : e.action.forgets = true) (forgotten : w'.project.derived = none) :
    Tracks frontend c config root (past ++ [e]) w' :=
  ⟨fun _ => forgotten, by simp [sinceForgotten_concat_forgets past forgets]⟩

/-- A call before the interval has passed. -/
theorem call (tracks : Tracks frontend c config root past w) (sound : w.Sound c config root sources)
    {now : Nat} {result : Except MissingPath Derived} {project : Project c.σ}
    (unelapsed : ∀ derived, w.project.derived = some derived →
      now - derived.time < config.refreshMs)
    (reports : Reports config now result action answer)
    (declares : w.project.Declares frontend c sources w.files now result project) :
    result.map Derived.set = declaredIn frontend c config root (origin past w.files) ∧
      (∀ other ∈ sinceForgotten past, ∀ d, other.answer = .declared (.ok d) → result = .ok d) ∧
      Tracks frontend c config root (past ++ [⟨action, w.files, answer⟩]) { w with project } := by
  obtain ⟨rfl, rfl, -⟩ := sound
  have current := Project.current?_eq_derived unelapsed
  have succeeded := reports.succeeded w.files
  cases declares with
  | @shown derived shown =>
    have remembered : w.project.derived = some derived := current.symm.trans shown
    obtain ⟨first, found, declared, given⟩ := tracks.find?_of_some remembered
    refine ⟨?_, ?_, tracks.concat reports.forgets rfl fun _ => ⟨derived, remembered, ?_⟩⟩
    · rw [origin, found]
      exact declared.symm
    · intro other hother d answered
      rw [given other hother d answered]
    · intro d answered
      exact Except.ok.inj (reports.result_eq answered)
  | missing shown missing =>
    have forgotten : w.project.derived = none := current.symm.trans shown
    have found := tracks.find?_of_none forgotten
    refine ⟨?_, ?_, tracks.concat reports.forgets rfl ?_⟩
    · rw [origin, found]
      exact missing.symm
    · intro other hother d answered
      exact absurd answered (not_declared_of_find? found other hother d)
    · simp [succeeded, Except.isOk, Except.toBool]
  | derived shown declared _ =>
    have forgotten : w.project.derived = none := current.symm.trans shown
    have found := tracks.find?_of_none forgotten
    refine ⟨?_, ?_, tracks.concat_first forgotten reports.forgets succeeded rfl declared ?_⟩
    · rw [origin, found]
      exact declared.symm
    · intro other hother d answered
      exact absurd answered (not_declared_of_find? found other hother d)
    · intro d answered
      exact Except.ok.inj (reports.result_eq answered)

/-- An action before the interval has passed. -/
theorem steps (tracks : Tracks frontend c config root past w)
    (sound : w.Sound c config root sources)
    (unelapsed : ∀ now, action.time? = some now → ∀ derived,
      w.project.derived = some derived → now - derived.time < config.refreshMs)
    (steps : Steps frontend c config root sources w action answer w') :
    Event.DeclaresFiles frontend c config root (origin past w.files) ⟨action, w.files, answer⟩ ∧
      Event.Repeats past ⟨action, w.files, answer⟩ ∧
      Tracks frontend c config root (past ++ [⟨action, w.files, answer⟩]) w' := by
  cases steps with
  | edit files =>
    exact ⟨⟨by simp, by simp⟩, by simp [Event.Repeats],
      tracks.concat rfl rfl (by simp [Event.succeeded])⟩
  | analyze _ =>
    exact ⟨⟨by simp, by simp⟩, by simp [Event.Repeats],
      tracks.concat rfl rfl (by simp [Event.succeeded])⟩
  | forget forgets _ =>
    exact ⟨⟨by simp, by simp⟩, by simp [Event.Repeats], concat_forgets forgets rfl⟩
  | call reports declares =>
    obtain ⟨shows, same, later⟩ :=
      tracks.call sound (unelapsed _ reports.time?) reports declares
    refine ⟨reports.declaresFiles shows w.files, ?_, later⟩
    intro other answered
    rw [reports.result_eq answered]
    exact same

end Tracks

/-- The events of actions that start where the past left the project. -/
theorem Tracks.run (distinguished : Distinguished config.compilerOptions sources)
    {actions : List Action} {past : List Event} (tracks : Tracks frontend c config root past w)
    (sound : w.Sound c config root sources)
    (mem : ∀ source ∈ sourcesDuring frontend config root w.files actions, source ∈ sources)
    (ahead : ∀ derived, w.project.derived = some derived → ∀ a ∈ actions, ∀ now,
      a.time? = some now → now - derived.time < config.refreshMs)
    (unelapsed : Unelapsed config.refreshMs actions) {earlier later : List Event} {e : Event}
    (split : w.run frontend c.compiler actions = earlier ++ e :: later) :
    e.DeclaresFiles frontend c config root (origin (past ++ earlier) e.files) ∧
      e.Repeats (past ++ earlier) := by
  induction actions generalizing past w earlier with
  | nil => simp [LiveProject.run] at split
  | cons action rest ih =>
    obtain ⟨taken, later_sound, later_mem⟩ := sound.steps_cons distinguished mem
    obtain ⟨shows, repeats, tracked⟩ := tracks.steps sound
      (fun now timed derived h => ahead derived h action (by simp) now timed) taken
    obtain ⟨apart, unelapsed⟩ := List.pairwise_cons.1 unelapsed
    rw [run_cons] at split
    cases earlier with
    | nil =>
      obtain ⟨rfl, -⟩ := List.cons.inj split
      rw [List.append_nil]
      exact ⟨shows, repeats⟩
    | cons first earlier =>
      obtain ⟨rfl, tail⟩ := List.cons.inj split
      rw [List.append_cons]
      refine ih tracked later_sound later_mem ?_ unelapsed tail
      intro derived h a ha now timed
      rcases taken.derived_cases h with old | new
      · exact ahead derived old a (by simp [ha]) now timed
      · exact apart a ha derived.time new now timed

/-! ## Without an interval -/

/-- If there is no interval, a call shows the files of the moment. -/
theorem Steps.declaresFiles (steps : Steps frontend c config root sources w action answer w')
    (sound : w.Sound c config root sources) (always : config.refreshMs = 0) :
    Event.DeclaresFiles frontend c config root w.files ⟨action, w.files, answer⟩ := by
  obtain ⟨rfl, rfl, -⟩ := sound
  cases steps with
  | edit files => exact ⟨by simp, by simp⟩
  | analyze _ => exact ⟨by simp, by simp⟩
  | forget _ _ => exact ⟨by simp, by simp⟩
  | call reports declares =>
    refine reports.declaresFiles ?_ w.files
    cases declares with
    | shown shown => simp [Project.current?, always] at shown
    | missing _ missing => exact missing.symm
    | derived _ declared _ => exact declared.symm

/-- If nothing stays current, every call answers for the files as they are. -/
theorem Sound.declaresFiles_run (distinguished : Distinguished config.compilerOptions sources)
    {actions : List Action} (sound : w.Sound c config root sources)
    (mem : ∀ source ∈ sourcesDuring frontend config root w.files actions, source ∈ sources)
    (always : config.refreshMs = 0) :
    ∀ e ∈ w.run frontend c.compiler actions, e.DeclaresFiles frontend c config root e.files := by
  induction actions generalizing w with
  | nil => simp [LiveProject.run]
  | cons action rest ih =>
    obtain ⟨taken, later_sound, later_mem⟩ := sound.steps_cons distinguished mem
    intro e he
    rw [run_cons, List.mem_cons] at he
    rcases he with rfl | he
    · exact taken.declaresFiles sound always
    · exact ih later_sound later_mem e he

/-! ## Failures -/

/-- A call that failed leaves everything as it was. -/
theorem step_of_failed {σ : Type} {c : Compiler σ} {w : LiveProject σ} {action : Action}
    {files : FileTree}
    (failed : Event.failed ⟨action, files, (w.step frontend c action).1⟩ = true) :
    (w.step frontend c action).2 = w := by
  cases action with
  | edit | analyze | invalidate | beginPass => simp [Event.failed, step] at failed
  | declarations now =>
    cases h : (w.project.declarations c w.files now frontend).1 with
    | ok derived => simp [Event.failed, step, h] at failed
    | error missing =>
      simp only [step]
      rw [Project.declarations_of_error h]
  | declarationText now =>
    cases h : (w.project.declarations c w.files now frontend).1 with
    | ok derived => simp [Event.failed, step, Project.declarationText, h, Except.map] at failed
    | error missing =>
      simp only [step, Project.declarationText]
      rw [Project.declarations_of_error h]

/-- A call that fails leaves no trace: without it, every other event is the same. -/
theorem eraseIdx_run {σ : Type} {c : Compiler σ} {w : LiveProject σ} {before after : List Action}
    {action : Action} {e : Event}
    (here : (w.run frontend c (before ++ action :: after))[before.length]? = some e)
    (failed : e.failed = true) :
    (w.run frontend c (before ++ action :: after)).eraseIdx before.length =
      w.run frontend c (before ++ after) := by
  induction before generalizing w with
  | nil =>
    simp only [List.nil_append, run_cons, List.length_nil, List.getElem?_cons_zero,
      Option.some.injEq] at here
    subst here
    rw [List.nil_append, run_cons, List.length_nil, List.eraseIdx_zero, List.tail_cons,
      step_of_failed failed, List.nil_append]
  | cons first before ih =>
    simp only [List.cons_append, run_cons, List.length_cons, List.getElem?_cons_succ] at here
    rw [List.cons_append, run_cons, List.length_cons, List.eraseIdx_cons_succ, ih here,
      List.cons_append, run_cons]

/-! ## Buffers -/

/-- Two states that differ at most in their caches. -/
structure Alike {σ : Type} (w w' : LiveProject σ) : Prop where
  files : w'.files = w.files
  derived : w'.project.derived = w.project.derived
  nextId : w'.project.nextId = w.project.nextId

/-- Whatever the caches are, an action other than an analysis has the same answer. -/
theorem Alike.steps {v v' : LiveProject c.σ} {answer' : Answer} (alike : Alike w v)
    (sound : w.Sound c config root sources) (sound' : v.Sound c config root sources)
    (steps : Steps frontend c config root sources w action answer w')
    (steps' : Steps frontend c config root sources v action answer' v')
    (lasting : action.isAnalyze = false) : answer' = answer ∧ Alike w' v' := by
  cases steps with
  | analyze _ => cases lasting
  | edit files =>
    cases steps' with
    | edit => exact ⟨rfl, rfl, alike.derived, alike.nextId⟩
    | call reports _ => cases reports
    | forget forgets _ => cases forgets
  | forget forgets _ =>
    cases steps' with
    | edit | analyze => cases forgets
    | call reports _ => simp [reports.forgets] at forgets
    | forget => exact ⟨rfl, alike.files, rfl, alike.nextId⟩
  | @call now result _ _ _ reports declares =>
    cases steps' with
    | edit => cases reports
    | analyze => cases lasting
    | forget forgets _ => simp [reports.forgets] at forgets
    | @call now' result' _ _ _ reports' declares' =>
      obtain rfl : now' = now := by simpa [reports.time?] using reports'.time?.symm
      rw [alike.files] at declares'
      obtain ⟨rfl, derived, nextId⟩ := declares.alike declares'
        (sound'.config_eq.trans sound.config_eq.symm) (sound'.root_eq.trans sound.root_eq.symm)
        alike.derived alike.nextId
      refine ⟨?_, alike.files, derived, nextId⟩
      cases reports <;> cases reports' <;> rfl

/-- The events other than analyses are those of the actions without the analyses. -/
theorem filter_run (distinguished : Distinguished config.compilerOptions sources)
    {actions : List Action} {v : LiveProject c.σ} (alike : Alike w v)
    (sound : w.Sound c config root sources) (sound' : v.Sound c config root sources)
    (mem : ∀ source ∈ sourcesDuring frontend config root w.files actions, source ∈ sources) :
    (w.run frontend c.compiler actions).filter (fun e => !e.action.isAnalyze) =
      v.run frontend c.compiler (actions.filter fun a => !a.isAnalyze) := by
  induction actions generalizing w v with
  | nil => rfl
  | cons action rest ih =>
    obtain ⟨taken, later_sound, later_mem⟩ := sound.steps_cons distinguished mem
    cases kind : action.isAnalyze with
    | true =>
      have unchanged : Alike (w.step frontend c.compiler action).2 v := by
        cases action with
        | analyze => exact ⟨alike.files, alike.derived, alike.nextId⟩
        | _ => cases kind
      rw [run_cons, List.filter_cons_of_neg (by simp [kind]),
        List.filter_cons_of_neg (by simp [kind])]
      exact ih unchanged later_sound sound' later_mem
    | false =>
      have taken' := (sound'.steps_cons distinguished (alike.files ▸ mem)).1
      obtain ⟨same, next⟩ := alike.steps sound sound' taken taken' kind
      rw [run_cons, List.filter_cons_of_pos (by simp [kind]),
        List.filter_cons_of_pos (by simp [kind]), run_cons, same, alike.files,
        ih next later_sound (taken'.sound sound') later_mem]

/-! ## The contract -/

/-- However a project is used and its files are changed, found and parsed, with or without a store
and whichever uses of it fail:

* while the interval does not pass, a call answers for the files of the first call that succeeded
  since the project was last made to forget, itself included, and gives the very same declarations
  as the calls since;
* without an interval, a call answers for the files as they are;
* without a call that failed, everything else is the same;
* without the analyses of buffers, everything else is the same. -/
theorem declarations_follow_files (frontend : Frontend) (c : FixedCompiler) (config : Config)
    (root : Path) (state : c.σ) (store : Option Store) (accesses : List Access) (files : FileTree)
    (actions : List Action)
    (distinguished : Distinguished config.compilerOptions
      (sourcesDuring frontend config root files actions))
    (usable : ∀ s, store = some s →
      s.Usable c config.compilerOptions (sourcesDuring frontend config root files actions)) :
    let start : LiveProject c.σ := ⟨files, .fresh root config state store accesses⟩
    let events := start.run frontend c.compiler actions
    (Unelapsed config.refreshMs actions → ∀ earlier e later, events = earlier ++ e :: later →
      e.DeclaresFiles frontend c config root (origin earlier e.files) ∧ e.Repeats earlier) ∧
    (config.refreshMs = 0 → ∀ e ∈ events, e.DeclaresFiles frontend c config root e.files) ∧
    (∀ before action after e, actions = before ++ action :: after →
      events[before.length]? = some e → e.failed = true →
      events.eraseIdx before.length = start.run frontend c.compiler (before ++ after)) ∧
    events.filter (fun e => !e.action.isAnalyze) =
      start.run frontend c.compiler (actions.filter fun a => !a.isAnalyze) := by
  intro start events
  have sound : start.Sound c config root (sourcesDuring frontend config root files actions) :=
    ⟨rfl, rfl, Cache.sound_fresh usable state 0 accesses⟩
  have unused : Tracks frontend c config root [] start := ⟨fun _ => rfl, by simp [sinceForgotten]⟩
  refine ⟨?_, ?_, ?_, ?_⟩
  · intro unelapsed earlier e later split
    exact unused.run distinguished sound (fun _ h => h) (by simp [start, Project.fresh]) unelapsed
      split
  · exact sound.declaresFiles_run distinguished fun _ h => h
  · rintro before action after e rfl here failed
    exact eraseIdx_run here failed
  · exact filter_run distinguished ⟨rfl, rfl, rfl⟩ sound sound fun _ h => h

/-- A project of one file; a copy of it is ignored. -/
def counterFiles : FileTree :=
  ⟨[(["app"], .directory), (["app", ".gitignore"], .file (Bytes.ofString "build/\n")),
    (["app", "build"], .directory), (["app", "build", "counter.ts"], .file counterText),
    (["app", "counter.ts"], .file counterText)], []⟩
where
  counterText : Bytes := Bytes.ofString "sol(\"Counter\")\x60contract Counter \x7b\x7d\x60"

def counterBuffer : String := "sol\x60contract Counter \x7b\x7d\x60"

def noFiles : FileTree := ⟨[], []⟩

def counterRoot : Path := ⟨"/app"⟩

/-- A project whose store cannot be written at first, and not be read afterwards. -/
def counterProject : LiveProject counterCompiler.σ :=
  ⟨noFiles, .fresh counterRoot {} () (some .empty) [⟨true, false⟩, ⟨false, true⟩]⟩

/-- The project is asked too early, made, edited in a buffer and deleted; it is asked again before
and after it was made to forget; at last it is restored and analyzed anew. -/
def counterCalls : List Action :=
  [.declarations 0, .edit counterFiles, .declarations 100,
    .analyze ⟨"/app/counter.ts"⟩ counterBuffer, .edit noFiles, .declarations 900, .invalidate,
    .declarationText 950, .edit counterFiles, .beginPass, .declarations 990]

theorem find_counterFiles :
    findHostFiles counterFiles {} counterRoot = .ok [⟨"/app/counter.ts"⟩] := by
  have found : (findHostFiles counterFiles {} counterRoot).toOption =
      some [⟨"/app/counter.ts"⟩] := by decide +kernel
  cases h : findHostFiles counterFiles {} counterRoot with
  | error missing => simp [h, Except.toOption] at found
  | ok files => simpa [h, Except.toOption] using found

theorem find_noFiles : findHostFiles noFiles {} counterRoot = .error ⟨counterRoot⟩ := rfl

theorem sourcesOf_counterFiles :
    sourcesOf {} {} counterRoot counterFiles = ["contract Counter \x7b\x7d"] := by
  have found : Frontend.find {} counterFiles {} counterRoot = .ok [⟨"/app/counter.ts"⟩] :=
    find_counterFiles
  rw [sourcesOf, found]
  decide +kernel

theorem sourcesIn_counterBuffer :
    sourcesIn {} {} ⟨"/app/counter.ts"⟩ counterBuffer = ["contract Counter \x7b\x7d"] := by
  decide +kernel

/-- The example compiles one source only. -/
theorem distinguished_counterCalls : Distinguished (Config.compilerOptions {})
    (sourcesDuring {} {} counterRoot noFiles counterCalls) := by
  have missing : sourcesOf {} {} counterRoot noFiles = [] := rfl
  have all : ∀ source ∈ sourcesDuring {} {} counterRoot noFiles counterCalls,
      source = "contract Counter \x7b\x7d" := by
    simp [sourcesDuring, counterCalls, Action.sources, Action.filesAfter, sourcesIn_counterBuffer,
      sourcesOf_counterFiles, missing]
  intro a ha b hb
  rw [all a ha, all b hb]
  exact fun collide => collide.1 rfl

/-- An empty store can be used for whatever the compiler of one contract is asked. -/
theorem usable_empty {options : CompilerOptions} {sources : List String} :
    ∀ s, some Store.empty = some s → s.Usable counterCompiler options sources := by
  rintro _ ⟨⟩
  refine ⟨?_, ?_⟩
  · simp [Store.Sound]
  · intro call mem u direct
    obtain ⟨source, _, rfl⟩ := List.mem_map.1 mem
    exact storable_of_direct_counter direct

theorem unelapsed_counterCalls : Unelapsed (Config.refreshMs {}) counterCalls := by
  simp [Unelapsed, counterCalls, Action.time?]

/-- If a call answers for files without a project, it fails. -/
theorem eq_error_of_map {result : Except MissingPath Derived} {missing : MissingPath}
    (h : result.map Derived.set = .error missing) : result = .error missing := by
  cases result with
  | error e => exact congrArg _ (Except.error.inj h)
  | ok derived => cases h

theorem exists_of_map {result : Except MissingPath Derived} {set : DeclarationSet}
    (h : result.map Derived.set = .ok set) :
    ∃ derived, result = .ok derived ∧ derived.set = set := by
  cases result with
  | error e => cases h
  | ok derived => exact ⟨derived, rfl, Except.ok.inj h⟩

/-- The calls find these files; what they answer is left open. -/
theorem exists_events_counterCalls {σ : Type} (frontend : Frontend) (c : Compiler σ)
    (w : LiveProject σ) :
    ∃ early first analyzed second text last, w.run frontend c counterCalls =
      [⟨.declarations 0, w.files, .declared early⟩, ⟨.edit counterFiles, w.files, .done⟩,
        ⟨.declarations 100, counterFiles, .declared first⟩,
        ⟨.analyze ⟨"/app/counter.ts"⟩ counterBuffer, counterFiles, .analyzed analyzed⟩,
        ⟨.edit noFiles, counterFiles, .done⟩, ⟨.declarations 900, noFiles, .declared second⟩,
        ⟨.invalidate, noFiles, .done⟩, ⟨.declarationText 950, noFiles, .text text⟩,
        ⟨.edit counterFiles, noFiles, .done⟩, ⟨.beginPass, counterFiles, .done⟩,
        ⟨.declarations 990, counterFiles, .declared last⟩] :=
  ⟨_, _, _, _, _, _, rfl⟩

theorem declarations_follow_files_counterCalls :
    ∃ (derived again : Derived) (analyzed : Except UnsupportedFile Analysis),
      declaredIn {} counterCompiler {} counterRoot counterFiles = .ok derived.set ∧
      again.set = derived.set ∧
      (counterProject.run {} counterCompiler.compiler counterCalls).map Event.answer =
        [.declared (.error ⟨counterRoot⟩), .done, .declared (.ok derived), .analyzed analyzed,
          .done, .declared (.ok derived), .done, .text (.error ⟨counterRoot⟩), .done, .done,
          .declared (.ok again)] ∧
      (counterProject.run {} counterCompiler.compiler counterCalls).eraseIdx 7 =
        counterProject.run {} counterCompiler.compiler (counterCalls.eraseIdx 7) ∧
      (counterProject.run {} counterCompiler.compiler counterCalls).filter
          (fun e => !e.action.isAnalyze) =
        counterProject.run {} counterCompiler.compiler (counterCalls.eraseIdx 3) := by
  obtain ⟨follows, -, unfailed, unanalyzed⟩ := declarations_follow_files {} counterCompiler {}
    counterRoot () (some .empty) [⟨true, false⟩, ⟨false, true⟩] noFiles counterCalls
    distinguished_counterCalls usable_empty
  specialize follows unelapsed_counterCalls
  obtain ⟨set, made⟩ : ∃ set,
      declaredIn {} counterCompiler {} counterRoot counterFiles = .ok set :=
    ⟨_, congrArg (Except.map _) find_counterFiles⟩
  have missing : declaredIn {} counterCompiler {} counterRoot noFiles = .error ⟨counterRoot⟩ :=
    congrArg (Except.map _) find_noFiles
  obtain ⟨early, first, analyzed, second, text, last, events⟩ :=
    exists_events_counterCalls {} counterCompiler.compiler counterProject
  change counterProject.run {} counterCompiler.compiler counterCalls = _ at events
  -- what a call answers for is decided by the events before it
  obtain rfl : early = .error ⟨counterRoot⟩ :=
    eq_error_of_map (((follows [] _ _ events).1.1 early rfl).trans missing)
  obtain ⟨derived, rfl, same⟩ := exists_of_map
    (((follows [_, _] _ _ events).1.1 first rfl).trans made)
  obtain rfl : second = .ok derived :=
    (follows [_, _, _, _, _] _ _ events).2 second rfl _ (List.mem_of_getElem? (i := 2) rfl)
      derived rfl
  obtain rfl : text = .error ⟨counterRoot⟩ :=
    ((follows [_, _, _, _, _, _, _] _ _ events).1.2 text rfl).trans
      (congrArg (Except.map _) missing)
  obtain ⟨again, rfl, same'⟩ := exists_of_map
    (((follows [_, _, _, _, _, _, _, _, _, _] _ _ events).1.1 last rfl).trans made)
  refine ⟨derived, again, analyzed, by rw [same, made], same'.trans same.symm, ?_, ?_, unanalyzed⟩
  · rw [events]
    rfl
  · exact unfailed [.declarations 0, .edit counterFiles, .declarations 100,
      .analyze ⟨"/app/counter.ts"⟩ counterBuffer, .edit noFiles, .declarations 900, .invalidate]
      (.declarationText 950) [.edit counterFiles, .beginPass, .declarations 990] _ rfl
      (congrArg (fun events => events[7]?) events) rfl

end LiveProject

end SolidityInlay
