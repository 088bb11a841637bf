import Mathlib.Data.Finset.Card
import SolidityInlay.Proofs.Cache

/-!
# A cache in use

One cache is used in any order: sources are compiled, keys looked up, units counted, the cache
reset. The compiler behind it is any compiler and may answer the same question differently each
time; it notes the questions it gets. The store may fail to be read or written at any time. What the
cache promises holds after every such use: a unit once given out is given out again without asking
anyone, a failure leaves no trace but a count, and the compiler is asked no more than the cache
says.

Main definitions: `Compiler.noting`, `Usage`, `Usage.Memoizes`. Main statement:
`Usage.memoizes_run`.
-/

namespace SolidityInlay

/-! ## Compilers that note their questions -/

inductive Question where
  | compile (request : Request)
  | version
deriving DecidableEq, Repr

def Question.isCompile : Question → Bool
  | compile _ => true
  | version => false

namespace Compiler

variable {σ : Type} (c : Compiler σ)

/-- The compiler with a list of the questions it was asked, the latest first. -/
def noting : Compiler (σ × List Question) where
  compile request s :=
    let (answer, state) := c.compile request s.1
    (answer, state, .compile request :: s.2)
  version s :=
    let (answer, state) := c.version s.1
    (answer, state, .version :: s.2)

@[simp] theorem noting_compile_questions (request : Request) (s : σ × List Question) :
    (c.noting.compile request s).2.2 = .compile request :: s.2 := rfl

@[simp] theorem noting_version_questions (s : σ × List Question) :
    (c.noting.version s).2.2 = .version :: s.2 := rfl

end Compiler

/-! ## Operations -/

inductive Operation where
  | compile (source : String)
  | get (key : ContentKey)
  | size
  | reset

inductive Reply where
  | compiled (answer : Except CompilerError Compilation)
  | found (held : Option HeldUnit)
  | size (count : Nat)
  | done

def Cache.perform {σ : Type} (c : Compiler σ) (s : Cache σ) : Operation → Reply × Cache σ
  | .compile source =>
    let (answer, s) := s.compile c source
    (.compiled answer, s)
  | .get key => (.found (s.get? key), s)
  | .size => (.size s.size, s)
  | .reset => (.done, s.reset)

/-- A cache in use, with the operations so far and their answers, the latest first. -/
structure Usage (σ : Type) where
  cache : Cache σ
  past : List (Operation × Reply)

namespace Usage

variable {σ : Type}

def start (options : CompilerOptions) (compiler : σ) (store : Option Store) (nextId : Nat)
    (accesses : List Access) : Usage σ :=
  ⟨.fresh options compiler store nextId accesses, []⟩

def perform (c : Compiler σ) (u : Usage σ) (operation : Operation) : Usage σ :=
  let (reply, cache) := u.cache.perform c operation
  ⟨cache, (operation, reply) :: u.past⟩

def run (c : Compiler σ) (u : Usage σ) (operations : List Operation) : Usage σ :=
  operations.foldl (perform c) u

end Usage

/-- A compilation of the key gave a unit, and no reset came after it. -/
inductive CompiledSince (options : CompilerOptions) (key : ContentKey) :
    List (Operation × Reply) → Prop
  | compiled {source : String} {h : HeldUnit} {past : List (Operation × Reply)} :
      ContentKey.derive source options = key →
      CompiledSince options key ((.compile source, .compiled (.ok (.compiled h))) :: past)
  | kept {operation : Operation} {reply : Reply} {past : List (Operation × Reply)} :
      operation ≠ .reset → CompiledSince options key past →
      CompiledSince options key ((operation, reply) :: past)

/-! ## One compilation, with any compiler -/

/-- A unit from a store has the key it was looked up by. -/
theorem Store.key_of_get? {s : Store} {build : String} {key : ContentKey} {u : CompiledUnit}
    (h : s.get? build key = some u) : u.key = key.hex := by
  obtain ⟨row, _, hrow⟩ := Option.bind_eq_some_iff.1 h
  simp only [Row.unit?, Option.bind_eq_bind] at hrow
  obtain ⟨contracts, _, hu⟩ := Option.bind_eq_some_iff.1 hrow
  rw [← Option.some.inj hu]

/-- A unit has no errors among its diagnostics. -/
theorem isError_of_normalize {key : String} {r : Response} {u : CompiledUnit}
    (h : normalize key r = .ok u) : ∀ d ∈ u.diagnostics, d.isError = false := by
  simp only [normalize] at h
  split at h
  · cases h
  · rename_i clean
    cases h
    intro d hd
    rw [Bool.not_eq_true, List.any_eq_false] at clean
    simpa using clean d hd

namespace Cache

variable {σ : Type} {c : Compiler σ} {s : Cache σ}

/-- The compiler's state and the build after the cache has made sure of the build: both as before,
if there is no store or the build is known, or the compiler was asked. -/
inductive Identified (c : Compiler σ) (s : Cache σ) : σ → Option (Option String) → Prop
  | before : s.store = none ∨ s.build.isSome → Identified c s s.compiler s.build
  | asked {build : Option String} : s.store.isSome → s.build = none →
      Identified c s (c.version s.compiler).2 (some build)

/-- The ways in which a compilation ends: with the unit held, a unit from the store, no unit, or a
new unit. The last two were asked of the compiler. -/
inductive Compiles (c : Compiler σ) (s : Cache σ) (source : String) :
    Except CompilerError Compilation → Cache σ → Prop
  | held {h : HeldUnit} : s.get? (s.keyOf source) = some h →
      Compiles c s source (.ok (.compiled h)) s
  | stored {compiler : σ} {build : Option (Option String)} {unit : CompiledUnit} :
      s.get? (s.keyOf source) = none → Identified c s compiler build → s.store.isSome →
      (s.accesses.headD {}).reads = true → unit.key = (s.keyOf source).hex →
      Compiles c s source (.ok (.compiled ⟨s.nextId, unit⟩))
        { s with compiler, build, accesses := s.accesses.tail,
                 held := (s.keyOf source, ⟨s.nextId, unit⟩) :: s.held, nextId := s.nextId + 1 }
  | refused {compiler : σ} {build : Option (Option String)}
      {answer : Except CompilerError Compilation} :
      s.get? (s.keyOf source) = none → Identified c s compiler build →
      (∀ h, answer ≠ .ok (.compiled h)) →
      Compiles c s source answer
        { s with compiler := (c.compile ⟨source, s.options⟩ compiler).2, build,
                 accesses := s.accesses.tail, invocations := s.invocations + 1 }
  | compiled {compiler : σ} {build : Option (Option String)} {unit : CompiledUnit}
      {store : Option Store} :
      s.get? (s.keyOf source) = none → Identified c s compiler build →
      unit.key = (s.keyOf source).hex → (∀ d ∈ unit.diagnostics, d.isError = false) →
      (store = none ↔ s.store = none) →
      ((s.accesses.headD {}).writes = false → store = s.store) →
      Compiles c s source (.ok (.compiled ⟨s.nextId, unit⟩))
        { s with compiler := (c.compile ⟨source, s.options⟩ compiler).2, build, store,
                 accesses := s.accesses.tail, held := (s.keyOf source, ⟨s.nextId, unit⟩) :: s.held,
                 invocations := s.invocations + 1, nextId := s.nextId + 1 }

/-- Making sure of the build asks the compiler at most once. -/
theorem identified_askBuild (c : Compiler σ) (s : Cache σ) :
    ∃ compiler build, Identified c s compiler build ∧
      (s.askBuild c).2 = { s with compiler, build } := by
  obtain ⟨options, compiler, store, accesses, held, build, invocations, nextId⟩ := s
  cases store with
  | none => exact ⟨_, _, .before (.inl rfl), rfl⟩
  | some store =>
    cases build with
    | some build => exact ⟨_, _, .before (.inr rfl), rfl⟩
    | none => exact ⟨_, _, .asked rfl rfl, rfl⟩

/-- A unit is found only in a store that can be read, and under the key asked for. -/
theorem stored?_cases {access : Access} {build : Option String} {key : ContentKey}
    {unit : CompiledUnit} (h : s.stored? access build key = some unit) :
    s.store.isSome ∧ access.reads = true ∧ unit.key = key.hex := by
  cases hstore : s.store with
  | none => simp [stored?, hstore] at h
  | some store =>
    obtain ⟨_, rfl, found⟩ := exists_of_stored? hstore h
    refine ⟨rfl, ?_, Store.key_of_get? found⟩
    by_contra unread
    simp [stored?, hstore, unread] at h

/-- Storing a unit changes the store only, and a write that fails not even that. -/
theorem persist_cases (s : Cache σ) (access : Access) (build : Option String) (key : ContentKey)
    (unit : CompiledUnit) :
    ∃ store, (store = none ↔ s.store = none) ∧ (access.writes = false → store = s.store) ∧
      s.persist access build key unit = { s with store } := by
  cases hstore : s.store with
  | none =>
    have same : s.persist access build key unit = s := by simp [persist, hstore]
    exact ⟨s.store, by simp [hstore], fun _ => hstore, same⟩
  | some store =>
    refine ⟨some (store.putFor access build key unit), by simp, fun unwritten => ?_,
      persist_eq hstore access build key unit⟩
    cases build <;> simp [Store.putFor, unwritten]

/-- What the compiler is asked for ends without a unit or with a new one. -/
theorem compiles_invoke {compiler : σ} {build : Option (Option String)} {source : String}
    (missing : s.get? (s.keyOf source) = none) (identified : Identified c s compiler build)
    (known : Option String) :
    ∃ answer s', { s with compiler, build, accesses := s.accesses.tail }.invoke c
        (s.accesses.headD {}) known (s.keyOf source) source = (answer, s') ∧
      Compiles c s source answer s' := by
  rcases hc : c.compile ⟨source, s.options⟩ compiler with ⟨reply, state⟩
  have state_eq : state = (c.compile ⟨source, s.options⟩ compiler).2 := by rw [hc]
  simp only [invoke, hc]
  subst state_eq
  cases reply with
  | error e => exact ⟨_, _, rfl, .refused missing identified (by simp)⟩
  | ok response =>
    cases hn : normalize (s.keyOf source).hex response with
    | error diagnostics =>
      simp only [hn]
      exact ⟨_, _, rfl, .refused missing identified (by simp)⟩
    | ok unit =>
      obtain ⟨store, same, unwritten, persisted⟩ := persist_cases
        { s with compiler := (c.compile ⟨source, s.options⟩ compiler).2, build,
                 accesses := s.accesses.tail, invocations := s.invocations + 1 }
        (s.accesses.headD {}) known (s.keyOf source) unit
      simp only [hn, persisted, hold]
      exact ⟨_, _, rfl, .compiled missing identified (key_of_normalize hn)
        (isError_of_normalize hn) same unwritten⟩

/-- A compilation ends in one of these ways, whatever the compiler and the store do. -/
theorem compiles_compile (c : Compiler σ) (s : Cache σ) (source : String) :
    Compiles c s source (s.compile c source).1 (s.compile c source).2 := by
  cases missing : s.get? (s.keyOf source) with
  | some h =>
    simp only [compile, missing]
    exact .held missing
  | none =>
    obtain ⟨compiler, build, identified, hsnd⟩ := identified_askBuild c s
    rcases hask : s.askBuild c with ⟨known, s'⟩
    obtain rfl : s' = { s with compiler, build } := by rw [← hsnd, hask]
    simp only [compile, missing, hask, nextAccess]
    split
    · rename_i unit found
      obtain ⟨isSome, reads, key⟩ := stored?_cases found
      exact .stored missing identified isSome reads key
    · obtain ⟨answer, s', invoked, compiles⟩ := compiles_invoke missing identified known
      rw [invoked]
      exact compiles

/-! ## What later operations find -/

theorem get?_cons (key k : ContentKey) (h : HeldUnit) :
    { s with held := (key, h) :: s.held }.get? k = if key = k then some h else s.get? k := by
  by_cases eq : key = k <;> simp [get?, eq]

/-- What is held is given again, and nothing changes. -/
theorem compile_of_get? {source : String} {h : HeldUnit} (found : s.get? (s.keyOf source) = some h)
    (c : Compiler σ) : s.compile c source = (.ok (.compiled h), s) := by
  simp [compile, found]

namespace Compiles

variable {source : String} {answer : Except CompilerError Compilation} {s' : Cache σ}

theorem options (w : Compiles c s source answer s') : s'.options = s.options := by
  cases w <;> rfl

/-- A unit that comes of a compilation is held afterwards. -/
theorem get?_self {h : HeldUnit} (w : Compiles c s source (.ok (.compiled h)) s') :
    s'.get? (s.keyOf source) = some h := by
  cases w with
  | held found => exact found
  | stored => exact (get?_cons ..).trans (if_pos rfl)
  | refused _ _ noUnit => exact absurd rfl (noUnit h)
  | compiled => exact (get?_cons ..).trans (if_pos rfl)

/-- A unit held before is held afterwards. -/
theorem get?_other (w : Compiles c s source answer s') {k : ContentKey} {h : HeldUnit}
    (found : s.get? k = some h) : s'.get? k = some h := by
  have other (missing : s.get? (s.keyOf source) = none) : s.keyOf source ≠ k := by
    rintro rfl
    simp [found] at missing
  cases w with
  | held => exact found
  | stored missing => exact (get?_cons ..).trans ((if_neg (other missing)).trans found)
  | refused => exact found
  | compiled missing => exact (get?_cons ..).trans ((if_neg (other missing)).trans found)

/-- The compiler is asked if the unit is not held and the store cannot be read. -/
theorem unread (w : Compiles c s source answer s') (missing : s.get? (s.keyOf source) = none)
    (h : (s.accesses.headD {}).reads = false) : s'.invocations = s.invocations + 1 := by
  cases w with
  | held found => simp [missing] at found
  | stored _ _ _ reads => exact absurd (reads.symm.trans h) (by decide)
  | refused => rfl
  | compiled => rfl

/-- A store that cannot be written stays as it is. -/
theorem unwritten (w : Compiles c s source answer s') (h : (s.accesses.headD {}).writes = false) :
    s'.store = s.store := by
  cases w with
  | held => rfl
  | stored => rfl
  | refused => rfl
  | compiled _ _ _ _ _ same => exact same h

end Compiles

/-- Only a reset takes away what is held. -/
theorem get?_perform (c : Compiler σ) {operation : Operation} (stays : operation ≠ .reset)
    {k : ContentKey} {h : HeldUnit} (found : s.get? k = some h) :
    (s.perform c operation).2.get? k = some h := by
  cases operation with
  | compile source => exact (compiles_compile c s source).get?_other found
  | get key => exact found
  | size => exact found
  | reset => exact absurd rfl stays

theorem options_perform (c : Compiler σ) (s : Cache σ) (operation : Operation) :
    (s.perform c operation).2.options = s.options := by
  cases operation with
  | compile source => exact (compiles_compile c s source).options
  | get key => rfl
  | size => rfl
  | reset => rfl

end Cache

namespace Usage

variable {σ : Type} {u : Usage σ}

theorem run_cons (c : Compiler σ) (u : Usage σ) (operation : Operation) (rest : List Operation) :
    u.run c (operation :: rest) = (u.perform c operation).run c rest := rfl

/-- Without a reset a unit stays held. -/
theorem get?_run (c : Compiler σ) {operations : List Operation} (stays : .reset ∉ operations)
    {k : ContentKey} {h : HeldUnit} (found : u.cache.get? k = some h) :
    (u.run c operations).cache.get? k = some h ∧
      (u.run c operations).cache.options = u.cache.options := by
  induction operations generalizing u with
  | nil => exact ⟨found, rfl⟩
  | cons operation rest ih =>
    rw [List.mem_cons, not_or] at stays
    have step := Cache.get?_perform c (Ne.symm stays.1) found
    obtain ⟨held, options⟩ := ih (u := u.perform c operation) stays.2 step
    exact ⟨held, options.trans (Cache.options_perform c u.cache operation)⟩

end Usage

/-! ## What the compiler is asked -/

namespace Cache

variable {σ : Type} {c : Compiler σ} {s : Cache (σ × List Question)}

/-- The cache knows how often its compiler was asked to compile, and knows the build if and only if
it has asked for the version, which it has done at most once and only for a store. -/
structure Accounted (s : Cache (σ × List Question)) : Prop where
  invocations : s.invocations = s.compiler.2.countP Question.isCompile
  versions : s.compiler.2.count .version = if s.build.isSome then 1 else 0
  unasked : s.store = none → s.build = none

/-- Asking for the version keeps the account. -/
theorem Accounted.identified (a : s.Accounted) {compiler : σ × List Question}
    {build : Option (Option String)} (i : Identified c.noting s compiler build) :
    { s with compiler, build }.Accounted := by
  cases i with
  | before => exact a
  | asked store unknown =>
    refine ⟨?_, ?_, ?_⟩
    · simpa [Question.isCompile] using a.invocations
    · simpa [unknown] using a.versions
    · intro absent
      change s.store = none at absent
      simp [absent] at store

/-- One more question is one more invocation. -/
theorem Accounted.asked (a : s.Accounted) (request : Request) :
    { s with compiler := (c.noting.compile request s.compiler).2,
             invocations := s.invocations + 1 }.Accounted where
  invocations := by simp [List.countP_cons, Question.isCompile, a.invocations]
  versions := by simpa using a.versions
  unasked := a.unasked

/-- Compiling keeps the account. -/
theorem Accounted.compile (a : s.Accounted) {source : String}
    {answer : Except CompilerError Compilation} {s' : Cache (σ × List Question)}
    (w : Compiles c.noting s source answer s') : s'.Accounted := by
  cases w with
  | held => exact a
  | stored _ identified =>
    have after := a.identified identified
    exact ⟨after.1, after.2, after.3⟩
  | refused _ identified =>
    have after := (a.identified identified).asked (c := c) ⟨source, s.options⟩
    exact ⟨after.1, after.2, after.3⟩
  | compiled _ identified _ _ store =>
    have after := (a.identified identified).asked (c := c) ⟨source, s.options⟩
    exact ⟨after.1, after.2, fun absent => after.3 (store.1 absent)⟩

end Cache

/-! ## What is held, and the past -/

section

variable {options : CompilerOptions} {k : ContentKey} {past : List (Operation × Reply)}

/-- An answer without a unit brings no key. -/
theorem compiledSince_cons {operation : Operation} {reply : Reply} (stays : operation ≠ .reset)
    (noUnit : ∀ h, reply ≠ .compiled (.ok (.compiled h))) :
    CompiledSince options k ((operation, reply) :: past) ↔ CompiledSince options k past := by
  constructor
  · intro h
    cases h with
    | compiled => exact absurd rfl (noUnit _)
    | kept _ h => exact h
  · exact .kept stays

theorem compiledSince_compile {source : String} {h : HeldUnit} :
    CompiledSince options k ((.compile source, .compiled (.ok (.compiled h))) :: past) ↔
      ContentKey.derive source options = k ∨ CompiledSince options k past := by
  constructor
  · intro h
    cases h with
    | compiled key => exact .inl key
    | kept _ h => exact .inr h
  · rintro (key | h)
    · exact .compiled key
    · exact .kept (by simp) h

theorem not_compiledSince_reset {reply : Reply} :
    ¬ CompiledSince options k ((.reset, reply) :: past) := by
  intro h
  cases h with
  | kept stays => exact stays rfl

end

theorem Cache.mem_held_of_get? {σ : Type} {s : Cache σ} {k : ContentKey} {h : HeldUnit}
    (found : s.get? k = some h) : (k, h) ∈ s.held := by
  obtain ⟨e, he, rfl⟩ := Option.map_eq_some_iff.1 found
  obtain rfl : e.1 = k := by simpa using List.find?_some he
  exact List.mem_of_find?_eq_some he

theorem Cache.get?_eq_none_iff {σ : Type} {s : Cache σ} {k : ContentKey} :
    s.get? k = none ↔ k ∉ s.held.map Prod.fst := by
  constructor
  · intro missing mem
    obtain ⟨e, he, rfl⟩ := List.mem_map.1 mem
    have := List.find?_eq_none.1 (Option.map_eq_none_iff.1 missing) e he
    simp at this
  · intro missing
    refine Option.map_eq_none_iff.2 (List.find?_eq_none.2 fun e he => ?_)
    have := fun eq : e.1 = k => missing (eq ▸ List.mem_map_of_mem he)
    simpa using this

namespace Usage

variable {σ : Type} {c : Compiler σ} {u : Usage σ} {options : CompilerOptions}
  {store : Option Store}

/-- The units held are those that the past has brought since the last reset, each under its key, and
no unit has an identity that is yet to be given. -/
structure Recorded (options : CompilerOptions) (store : Option Store) (u : Usage σ) : Prop where
  options_eq : u.cache.options = options
  store_none : u.cache.store = none ↔ store = none
  distinct : (u.cache.held.map Prod.fst).Nodup
  keys : ∀ k, k ∈ u.cache.held.map Prod.fst ↔ CompiledSince options k u.past
  units : ∀ e ∈ u.cache.held, e.2.unit.key = e.1.hex ∧ e.2.id < u.cache.nextId ∧
    (store = none → ∀ d ∈ e.2.unit.diagnostics, d.isError = false)
  given : ∀ operation h, (operation, .compiled (.ok (.compiled h))) ∈ u.past →
    h.id < u.cache.nextId

theorem recorded_start (options : CompilerOptions) (compiler : σ) (store : Option Store)
    (nextId : Nat) (accesses : List Access) :
    (start options compiler store nextId accesses).Recorded options store where
  options_eq := rfl
  store_none := .rfl
  distinct := .nil
  keys _ := ⟨fun h => (nomatch h), fun h => (nomatch h)⟩
  units _ h := nomatch h
  given _ _ h := nomatch h

/-- An operation that holds nothing new and gives out no unit. -/
theorem Recorded.unchanged (r : u.Recorded options store) {operation : Operation} {reply : Reply}
    (stays : operation ≠ .reset) (noUnit : ∀ h, reply ≠ .compiled (.ok (.compiled h)))
    {cache : Cache σ} (same : (cache.options, cache.store, cache.held, cache.nextId) =
      (u.cache.options, u.cache.store, u.cache.held, u.cache.nextId)) :
    Recorded options store ⟨cache, (operation, reply) :: u.past⟩ := by
  simp only [Prod.mk.injEq] at same
  obtain ⟨sameOptions, sameStore, sameHeld, sameId⟩ := same
  refine ⟨?_, ?_, ?_, ?_, ?_, ?_⟩
  · exact sameOptions.trans r.options_eq
  · rw [sameStore]
    exact r.store_none
  · rw [sameHeld]
    exact r.distinct
  · intro k
    rw [sameHeld, compiledSince_cons stays noUnit]
    exact r.keys k
  · rw [sameHeld, sameId]
    exact r.units
  · intro other h mem
    rw [sameId]
    rcases List.mem_cons.1 mem with eq | mem
    · exact absurd (congrArg Prod.snd eq).symm (noUnit h)
    · exact r.given other h mem

/-- A unit that was held is given out. -/
theorem Recorded.held (r : u.Recorded options store) {source : String} {h : HeldUnit}
    (found : u.cache.get? (u.cache.keyOf source) = some h) :
    Recorded options store
      ⟨u.cache, (.compile source, .compiled (.ok (.compiled h))) :: u.past⟩ where
  options_eq := r.options_eq
  store_none := r.store_none
  distinct := r.distinct
  keys k := by
    have mem := Cache.mem_held_of_get? found
    rw [compiledSince_compile, ← r.keys k, ← r.options_eq]
    constructor
    · exact .inr
    · rintro (rfl | mem)
      · exact List.mem_map_of_mem mem
      · exact mem
  units := r.units
  given other h' mem := by
    rcases List.mem_cons.1 mem with eq | mem
    · simp only [Prod.mk.injEq, Reply.compiled.injEq, Except.ok.injEq,
        Compilation.compiled.injEq] at eq
      rw [eq.2]
      exact (r.units _ (Cache.mem_held_of_get? found)).2.1
    · exact r.given other h' mem

/-- A new unit is held and given out. -/
theorem Recorded.new (r : u.Recorded options store) {source : String} {unit : CompiledUnit}
    (missing : u.cache.get? (u.cache.keyOf source) = none)
    (key : unit.key = (u.cache.keyOf source).hex)
    (clean : store = none → ∀ d ∈ unit.diagnostics, d.isError = false) {cache : Cache σ}
    (sameOptions : cache.options = u.cache.options)
    (sameStore : cache.store = none ↔ u.cache.store = none)
    (held : cache.held = (u.cache.keyOf source, ⟨u.cache.nextId, unit⟩) :: u.cache.held)
    (nextId : cache.nextId = u.cache.nextId + 1) :
    Recorded options store ⟨cache, (.compile source,
      .compiled (.ok (.compiled ⟨u.cache.nextId, unit⟩))) :: u.past⟩ := by
  refine ⟨?_, ?_, ?_, ?_, ?_, ?_⟩
  · exact sameOptions.trans r.options_eq
  · exact sameStore.trans r.store_none
  · rw [held, List.map_cons, List.nodup_cons]
    exact ⟨Cache.get?_eq_none_iff.1 missing, r.distinct⟩
  · intro k
    rw [held, compiledSince_compile, List.map_cons, List.mem_cons, r.keys k, ← r.options_eq,
      eq_comm]
    rfl
  · intro e mem
    rw [held] at mem
    simp only [nextId]
    rcases List.mem_cons.1 mem with rfl | mem
    · exact ⟨key, Nat.lt_succ_self _, clean⟩
    · obtain ⟨key, id, clean⟩ := r.units e mem
      exact ⟨key, Nat.lt_succ_of_lt id, clean⟩
  · intro other h mem
    simp only [nextId]
    rcases List.mem_cons.1 mem with eq | mem
    · simp only [Prod.mk.injEq, Reply.compiled.injEq, Except.ok.injEq,
        Compilation.compiled.injEq] at eq
      rw [eq.2]
      exact Nat.lt_succ_self _
    · exact Nat.lt_succ_of_lt (r.given other h mem)

/-- What is recorded agrees with the past after every operation. -/
theorem Recorded.perform (r : u.Recorded options store) (operation : Operation) :
    (u.perform c operation).Recorded options store := by
  cases operation with
  | compile source =>
    have w := Cache.compiles_compile c u.cache source
    simp only [Usage.perform, Cache.perform]
    generalize (u.cache.compile c source).1 = answer, (u.cache.compile c source).2 = cache at w
    cases w with
    | held found => exact r.held found
    | stored missing _ isSome _ key =>
      refine r.new missing key (fun absent => ?_) rfl .rfl rfl rfl
      simp [r.store_none.2 absent] at isSome
    | refused _ _ noUnit => exact r.unchanged (by simp) (by simpa using noUnit) rfl
    | compiled missing _ key clean same => exact r.new missing key (fun _ => clean) rfl same rfl rfl
  | get key => exact r.unchanged (by simp) (by simp) rfl
  | size => exact r.unchanged (by simp) (by simp) rfl
  | reset =>
    refine ⟨r.options_eq, r.store_none, .nil, ?_, fun _ mem => (nomatch mem), ?_⟩
    · intro k
      exact ⟨fun mem => (nomatch mem), fun h => absurd h not_compiledSince_reset⟩
    · intro other h mem
      rcases List.mem_cons.1 mem with eq | mem
      · simp at eq
      · exact r.given other h mem

/-- What holds at the start and is kept by every operation holds after any operations. -/
theorem run_induction {P : Usage σ → Prop} (step : ∀ u operation, P u → P (u.perform c operation))
    (operations : List Operation) (h : P u) : P (u.run c operations) := by
  induction operations generalizing u with
  | nil => exact h
  | cons operation rest ih => exact ih (step u operation h)

end Usage

theorem Cache.Accounted.perform {σ : Type} {c : Compiler σ} {s : Cache (σ × List Question)}
    (a : s.Accounted) (operation : Operation) : (s.perform c.noting operation).2.Accounted := by
  cases operation with
  | compile source => exact a.compile (compiles_compile c.noting s source)
  | get key => exact a
  | size => exact a
  | reset => exact ⟨a.1, a.2, a.3⟩

/-! ## Noting questions changes nothing -/

namespace Cache

variable {σ : Type} (c : Compiler σ) (s : Cache (σ × List Question))

def unnoted (s : Cache (σ × List Question)) : Cache σ where
  options := s.options
  compiler := s.compiler.1
  store := s.store
  accesses := s.accesses
  held := s.held
  build := s.build
  invocations := s.invocations
  nextId := s.nextId

theorem askBuild_unnoted :
    s.unnoted.askBuild c = ((s.askBuild c.noting).1, (s.askBuild c.noting).2.unnoted) := by
  obtain ⟨options, compiler, store, accesses, held, build, invocations, nextId⟩ := s
  cases store with
  | none => rfl
  | some store => cases build <;> rfl

theorem persist_unnoted (access : Access) (build : Option String) (key : ContentKey)
    (unit : CompiledUnit) :
    s.unnoted.persist access build key unit = (s.persist access build key unit).unnoted := by
  obtain ⟨options, compiler, store, accesses, held, known, invocations, nextId⟩ := s
  cases store with
  | none => rfl
  | some store =>
    rw [persist_eq rfl, persist_eq rfl]
    rfl

theorem invoke_unnoted (access : Access) (build : Option String) (key : ContentKey)
    (source : String) :
    s.unnoted.invoke c access build key source =
      ((s.invoke c.noting access build key source).1,
        (s.invoke c.noting access build key source).2.unnoted) := by
  rcases asked : c.compile ⟨source, s.unnoted.options⟩ s.unnoted.compiler with ⟨reply, state⟩
  have noted : c.noting.compile ⟨source, s.options⟩ s.compiler =
      (reply, state, .compile ⟨source, s.options⟩ :: s.compiler.2) := by
    change c.compile ⟨source, s.options⟩ s.compiler.1 = _ at asked
    simp [Compiler.noting, asked]
  simp only [invoke, asked, noted]
  cases reply with
  | error e => rfl
  | ok response =>
    cases hn : normalize key.hex response with
    | error diagnostics =>
      simp only [hn]
      rfl
    | ok unit =>
      simp only [hn]
      have persisted := persist_unnoted
        { s with compiler := (state, .compile ⟨source, s.options⟩ :: s.compiler.2),
                 invocations := s.invocations + 1 } access build key unit
      simp only [unnoted] at persisted ⊢
      simp only [persisted]
      rfl

/-- A compiler that notes its questions gives the answers it would give without. -/
theorem compile_unnoted (source : String) :
    s.unnoted.compile c source =
      ((s.compile c.noting source).1, (s.compile c.noting source).2.unnoted) := by
  have get : s.unnoted.get? (s.unnoted.keyOf source) = s.get? (s.keyOf source) := rfl
  simp only [compile, get, askBuild_unnoted]
  cases s.get? (s.keyOf source) with
  | some h => rfl
  | none =>
    rcases s.askBuild c.noting with ⟨build, asked⟩
    have next : asked.unnoted.nextAccess = (asked.nextAccess.1, asked.nextAccess.2.unnoted) := rfl
    simp only [next]
    rcases asked.nextAccess with ⟨access, s'⟩
    have stored : s'.unnoted.stored? access build (s.unnoted.keyOf source) =
      s'.stored? access build (s.keyOf source) := rfl
    simp only [stored]
    cases s'.stored? access build (s.keyOf source) with
    | some unit => rfl
    | none => exact invoke_unnoted c s' access build (s.keyOf source) source

end Cache

namespace Usage

variable {σ : Type} (c : Compiler σ)

def unnoted (u : Usage (σ × List Question)) : Usage σ := ⟨u.cache.unnoted, u.past⟩

theorem perform_unnoted (u : Usage (σ × List Question)) (operation : Operation) :
    u.unnoted.perform c operation = (u.perform c.noting operation).unnoted := by
  cases operation with
  | compile source => simp [perform, Cache.perform, unnoted, Cache.compile_unnoted]
  | get key => rfl
  | size => rfl
  | reset => rfl

/-- So it does in any sequence of operations. -/
theorem run_unnoted (u : Usage (σ × List Question)) (operations : List Operation) :
    u.unnoted.run c operations = (u.run c.noting operations).unnoted := by
  induction operations generalizing u with
  | nil => rfl
  | cons operation rest ih => rw [run_cons, run_cons, perform_unnoted, ih]

/-! ## The promises of a cache -/

/-- What a cache promises at any time of its use. It was started with these options and this store,
before a compiler that notes its questions. -/
structure Memoizes (options : CompilerOptions) (store : Option Store)
    (u : Usage (σ × List Question)) : Prop where
  /-- A unit that came of a compilation, stored or not, is what every look-up and compilation of its
  key gives until a reset, whatever the compiler and the store are by then. Nothing changes by it.
  -/
  same {source : String} {h : HeldUnit} {later : List Operation} :
    (u.cache.compile c.noting source).1 = .ok (.compiled h) → .reset ∉ later →
    ∀ s, s = (u.run c.noting (.compile source :: later)).cache →
      s.get? (u.cache.keyOf source) = some h ∧
      ∀ again, u.cache.keyOf again = u.cache.keyOf source →
        ∀ (c' : Compiler (σ × List Question)) (store' : Option Store) (accesses' : List Access),
          { s with store := store', accesses := accesses' }.compile c' again =
            (.ok (.compiled h), { s with store := store', accesses := accesses' })
  /-- A unit that was not held has an identity no earlier one had. -/
  fresh {source : String} {h : HeldUnit} : u.cache.get? (u.cache.keyOf source) = none →
    (u.cache.compile c.noting source).1 = .ok (.compiled h) →
    ∀ operation h', (operation, .compiled (.ok (.compiled h'))) ∈ u.past → h'.id ≠ h.id
  /-- A compilation without a unit leaves all that is held and stored, counts as one invocation and
  one use of the store, and can only have made the build known. -/
  failed {source : String} {answer : Except CompilerError Compilation}
    {s : Cache (σ × List Question)} : u.cache.compile c.noting source = (answer, s) →
    (∀ h, answer ≠ .ok (.compiled h)) →
    ∃ compiler build, s = { u.cache with compiler, build, accesses := u.cache.accesses.tail,
                                         invocations := u.cache.invocations + 1 } ∧
      (u.cache.build = none ∨ build = u.cache.build)
  /-- A source whose unit is not held is compiled anew if the store cannot be read. -/
  unread {source : String} : u.cache.get? (u.cache.keyOf source) = none →
    (u.cache.accesses.headD {}).reads = false →
    (u.cache.compile c.noting source).2.invocations = u.cache.invocations + 1
  /-- A compilation changes nothing in the store if the store cannot be written. -/
  unwritten {source : String} : (u.cache.accesses.headD {}).writes = false →
    (u.cache.compile c.noting source).2.store = u.cache.store
  /-- The compiler was asked to compile as often as the cache says. -/
  invocations : u.cache.invocations = u.cache.compiler.2.countP Question.isCompile
  /-- The number of units held is the number of keys compiled since the last reset. -/
  size : ∃ keys : Finset ContentKey, (∀ k, k ∈ keys ↔ CompiledSince options k u.past) ∧
    u.cache.size = keys.card
  /-- The compiler was asked for its version at most once, and only for a store. -/
  version_once : u.cache.compiler.2.count .version ≤ 1
  version_store : store = none → .version ∉ u.cache.compiler.2
  /-- A unit that is held is given without a question. -/
  version_held {source : String} {h : HeldUnit} : u.cache.get? (u.cache.keyOf source) = some h →
    (u.cache.compile c.noting source).2.compiler = u.cache.compiler
  /-- A unit carries the key it is held under. -/
  key {k : ContentKey} {h : HeldUnit} : u.cache.get? k = some h → h.unit.key = k.hex
  /-- What the compiler's answer was made into has no error in it, and without a store there is
  nothing else. -/
  clean {source : String} {h : HeldUnit} {s : Cache (σ × List Question)} :
    u.cache.compile c.noting source = (.ok (.compiled h), s) →
    s.invocations = u.cache.invocations + 1 ∨ store = none →
    ∀ d ∈ h.unit.diagnostics, d.isError = false

variable {c} {u : Usage (σ × List Question)} {options : CompilerOptions} {store : Option Store}

/-- A unit that was compiled is given again until the next reset, whatever the store does meanwhile.
-/
theorem same_of_compiled {source : String} {h : HeldUnit}
    (compiled : (u.cache.compile c.noting source).1 = .ok (.compiled h)) {later : List Operation}
    (stays : .reset ∉ later) {s : Cache (σ × List Question)}
    (hs : s = (u.run c.noting (.compile source :: later)).cache) :
    s.get? (u.cache.keyOf source) = some h ∧ s.options = u.cache.options := by
  have w := Cache.compiles_compile c.noting u.cache source
  rw [compiled] at w
  obtain ⟨found, same⟩ := get?_run (u := u.perform c.noting (.compile source)) c.noting stays
    w.get?_self
  rw [hs, run_cons]
  exact ⟨found, same.trans w.options⟩

/-- The size is the number of keys compiled since the last reset. -/
theorem Recorded.size (r : u.Recorded options store) :
    ∃ keys : Finset ContentKey, (∀ k, k ∈ keys ↔ CompiledSince options k u.past) ∧
      u.cache.size = keys.card := by
  refine ⟨(u.cache.held.map Prod.fst).toFinset, fun k => ?_, ?_⟩
  · rw [List.mem_toFinset, r.keys]
  · rw [List.toFinset_card_of_nodup r.distinct, List.length_map, Cache.size]

/-- All promises of a cache follow from its records and its account. -/
theorem memoizes_of_recorded (r : u.Recorded options store) (a : u.cache.Accounted) :
    u.Memoizes c options store where
  same := by
    intro source h later compiled stays s hs
    obtain ⟨found, sameOptions⟩ := same_of_compiled compiled stays hs
    refine ⟨found, fun again key c' store' accesses' => Cache.compile_of_get? ?_ c'⟩
    have sameKey : s.keyOf again = u.cache.keyOf source := by
      rw [← key, Cache.keyOf, sameOptions, Cache.keyOf]
    exact (congrArg s.get? sameKey).trans found
  fresh := by
    intro source h missing compiled operation h' mem
    have w := Cache.compiles_compile c.noting u.cache source
    rw [compiled] at w
    generalize (u.cache.compile c.noting source).2 = s at w
    have old := r.given operation h' mem
    cases w with
    | held found => simp [missing] at found
    | stored => exact Nat.ne_of_lt old
    | refused _ _ noUnit => exact absurd rfl (noUnit h)
    | compiled => exact Nat.ne_of_lt old
  failed := by
    intro source answer s compiled noUnit
    have w := Cache.compiles_compile c.noting u.cache source
    rw [compiled] at w
    cases w with
    | held => exact absurd rfl (noUnit _)
    | stored => exact absurd rfl (noUnit _)
    | compiled => exact absurd rfl (noUnit _)
    | refused _ identified =>
      refine ⟨_, _, rfl, ?_⟩
      cases identified with
      | before => exact .inr rfl
      | asked _ unknown => exact .inl unknown
  unread := (Cache.compiles_compile c.noting u.cache _).unread
  unwritten := (Cache.compiles_compile c.noting u.cache _).unwritten
  invocations := a.invocations
  size := r.size
  version_once := by
    rw [a.versions]
    split <;> omega
  version_store := by
    intro absent mem
    have count := a.versions
    rw [a.unasked (r.store_none.2 absent)] at count
    exact List.count_eq_zero.1 (by simpa using count) mem
  version_held := by
    intro source h found
    rw [Cache.compile_of_get? found]
  key := by
    intro k h found
    exact (r.units _ (Cache.mem_held_of_get? found)).1
  clean := by
    intro source h s compiled asked
    have w := Cache.compiles_compile c.noting u.cache source
    rw [compiled] at w
    cases w with
    | held found =>
      rcases asked with asked | absent
      · simp at asked
      · exact (r.units _ (Cache.mem_held_of_get? found)).2.2 absent
    | stored _ _ isSome =>
      rcases asked with asked | absent
      · simp at asked
      · simp [r.store_none.2 absent] at isSome
    | refused _ _ noUnit => exact absurd rfl (noUnit h)
    | compiled _ _ _ clean => exact clean

/-- A cache keeps its promises in any use, with any compiler and whichever reads and writes of the
store fail, and answers as it does when the compiler does not note its questions. -/
theorem memoizes_run (c : Compiler σ) (options : CompilerOptions) (state : σ) (store : Option Store)
    (nextId : Nat) (accesses : List Access) (operations : List Operation) :
    ((start options (state, []) store nextId accesses).run c.noting operations).Memoizes c options
        store ∧
      ((start options (state, []) store nextId accesses).run c.noting operations).past =
        ((start options state store nextId accesses).run c operations).past := by
  have recorded := run_induction (c := c.noting) (fun _ operation r => r.perform operation)
    operations (recorded_start options (state, []) store nextId accesses)
  have accounted := run_induction (c := c.noting) (P := fun u => u.cache.Accounted)
    (fun _ operation a => a.perform operation) operations
    (u := start options (state, []) store nextId accesses) ⟨rfl, rfl, fun _ => rfl⟩
  refine ⟨memoizes_of_recorded recorded accounted, ?_⟩
  exact congrArg Usage.past
    (run_unnoted c (start options (state, []) store nextId accesses) operations).symm

end Usage

end SolidityInlay
