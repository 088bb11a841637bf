import SolidityInlay.Cache.Basic
import SolidityInlay.Proofs.Store

/-!
# Caches answer as compilers do

Any number of caches, each before a compiler of its own and with its own options, share one store
and are used in any order, while reading and writing the store may fail at any time. What a cache
answers is what its compiler answers directly: every unit it holds and every row of the store stands
for a direct answer, and every action keeps it so. This needs compilations that a key tells apart,
compilers that a fingerprint tells apart, and units that a row can hold.

Main definitions: `FixedCompiler`, `Call.direct`, `Sharing.run`, `Cacheable`.
-/

namespace SolidityInlay

/-! ## Compilers and direct answers -/

/-- A compiler whose answers depend on nothing but the question. -/
structure FixedCompiler where
  σ : Type
  compiler : Compiler σ
  answer : Request → Except CompilerError Response
  report : Except CompilerError String
  compile_eq : ∀ request state, (compiler.compile request state).1 = answer request
  version_eq : ∀ state, (compiler.version state).1 = report

def FixedCompiler.build (c : FixedCompiler) : Option String := c.report.toOption.map fingerprint

structure Call where
  compiler : FixedCompiler
  request : Request

namespace Call

def key (c : Call) : ContentKey := .derive c.request.source c.request.options

/-- The compiler's own answer, without any cache: a unit, the diagnostics of a failure, or an error.
-/
def direct (c : Call) : Except CompilerError (Except (List Diagnostic) CompiledUnit) :=
  (c.compiler.answer c.request).map (normalize c.key.hex)

end Call

/-- What came of a compilation, whichever occasion the unit is from. -/
def Compilation.result : Compilation → Except (List Diagnostic) CompiledUnit
  | compiled held => .ok held.unit
  | failed diagnostics => .error diagnostics

/-! ## Caches that share a store -/

structure Session where
  compiler : FixedCompiler
  cache : Cache compiler.σ

/-- Caches and the store they share. -/
structure Sharing where
  store : Store
  sessions : List Session

inductive Action where
  /-- A new cache before a compiler, with what will become of its uses of the store. -/
  | start (compiler : FixedCompiler) (options : CompilerOptions) (state : compiler.σ)
      (accesses : List Access)
  | compile (session : Nat) (source : String)
  | reset (session : Nat)
  /-- Clears the store. -/
  | clear

namespace Session

def compile (s : Session) (store : Store) (source : String) :
    Except CompilerError Compilation × Session × Store :=
  let (answer, cache) := { s.cache with store := some store }.compile s.compiler.compiler source
  (answer, { s with cache }, cache.store.getD store)

def reset (s : Session) : Session := { s with cache := s.cache.reset }

end Session

namespace Sharing

def empty : Sharing := ⟨.empty, []⟩

def act (w : Sharing) : Action → Option (Except CompilerError Compilation) × Sharing
  | .start compiler options state accesses =>
    let session : Session := ⟨compiler, .fresh options state (some w.store) 0 accesses⟩
    (none, { w with sessions := w.sessions ++ [session] })
  | .compile i source =>
    match w.sessions[i]? with
    | none => (none, w)
    | some s =>
      let (answer, session, store) := s.compile w.store source
      (some answer, ⟨store, w.sessions.set i session⟩)
  | .reset i =>
    match w.sessions[i]? with
    | none => (none, w)
    | some s => (none, { w with sessions := w.sessions.set i s.reset })
  | .clear => (none, { w with store := w.store.clear })

def run (w : Sharing) : List Action → List (Except CompilerError Compilation)
  | [] => []
  | action :: rest =>
    let (answer, w) := w.act action
    answer.toList ++ w.run rest

end Sharing

/-- The calls that actions make, given the compilers and options of the caches there are. -/
def callsFrom (opened : List (FixedCompiler × CompilerOptions)) : List Action → List Call
  | [] => []
  | .start compiler options _ _ :: rest => callsFrom (opened ++ [(compiler, options)]) rest
  | .compile i source :: rest =>
    match opened[i]? with
    | none => callsFrom opened rest
    | some (compiler, options) => ⟨compiler, ⟨source, options⟩⟩ :: callsFrom opened rest
  | .reset _ :: rest => callsFrom opened rest
  | .clear :: rest => callsFrom opened rest

/-- Calls a cache can tell apart: requests by their keys and compilers by their fingerprints. Units
can be stored. -/
structure Cacheable (calls : List Call) : Prop where
  keys : ∀ a ∈ calls, ∀ b ∈ calls, a.key = b.key → a.request = b.request
  builds : ∀ a ∈ calls, ∀ b ∈ calls, ∀ build, a.compiler.build = some build →
    b.compiler.build = some build → a.compiler.answer = b.compiler.answer
  storable : ∀ a ∈ calls, ∀ u, a.direct = .ok (.ok u) → u.Storable

/-! ## One compilation -/

/-- Stores a unit if the build is known and the store can be written. -/
def Store.putFor (s : Store) (access : Access) (build : Option String) (key : ContentKey)
    (u : CompiledUnit) : Store :=
  match build with
  | some build => if access.writes then s.put build key u else s
  | none => s

/-- The ways in which a cache answers a call: with a unit it holds, with one from the store, with
the compiler's answer when there is nothing to remember, or with a new unit. The last two arguments
are what is held and stored afterwards. -/
inductive Answers (held : List (ContentKey × HeldUnit)) (store : Store) (call : Call) :
    Except CompilerError Compilation → List (ContentKey × HeldUnit) → Store → Prop
  | held {e : ContentKey × HeldUnit} : held.find? (fun e => e.1 = call.key) = some e →
      Answers held store call (.ok (.compiled e.2)) held store
  | stored {build : String} {h : HeldUnit} : call.compiler.build = some build →
      store.get? build call.key = some h.unit →
      Answers held store call (.ok (.compiled h)) ((call.key, h) :: held) store
  | passed {answer : Except CompilerError Compilation} :
      answer.map Compilation.result = call.direct → Answers held store call answer held store
  | compiled {h : HeldUnit} (access : Access) : call.direct = .ok (.ok h.unit) →
      Answers held store call (.ok (.compiled h)) ((call.key, h) :: held)
        (store.putFor access call.compiler.build call.key h.unit)

namespace Cache

/-- With a store the compiler's fingerprint is known afterwards, and nothing else has changed. -/
theorem askBuild_spec (c : FixedCompiler) {s : Cache c.σ} {store : Store}
    (hstore : s.store = some store) (hbuild : ∀ b, s.build = some b → b = c.build) :
    ∃ s', s.askBuild c.compiler = (c.build, s') ∧ s'.options = s.options ∧ s'.held = s.held ∧
      s'.store = some store ∧ s'.build = some c.build := by
  unfold askBuild
  cases hb : s.build with
  | some b =>
    rw [hstore, hbuild b hb]
    exact ⟨s, rfl, rfl, rfl, hstore, by rw [hb, hbuild b hb]⟩
  | none =>
    have report := c.version_eq s.compiler
    rw [hstore]
    refine ⟨_, Prod.ext ?_ rfl, rfl, rfl, rfl, ?_⟩
    · simp [FixedCompiler.build, report]
    · simp [FixedCompiler.build, report]

/-- A unit is written into the store only: what is held stays. -/
theorem persist_eq {σ : Type} {s : Cache σ} {store : Store} (h : s.store = some store)
    (access : Access) (build : Option String) (key : ContentKey) (unit : CompiledUnit) :
    s.persist access build key unit =
      { s with store := some (store.putFor access build key unit) } := by
  cases s
  cases build with
  | none => simp_all [persist, Store.putFor]
  | some build => cases writes : access.writes <;> simp_all [persist, Store.putFor]

theorem exists_of_stored? {σ : Type} {s : Cache σ} {store : Store} (h : s.store = some store)
    {access : Access} {build : Option String} {key : ContentKey} {unit : CompiledUnit}
    (hunit : s.stored? access build key = some unit) :
    ∃ b, build = some b ∧ store.get? b key = some unit := by
  cases build with
  | none => simp [stored?, h] at hunit
  | some b =>
    have read : access.reads = true ∧ store.get? b key = some unit := by
      simpa [stored?, h] using hunit
    exact ⟨b, rfl, read.2⟩

/-- Asking the compiler ends in one of the last two ways to answer. -/
theorem invoke_spec (c : FixedCompiler) {s : Cache c.σ} {store : Store}
    (hstore : s.store = some store) (access : Access) (source : String) :
    ∃ answer s' store', s.invoke c.compiler access c.build (s.keyOf source) source = (answer, s') ∧
      s'.options = s.options ∧ s'.build = s.build ∧ s'.store = some store' ∧
      Answers s.held store ⟨c, ⟨source, s.options⟩⟩ answer s'.held store' := by
  rcases hc : c.compiler.compile ⟨source, s.options⟩ s.compiler with ⟨reply, state⟩
  have hreply : c.answer ⟨source, s.options⟩ = reply := by
    rw [← c.compile_eq _ s.compiler, hc]
  simp only [invoke, hc]
  cases reply with
  | error e =>
    refine ⟨_, _, store, rfl, rfl, rfl, hstore, .passed ?_⟩
    simp [Call.direct, hreply, Except.map]
  | ok response =>
    have hdirect : Call.direct ⟨c, ⟨source, s.options⟩⟩ =
        .ok (normalize (s.keyOf source).hex response) := by
      simp [Call.direct, hreply, Except.map, Call.key, keyOf]
    cases hn : normalize (s.keyOf source).hex response with
    | error diagnostics =>
      simp only [hn]
      refine ⟨_, _, store, rfl, rfl, rfl, hstore, .passed ?_⟩
      rw [hdirect, hn]
      rfl
    | ok unit =>
      rw [hn] at hdirect
      let asked : Cache c.σ := { s with compiler := state, invocations := s.invocations + 1 }
      have persisted := persist_eq (show asked.store = some store from hstore) access c.build
        (s.keyOf source) unit
      simp only [asked] at persisted
      simp only [hn, persisted]
      exact ⟨_, _, _, rfl, rfl, rfl, rfl, .compiled (h := ⟨s.nextId, unit⟩) access hdirect⟩

/-- Every compilation before a store ends in one of the ways to answer. -/
theorem compile_spec (c : FixedCompiler) {s : Cache c.σ} {store : Store}
    (hstore : s.store = some store) (hbuild : ∀ b, s.build = some b → b = c.build)
    (source : String) :
    ∃ answer s' store', s.compile c.compiler source = (answer, s') ∧ s'.options = s.options ∧
      (∀ b, s'.build = some b → b = c.build) ∧ s'.store = some store' ∧
      Answers s.held store ⟨c, ⟨source, s.options⟩⟩ answer s'.held store' := by
  cases hget : s.get? (s.keyOf source) with
  | some h =>
    obtain ⟨e, he, rfl⟩ := Option.map_eq_some_iff.1 hget
    simp only [compile, hget]
    exact ⟨_, s, store, rfl, rfl, hbuild, hstore, .held he⟩
  | none =>
    obtain ⟨asked, hask, askedOptions, askedHeld, askedStore, askedBuild⟩ :=
      askBuild_spec c hstore hbuild
    -- the build is known from here on, and one access is used up
    obtain ⟨access, s', hnext, options, held, hstore', known⟩ : ∃ access s',
        asked.nextAccess = (access, s') ∧ s'.options = s.options ∧ s'.held = s.held ∧
          s'.store = some store ∧ ∀ b, s'.build = some b → b = c.build :=
      ⟨_, _, rfl, askedOptions, askedHeld, askedStore, fun b hb =>
        (Option.some.inj (askedBuild.symm.trans hb)).symm⟩
    have key : s'.keyOf source = s.keyOf source := by rw [keyOf, options, keyOf]
    simp only [compile, hget, hask, hnext]
    cases hstored : s'.stored? access c.build (s.keyOf source) with
    | some unit =>
      obtain ⟨b, hb, hunit⟩ := exists_of_stored? hstore' hstored
      refine ⟨_, _, store, rfl, options, known, hstore', ?_⟩
      rw [← held]
      exact .stored (h := ⟨s'.nextId, unit⟩) hb hunit
    | none =>
      obtain ⟨answer, s'', store', hinvoke, options', build', hstore'', answers⟩ :=
        invoke_spec c hstore' access source
      rw [key] at hinvoke
      rw [options, held] at answers
      exact ⟨answer, s'', store', hinvoke, options'.trans options, build' ▸ known, hstore'',
        answers⟩

end Cache

/-! ## What is remembered -/

theorem key_of_normalize {key : String} {r : Response} {u : CompiledUnit}
    (h : normalize key r = .ok u) : u.key = key := by
  simp only [normalize] at h
  split at h
  · cases h
  · cases h
    rfl

theorem Call.key_of_direct {call : Call} {u : CompiledUnit} (h : call.direct = .ok (.ok u)) :
    u.key = call.key.hex := by
  cases hr : call.compiler.answer call.request with
  | error e => simp [direct, hr, Except.map] at h
  | ok response =>
    simp only [direct, hr, Except.map, Except.ok.injEq] at h
    exact key_of_normalize h

/-- Every row that a call finds is its direct answer. -/
def Store.Sound (calls : List Call) (s : Store) : Prop :=
  ∀ call ∈ calls, ∀ build, call.compiler.build = some build →
    ∀ u, s.get? build call.key = some u → call.direct = .ok (.ok u)

/-- Every unit that a call finds is its direct answer, and the build is the compiler's. -/
structure Session.Sound (calls : List Call) (s : Session) : Prop where
  held : ∀ call ∈ calls, call.compiler = s.compiler → call.request.options = s.cache.options →
    ∀ e, s.cache.held.find? (fun e => e.1 = call.key) = some e →
      call.direct = .ok (.ok e.2.unit)
  build : ∀ b, s.cache.build = some b → b = s.compiler.build

section

variable {calls : List Call} (apart : Cacheable calls) {call : Call} (mem : call ∈ calls)

include apart mem

/-- Storing a direct answer keeps the store right: keys and fingerprints tell the calls apart. -/
theorem Store.Sound.put {s : Store} (h : s.Sound calls) {u : CompiledUnit}
    (direct : call.direct = .ok (.ok u)) {build : String}
    (hbuild : call.compiler.build = some build) : (s.put build call.key u).Sound calls := by
  intro other hother build' hbuild' u' found
  by_cases same : build' = build ∧ other.key = call.key
  · obtain ⟨rfl, key⟩ := same
    rw [key, Store.get?_put (apart.storable call mem u direct) s build'
      (Call.key_of_direct direct), Option.some.injEq] at found
    have answers := apart.builds other hother call mem build' hbuild' hbuild
    have requests := apart.keys other hother call mem key
    rw [← found, ← direct, Call.direct, Call.direct, answers, requests, key]
  · rw [Store.get?_put_of_ne s same] at found
    exact h other hother build' hbuild' u' found

theorem Store.Sound.putFor {s : Store} (h : s.Sound calls) {u : CompiledUnit}
    (direct : call.direct = .ok (.ok u)) (access : Access) :
    (s.putFor access call.compiler.build call.key u).Sound calls := by
  unfold Store.putFor
  split
  · next build known =>
    split
    · exact h.put apart mem direct known
    · exact h
  · exact h

/-- An answer is the direct one, and what is remembered afterwards too. -/
theorem Answers.sound {held held' : List (ContentKey × HeldUnit)} {store store' : Store}
    {answer : Except CompilerError Compilation}
    (h : Answers held store call answer held' store')
    (hheld : ∀ e, held.find? (fun e => e.1 = call.key) = some e →
      call.direct = .ok (.ok e.2.unit)) (hstore : store.Sound calls) :
    answer.map Compilation.result = call.direct ∧ store'.Sound calls ∧
      (held' = held ∨ ∃ h, held' = (call.key, h) :: held ∧ call.direct = .ok (.ok h.unit)) := by
  cases h with
  | held found => exact ⟨(hheld _ found).symm, hstore, .inl rfl⟩
  | stored hbuild found =>
    have direct := hstore call mem _ hbuild _ found
    exact ⟨direct.symm, hstore, .inr ⟨_, rfl, direct⟩⟩
  | passed same => exact ⟨same, hstore, .inl rfl⟩
  | compiled access direct =>
    exact ⟨direct.symm, hstore.putFor apart mem direct access, .inr ⟨_, rfl, direct⟩⟩

end

/-- A session answers a call directly and keeps what it remembers right. -/
theorem Session.Sound.compile {calls : List Call} (apart : Cacheable calls) {s : Session}
    (h : s.Sound calls) {store : Store} (hstore : store.Sound calls) {source : String}
    (mem : ⟨s.compiler, ⟨source, s.cache.options⟩⟩ ∈ calls) :
    ∃ answer s' store', s.compile store source = (answer, s', store') ∧
      answer.map Compilation.result = Call.direct ⟨s.compiler, ⟨source, s.cache.options⟩⟩ ∧
      s'.Sound calls ∧ store'.Sound calls ∧
      (s'.compiler, s'.cache.options) = (s.compiler, s.cache.options) := by
  let attached : Cache s.compiler.σ := { s.cache with store := some store }
  obtain ⟨answer, cache, store', hcompile, options, build, hstore', answers⟩ :=
    Cache.compile_spec s.compiler (show attached.store = some store from rfl) h.build source
  obtain ⟨direct, sound', remembered⟩ := answers.sound apart mem (h.held _ mem rfl rfl) hstore
  refine ⟨answer, { s with cache }, store', ?_, direct, ⟨?_, build⟩, sound', ?_⟩
  · simp only [attached] at hcompile
    simp only [Session.compile, hcompile, hstore', Option.getD_some]
  · intro other hother hcompiler hoptions e found
    rw [options] at hoptions
    rcases remembered with hheld | ⟨unit, hheld, hdirect⟩
    · rw [hheld] at found
      exact h.held other hother hcompiler hoptions e found
    · by_cases key : Call.key ⟨s.compiler, ⟨source, s.cache.options⟩⟩ = other.key
      · rw [hheld, List.find?_cons_of_pos (by simpa using key), Option.some.injEq] at found
        have request := apart.keys other hother _ mem key.symm
        have same : other = ⟨s.compiler, ⟨source, s.cache.options⟩⟩ := by
          cases other
          simp_all
        rw [← found, same]
        exact hdirect
      · rw [hheld, List.find?_cons_of_neg (by simpa using key)] at found
        exact h.held other hother hcompiler hoptions e found
  · rw [options]

/-! ## Whole runs -/

namespace Sharing

def opened (w : Sharing) : List (FixedCompiler × CompilerOptions) :=
  w.sessions.map fun s => (s.compiler, s.cache.options)

structure Sound (calls : List Call) (w : Sharing) : Prop where
  store : w.store.Sound calls
  sessions : ∀ s ∈ w.sessions, s.Sound calls

variable {calls : List Call}

theorem sound_empty : empty.Sound calls where
  store _ _ _ _ _ found := by simp [empty] at found
  sessions _ h := by simp [empty] at h

theorem Sound.start {w : Sharing} (h : w.Sound calls) (compiler : FixedCompiler)
    (options : CompilerOptions) (state : compiler.σ) (accesses : List Access) :
    (w.act (.start compiler options state accesses)).2.Sound calls where
  store := h.store
  sessions s hs := by
    rcases List.mem_append.1 hs with hs | hs
    · exact h.sessions s hs
    · rw [List.mem_singleton.1 hs]
      exact ⟨by simp [Cache.fresh], by simp [Cache.fresh]⟩

theorem Sound.clear {w : Sharing} (h : w.Sound calls) : (w.act .clear).2.Sound calls where
  store _ _ _ _ _ found := by simp [act, Store.clear] at found
  sessions := h.sessions

/-- A session may be put in place of another if it is right. -/
theorem Sound.set {w : Sharing} (h : w.Sound calls) {store : Store} (hstore : store.Sound calls)
    {s : Session} (hs : s.Sound calls) (i : Nat) : Sound calls ⟨store, w.sessions.set i s⟩ where
  store := hstore
  sessions t ht := by
    rcases List.mem_or_eq_of_mem_set ht with ht | rfl
    · exact h.sessions t ht
    · exact hs

/-- A session that goes on with its compiler and options leaves open what was open. -/
theorem opened_set {w : Sharing} {i : Nat} {s t : Session} (hs : w.sessions[i]? = some s)
    (same : (t.compiler, t.cache.options) = (s.compiler, s.cache.options)) (store : Store) :
    opened ⟨store, w.sessions.set i t⟩ = w.opened := by
  have here : w.opened[i]? = some (s.compiler, s.cache.options) := by simp [opened, hs]
  obtain ⟨bound, value⟩ := List.getElem?_eq_some_iff.1 here
  rw [opened, List.map_set, same, ← value]
  exact List.set_getElem_self bound

/-- One action keeps everything right, and answers its call directly if it makes one. -/
theorem Sound.act {w : Sharing} (apart : Cacheable calls) (h : w.Sound calls) (action : Action)
    (rest : List Action) (within : ∀ c ∈ callsFrom w.opened (action :: rest), c ∈ calls) :
    ∃ answer w', w.act action = (answer, w') ∧ w'.Sound calls ∧
      ∃ made, callsFrom w.opened (action :: rest) = made ++ callsFrom w'.opened rest ∧
        answer.toList.map (Except.map Compilation.result) = made.map Call.direct := by
  cases action with
  | start compiler options state accesses =>
    exact ⟨_, _, rfl, h.start compiler options state accesses, [],
      by simp [callsFrom, opened, Cache.fresh], rfl⟩
  | clear => exact ⟨_, _, rfl, h.clear, [], rfl, rfl⟩
  | reset i =>
    cases hs : w.sessions[i]? with
    | none => exact ⟨none, w, by simp [Sharing.act, hs], h, [], rfl, rfl⟩
    | some s =>
      have old := h.sessions s (List.mem_of_getElem? hs)
      have sound : s.reset.Sound calls := ⟨by simp [Session.reset, Cache.reset], old.build⟩
      refine ⟨none, _, by simp [Sharing.act, hs], h.set h.store sound i, [], ?_, rfl⟩
      rw [opened_set (t := s.reset) hs rfl, callsFrom, List.nil_append]
  | compile i source =>
    have hopened : w.opened[i]? = w.sessions[i]?.map fun s => (s.compiler, s.cache.options) := by
      simp [opened]
    cases hs : w.sessions[i]? with
    | none =>
      refine ⟨none, w, by simp [Sharing.act, hs], h, [], ?_, rfl⟩
      simp [callsFrom, hopened, hs]
    | some s =>
      have calls_eq : callsFrom w.opened (.compile i source :: rest) =
          ⟨s.compiler, ⟨source, s.cache.options⟩⟩ :: callsFrom w.opened rest := by
        simp [callsFrom, hopened, hs]
      have mem : ⟨s.compiler, ⟨source, s.cache.options⟩⟩ ∈ calls := within _ (by simp [calls_eq])
      obtain ⟨answer, t, store, hcompile, direct, sound, hstore, same⟩ :=
        (h.sessions s (List.mem_of_getElem? hs)).compile apart h.store mem
      refine ⟨some answer, _, by simp [Sharing.act, hs, hcompile], h.set hstore sound i,
        [⟨s.compiler, ⟨source, s.cache.options⟩⟩], ?_, by simp [direct]⟩
      rw [calls_eq, opened_set hs same]
      rfl

/-- A run that starts right answers every call directly. -/
theorem Sound.run {w : Sharing} (apart : Cacheable calls) (h : w.Sound calls)
    (actions : List Action) (within : ∀ c ∈ callsFrom w.opened actions, c ∈ calls) :
    (w.run actions).map (Except.map Compilation.result) =
      (callsFrom w.opened actions).map Call.direct := by
  induction actions generalizing w with
  | nil => rfl
  | cons action rest ih =>
    obtain ⟨answer, w', hact, sound, made, hcalls, direct⟩ := h.act apart action rest within
    have tail := ih sound fun c hc => within c (by simp [hcalls, hc])
    simp only [Sharing.run, hact, List.map_append, direct, tail, hcalls]

/-- Caches over one store, used in any order, answer every compilation as their compilers do without
a cache, whichever of their reads and writes fail. -/
theorem run_eq_direct (actions : List Action) (apart : Cacheable (callsFrom [] actions)) :
    (empty.run actions).map (Except.map Compilation.result) =
      (callsFrom [] actions).map Call.direct :=
  sound_empty.run apart actions fun _ hc => hc

end Sharing

/-! ## An example -/

def counterContracts : NameMap Artifact where
  entries := [("Counter",
    ⟨[.object [("name", .string "count"), ("type", .string "function")]], [0x60, 0x00], [0x00]⟩)]
  sorted := List.pairwise_singleton _ _

def counterCompiler : FixedCompiler where
  σ := Unit
  compiler := { compile := fun _ state => (.ok counterResponse, state)
                version := fun state => (.ok "0.8.30", state) }
  answer _ := .ok counterResponse
  report := .ok "0.8.30"
  compile_eq _ _ := rfl
  version_eq _ := rfl
where
  counterResponse : Response := {
    contracts := .ofList [("Inline.sol", .ofList [("Counter",
      ⟨[.object [("name", .string "count"), ("type", .string "function")]], "6000", "0x00"⟩)])]
    reports := [] }

theorem normalize_counterResponse (key : String) :
    normalize key counterCompiler.counterResponse = .ok ⟨key, counterContracts, []⟩ :=
  rfl

/-- The compiler is asked but its unit cannot be written, so that it is asked again; then the store
answers the same cache and, once it can be read, another. A held unit outlives the store. -/
def counterActions : List Action := [
  .start counterCompiler {} () [⟨true, false⟩], .compile 0 "contract Counter \x7b\x7d", .reset 0,
  .compile 0 "contract Counter \x7b\x7d", .reset 0, .compile 0 "contract Counter \x7b\x7d",
  .start counterCompiler {} () [⟨false, false⟩], .compile 1 "contract Counter \x7b\x7d", .reset 1,
  .compile 1 "contract Counter \x7b\x7d", .clear, .compile 1 "contract Counter \x7b\x7d"]

theorem storable_counter (key : String) : CompiledUnit.Storable ⟨key, counterContracts, []⟩ where
  plain := by
    have sorted : SortedByName [("name", Json.Value.string "count"),
        ("type", Json.Value.string "function")] :=
      List.pairwise_pair.2 (by decide)
    simp only [counterContracts, List.mem_singleton, forall_eq]
    refine .array fun v hv => ?_
    rw [List.mem_singleton.1 hv]
    exact .object sorted (by simp [Json.Value.Plain.string])
  spans := by simp
  size := by
    have size : (Row.ofUnit ⟨"", counterContracts, []⟩).encode.length < 2 ^ 64 := by decide +kernel
    exact size

theorem storable_of_direct_counter {request : Request} {u : CompiledUnit}
    (direct : Call.direct ⟨counterCompiler, request⟩ = .ok (.ok u)) : u.Storable := by
  have normalized : normalize (Call.key ⟨counterCompiler, request⟩).hex
      counterCompiler.counterResponse = .ok u := Except.ok.inj direct
  rw [normalize_counterResponse] at normalized
  cases normalized
  exact storable_counter _

theorem cacheable_counterActions : Cacheable (callsFrom [] counterActions) := by
  let call : Call := ⟨counterCompiler, ⟨"contract Counter \x7b\x7d", {}⟩⟩
  have all : ∀ a ∈ callsFrom [] counterActions, a = call := by
    simp [counterActions, callsFrom, call]
  refine ⟨?_, ?_, ?_⟩
  · intro a ha b hb _
    rw [all a ha, all b hb]
  · intro a ha b hb _ _ _
    rw [all a ha, all b hb]
  · intro a ha u direct
    rw [all a ha] at direct
    exact storable_of_direct_counter direct

/-- In the example every answer is the compiler's own. -/
theorem run_counterActions :
    Cacheable (callsFrom [] counterActions) ∧
      (Sharing.empty.run counterActions).map (Except.map Compilation.result) =
        (callsFrom [] counterActions).map Call.direct :=
  ⟨cacheable_counterActions, Sharing.run_eq_direct counterActions cacheable_counterActions⟩

end SolidityInlay
