import SolidityInlay.Compile.Compiler
import SolidityInlay.Compile.Normalize
import SolidityInlay.Store.Basic

/-!
# The cache of compilations

Compiles sources through a compiler and remembers the units in memory, and in a store if there is
one. A unit once held is handed out again, the same one, until the cache is reset. Failures are
never remembered. The store is used under the compiler's fingerprint, for which the compiler is
asked once; if it cannot tell, the store is left alone.

A store may fail. What cannot be read is as good as absent, and what cannot be written is held all
the same.

Main definitions: `Access`, `Cache`, `Cache.compile`, `Cache.get?`, `Cache.reset`.
-/

namespace SolidityInlay

/-- A unit with its identity: the number of the occasion on which it was made. -/
structure HeldUnit where
  id : Nat
  unit : CompiledUnit
deriving Repr

inductive Compilation where
  | compiled (held : HeldUnit)
  | failed (diagnostics : List Diagnostic)
deriving Repr

/-- Whether a store can be read, and whether it can be written. -/
structure Access where
  reads : Bool := true
  writes : Bool := true
deriving DecidableEq, Repr

/-- A cache in front of a compiler with states `σ`. -/
structure Cache (σ : Type) where
  options : CompilerOptions
  /-- The compiler's state. -/
  compiler : σ
  store : Option Store
  /-- How the coming uses of the store go, which is not for the cache to decide. Past the end of the
  list they all succeed. -/
  accesses : List Access
  held : List (ContentKey × HeldUnit)
  /-- The compiler's fingerprint once it was asked for, with none if it could not tell. -/
  build : Option (Option String)
  /-- How often the compiler was asked to compile. -/
  invocations : Nat
  /-- The identity of the next unit. -/
  nextId : Nat

namespace Cache

variable {σ : Type}

def fresh (options : CompilerOptions) (compiler : σ) (store : Option Store) (nextId : Nat)
    (accesses : List Access := []) : Cache σ where
  options
  compiler
  store
  accesses
  held := []
  build := none
  invocations := 0
  nextId

def keyOf (s : Cache σ) (source : String) : ContentKey := .derive source s.options

def get? (s : Cache σ) (key : ContentKey) : Option HeldUnit :=
  (s.held.find? fun e => e.1 = key).map Prod.snd

def size (s : Cache σ) : Nat := s.held.length

/-- Forgets every unit; the store stays. -/
def reset (s : Cache σ) : Cache σ := { s with held := [] }

/-- The compiler's fingerprint, if there is a store to use it for. The compiler is asked on the
first need. -/
def askBuild (c : Compiler σ) (s : Cache σ) : Option String × Cache σ :=
  match s.store, s.build with
  | none, _ => (none, s)
  | some _, some build => (build, s)
  | some _, none =>
    let (answer, compiler) := c.version s.compiler
    let build := answer.toOption.map fingerprint
    (build, { s with compiler, build := some build })

def nextAccess (s : Cache σ) : Access × Cache σ :=
  (s.accesses.headD {}, { s with accesses := s.accesses.tail })

def stored? (s : Cache σ) (access : Access) (build : Option String) (key : ContentKey) :
    Option CompiledUnit :=
  match s.store, build with
  | some store, some build => if access.reads then store.get? build key else none
  | _, _ => none

def persist (s : Cache σ) (access : Access) (build : Option String) (key : ContentKey)
    (unit : CompiledUnit) : Cache σ :=
  match s.store, build with
  | some store, some build =>
    if access.writes then { s with store := some (store.put build key unit) } else s
  | _, _ => s

def hold (s : Cache σ) (key : ContentKey) (unit : CompiledUnit) : HeldUnit × Cache σ :=
  let held : HeldUnit := ⟨s.nextId, unit⟩
  (held, { s with held := (key, held) :: s.held, nextId := s.nextId + 1 })

/-- Asks the compiler, and stores and holds what it compiles. -/
def invoke (c : Compiler σ) (access : Access) (build : Option String) (key : ContentKey)
    (source : String) (s : Cache σ) : Except CompilerError Compilation × Cache σ :=
  let (answer, compiler) := c.compile ⟨source, s.options⟩ s.compiler
  let s := { s with compiler, invocations := s.invocations + 1 }
  match answer with
  | .error e => (.error e, s)
  | .ok response =>
    match normalize key.hex response with
    | .error diagnostics => (.ok (.failed diagnostics), s)
    | .ok unit =>
      let (held, s) := (s.persist access build key unit).hold key unit
      (.ok (.compiled held), s)

/-- The unit of a source: held, stored, or compiled now. -/
def compile (c : Compiler σ) (source : String) (s : Cache σ) :
    Except CompilerError Compilation × Cache σ :=
  let key := s.keyOf source
  match s.get? key with
  | some held => (.ok (.compiled held), s)
  | none =>
    let (build, s) := s.askBuild c
    let (access, s) := s.nextAccess
    match s.stored? access build key with
    | some unit =>
      let (held, s) := s.hold key unit
      (.ok (.compiled held), s)
    | none => s.invoke c access build key source

end Cache

end SolidityInlay
