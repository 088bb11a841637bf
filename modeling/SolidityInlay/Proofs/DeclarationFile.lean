import SolidityInlay.Declarations.Write
import SolidityInlay.Proofs.FileTree
import SolidityInlay.Proofs.Layout
import SolidityInlay.Proofs.Store

/-!
# The declaration file tracks the declarations

A declaration file determines the module it adds to and the names and interfaces it declares, in
their order. A run that brings the file up to date leaves exactly its text, or no file, and says
that nothing changed exactly if the run before it declared the same for the same module.

Main definitions: `FileTree.Holds`, `DeclarationSet.interfaces`, `DeclarationRun`, `writeRuns`.
Main statements: `DeclarationSet.render_inj`, `writeRuns_track`.
-/

namespace SolidityInlay

/-! ## The text determines the declarations -/

def DeclarationSet.interfaces (set : DeclarationSet) : List (String × List Json.Value) :=
  set.entries.map fun d => (d.name, d.abi)

def DeclarationSet.Integral (set : DeclarationSet) : Prop :=
  ∀ d ∈ set.entries, ∀ v ∈ d.abi, v.Integral

namespace Declaration

theorem toList_line (d : Declaration) :
    d.line.toList = "    ".toList ++ (Json.quoteText d.name.toList ++ (": \x7b \"abi\": ".toList ++
      (literalType (.array d.abi) ++ " \x7d;\n".toList))) := by
  simp only [line, Json.quote, String.toList_append, String.toList_ofList, List.append_assoc]

def lines (ds : List Declaration) : Text := ds.flatMap fun d => d.line.toList

theorem lines_cons (d : Declaration) (ds : List Declaration) :
    lines (d :: ds) = d.line.toList ++ lines ds := List.flatMap_cons

/-- Lines that are followed by the end of the file determine names and interfaces. -/
theorem lines_inj {ds es : List Declaration} (hd : ∀ d ∈ ds, ∀ v ∈ d.abi, v.Integral)
    (he : ∀ e ∈ es, ∀ v ∈ e.abi, v.Integral)
    (h : lines ds ++ "  \x7d\n\x7d\n".toList = lines es ++ "  \x7d\n\x7d\n".toList) :
    ds.map (fun d => (d.name, d.abi)) = es.map fun e => (e.name, e.abi) := by
  -- A line begins with four blanks, the end of the file with two.
  have closing (d : Declaration) (rest : Text) :
      d.line.toList ++ rest ≠ "  \x7d\n\x7d\n".toList := by
    rw [toList_line]
    simp
  induction ds generalizing es with
  | nil =>
    cases es with
    | nil => rfl
    | cons e es =>
      rw [lines_cons, List.append_assoc] at h
      exact absurd h.symm (closing e _)
  | cons d ds ih =>
    cases es with
    | nil =>
      rw [lines_cons, List.append_assoc] at h
      exact absurd h (closing d _)
    | cons e es =>
      simp only [lines_cons, toList_line, List.append_assoc, List.append_cancel_left_eq] at h
      obtain ⟨name, h⟩ := Json.quoteText_append_inj h
      have blank : " \x7d;\n".toList = [' ', '}', ';', '\n'] := by decide
      have ends (rest : Text) : Json.EndsNumber (" \x7d;\n".toList ++ rest) := by
        rw [blank]
        exact Json.endsNumber_cons _ (by decide)
      obtain ⟨abi, h⟩ := Json.literalType_append_inj (hd d (by simp)) (he e (by simp)) (ends _)
        (ends _) (List.append_cancel_left h)
      have tail := ih (fun c hc => hd c (by simp [hc])) (fun c hc => he c (by simp [hc]))
        (List.append_cancel_left h)
      rw [List.map_cons, List.map_cons, name, abi, tail]

end Declaration

namespace DeclarationSet

variable {set set' : DeclarationSet} {runtimeModule runtimeModule' : String}

/-- A file is wanted unless nothing is declared. -/
theorem render_eq_none_iff : set.render runtimeModule = none ↔ set.entries = [] := by
  simp [render, isEmpty]

/-- The declaration file in its parts. -/
theorem toList_render {text : String} (h : set.render runtimeModule = some text) :
    text.toList = (declarationHeader ++ "\n" ++ "import ").toList ++
      (Json.quoteText runtimeModule.toList ++ ((";\n\n" ++ "declare module ").toList ++
        (Json.quoteText runtimeModule.toList ++
          ((" \x7b\n" ++ "  interface ContractRegistry \x7b\n").toList ++
            (Declaration.lines set.entries ++ "  \x7d\n\x7d\n".toList))))) := by
  have joined (ds : List Declaration) :
      (String.join (ds.map Declaration.line)).toList = Declaration.lines ds := by
    simp [String.toList_join, Declaration.lines, List.flatMap_map]
  rw [render] at h
  split at h
  · cases h
  · rw [← Option.some.inj h]
    have closing : "  \x7d\n\x7d\n".toList = "  \x7d\n".toList ++ "\x7d\n".toList := by decide
    simp only [Json.quote, String.toList_append, String.toList_ofList, joined, closing,
      List.append_assoc]

/-- A declaration file determines its module and the interfaces it declares. -/
theorem render_inj (hset : set.Integral) (hset' : set'.Integral) (named : set.entries ≠ [])
    (h : set.render runtimeModule = set'.render runtimeModule') :
    runtimeModule = runtimeModule' ∧ set.interfaces = set'.interfaces := by
  cases hr : set.render runtimeModule with
  | none => exact absurd (render_eq_none_iff.1 hr) named
  | some text =>
    have parts := toList_render hr
    rw [toList_render (h ▸ hr)] at parts
    obtain ⟨same, parts⟩ := Json.quoteText_append_inj (List.append_cancel_left parts)
    obtain ⟨_, parts⟩ := Json.quoteText_append_inj (List.append_cancel_left parts)
    refine ⟨same.symm, ?_⟩
    exact (Declaration.lines_inj hset' hset (List.append_cancel_left parts)).symm

/-- Nothing but the module and the interfaces is in a declaration file. -/
theorem render_congr (h : set.interfaces = set'.interfaces) :
    set.render runtimeModule = set'.render runtimeModule := by
  have lines (s : DeclarationSet) : s.entries.map Declaration.line =
      s.interfaces.map fun p => Declaration.line ⟨p.1, p.2, ⟨default, ⟨0, 0⟩⟩⟩ := by
    simp only [interfaces, List.map_map]
    rfl
  have empty (s : DeclarationSet) : s.isEmpty = s.interfaces.isEmpty := by
    simp [isEmpty, interfaces]
  simp only [render, lines, empty, h]

/-- Two declaration files are the same exactly if they declare the same for the same module. -/
theorem render_eq_render_iff (hset : set.Integral) (hset' : set'.Integral) :
    (set'.entries ≠ [] ∧ set.render runtimeModule = set'.render runtimeModule') ↔
      set.entries ≠ [] ∧ set'.entries ≠ [] ∧ runtimeModule = runtimeModule' ∧
        set.interfaces = set'.interfaces := by
  constructor
  · rintro ⟨named, same⟩
    obtain ⟨modules, interfaces⟩ := render_inj hset' hset named same.symm
    refine ⟨?_, named, modules.symm, interfaces.symm⟩
    intro empty
    rw [← render_eq_none_iff, same, render_eq_none_iff] at empty
    exact named empty
  · rintro ⟨_, named, rfl, interfaces⟩
    exact ⟨named, render_congr interfaces⟩

end DeclarationSet

/-! ## What a run leaves -/

/-- What is at a path: a file with a text, or no file. -/
def FileTree.Holds (t : FileTree) (path : Path) : Option String → Prop
  | some text => t.readBytes path = .ok (Bytes.ofString text)
  | none => t.readBytes path = .error .notFound

section

variable {t t' : FileTree} {path : Path} {old new : Option String} {outcome : WriteOutcome}

theorem existingText_of_holds (h : t.Holds path old) : existingText t path = .ok old := by
  cases old with
  | none =>
    simp only [FileTree.Holds] at h
    simp [existingText, FileTree.readText, h, bind, Except.bind]
  | some text =>
    simp only [FileTree.Holds] at h
    simp [existingText, FileTree.readText, h, bind, Except.bind, Bytes.toString?_ofString]

/-- What was written stands at the path, whichever directories had to be made. -/
theorem holds_writeWithDirectories {text : String}
    (h : writeWithDirectories t path text = .ok t') : t'.Holds path (some text) := by
  simp only [writeWithDirectories, bind, Except.bind] at h
  split at h
  · split at h
    · cases h
    · exact FileTree.readBytes_write (eq_ok_of_mapError h)
  · exact FileTree.readBytes_write (eq_ok_of_mapError h)

/-- The file holds what it was to hold, and nothing changed exactly if it held that before. -/
theorem holds_writeDeclarations (held : t.Holds path old)
    (h : writeDeclarations t path new = .ok (outcome, t')) :
    t'.Holds path new ∧ (outcome = .unchanged ↔ new ≠ none ∧ new = old) := by
  simp only [writeDeclarations, existingText_of_holds held, bind, Except.bind] at h
  split at h
  · cases h
    exact ⟨held, by simp⟩
  · split at h
    · cases h
    · rename_i removed
      cases h
      exact ⟨FileTree.readBytes_remove (eq_ok_of_mapError removed), by simp⟩
  · rename_i text
    split at h
    · rename_i same
      cases h
      exact ⟨same ▸ held, by simp [same]⟩
    · rename_i differs
      split at h
      · cases h
      · rename_i written
        cases h
        exact ⟨holds_writeWithDirectories written, by simp [Ne.symm differs]⟩

end

/-! ## Runs one after another -/

structure DeclarationRun where
  set : DeclarationSet
  runtimeModule : String

def DeclarationRun.content (r : DeclarationRun) : Option String := r.set.render r.runtimeModule

/-- Brings the file at a path up to date in each run; what each of them did and the tree it left. -/
def writeRuns (path : Path) (t : FileTree) :
    List DeclarationRun → Except FileFailure (List (WriteOutcome × FileTree))
  | [] => .ok []
  | r :: rest => do
    let (outcome, t) ← writeDeclarations t path r.content
    let more ← writeRuns path t rest
    .ok ((outcome, t) :: more)

section

variable {path : Path} {t : FileTree} {runs : List DeclarationRun}
  {results : List (WriteOutcome × FileTree)}

/-- A sequence of runs that succeeds is a first run that does and the others on the tree it left. -/
theorem exists_of_writeRuns_cons {r : DeclarationRun}
    (h : writeRuns path t (r :: runs) = .ok results) :
    ∃ outcome t' more, writeDeclarations t path r.content = .ok (outcome, t') ∧
      writeRuns path t' runs = .ok more ∧ results = (outcome, t') :: more := by
  simp only [writeRuns, bind, Except.bind] at h
  split at h
  · cases h
  · rename_i first written
    split at h
    · cases h
    · rename_i more rest
      exact ⟨first.1, first.2, more, written, rest, (Except.ok.inj h).symm⟩

/-- Every run leaves its content, and compares it with what the run before it left. -/
theorem holds_writeRuns {old : Option String} (held : t.Holds path old)
    (h : writeRuns path t runs = .ok results) :
    results.length = runs.length ∧ ∀ (i : Nat) outcome t' run, results[i]? = some (outcome, t') →
      runs[i]? = some run → t'.Holds path run.content ∧
        (outcome = .unchanged ↔ run.content ≠ none ∧
          (old :: runs.map DeclarationRun.content)[i]? = some run.content) := by
  -- what a run leaves is what the next one compares with
  induction runs generalizing t old results with
  | nil =>
    cases h
    exact ⟨rfl, by simp⟩
  | cons r runs ih =>
    obtain ⟨outcome, t', more, written, rest, rfl⟩ := exists_of_writeRuns_cons h
    obtain ⟨holds, unchanged⟩ := holds_writeDeclarations held written
    obtain ⟨length, later⟩ := ih holds rest
    refine ⟨by simp [length], ?_⟩
    intro i outcome' u run result this
    cases i with
    | zero =>
      simp only [List.getElem?_cons_zero, Option.some.injEq, Prod.mk.injEq] at result this
      obtain ⟨rfl, rfl⟩ := result
      subst this
      exact ⟨holds, by simpa [eq_comm] using unchanged⟩
    | succ i =>
      rw [List.getElem?_cons_succ] at result this
      exact later i outcome' u run result this

/-- A declaration file determines its module and what it declares. After every run the file holds
the text of that run, or there is none if it declares nothing; and a run says that nothing changed
exactly if the run before it declared something, and the same for the same module. -/
theorem writeRuns_track (absent : t.Holds path none)
    (integral : ∀ run ∈ runs, run.set.Integral) (written : writeRuns path t runs = .ok results) :
    (∀ r s : DeclarationRun, r.set.Integral → s.set.Integral → r.set.entries ≠ [] →
      r.content = s.content →
        r.runtimeModule = s.runtimeModule ∧ r.set.interfaces = s.set.interfaces) ∧
    results.length = runs.length ∧
    ∀ (i : Nat) outcome t' run, results[i]? = some (outcome, t') → runs[i]? = some run →
      t'.Holds path run.content ∧ (run.content = none ↔ run.set.entries = []) ∧
      (outcome = .unchanged ↔ ∃ j previous, i = j + 1 ∧ runs[j]? = some previous ∧
        previous.set.entries ≠ [] ∧ run.set.entries ≠ [] ∧
        previous.runtimeModule = run.runtimeModule ∧
        previous.set.interfaces = run.set.interfaces) := by
  obtain ⟨length, each⟩ := holds_writeRuns absent written
  refine ⟨?_, length, ?_⟩
  · intro r s hr hs named same
    exact DeclarationSet.render_inj hr hs named same
  · intro i outcome t' run result this
    obtain ⟨holds, unchanged⟩ := each i outcome t' run result this
    have empty : run.content = none ↔ run.set.entries = [] := DeclarationSet.render_eq_none_iff
    refine ⟨holds, empty, ?_⟩
    rw [unchanged, ne_eq, empty]
    cases i with
    | zero => simp [← empty, eq_comm]
    | succ j =>
      simp only [List.getElem?_cons_succ, List.getElem?_map, Option.map_eq_some_iff]
      constructor
      · rintro ⟨named, previous, before, same⟩
        have agree := (DeclarationSet.render_eq_render_iff
          (integral previous (List.mem_of_getElem? before))
          (integral run (List.mem_of_getElem? this))).1 ⟨named, same⟩
        exact ⟨j, previous, rfl, before, agree⟩
      · rintro ⟨_, previous, ⟨⟩, before, agree⟩
        have same := (DeclarationSet.render_eq_render_iff
          (integral previous (List.mem_of_getElem? before))
          (integral run (List.mem_of_getElem? this))).2 agree
        exact ⟨same.1, previous, before, same.2⟩

end

def tokenDeclarations : DeclarationSet :=
  ⟨[⟨"Token", [.object [("type", .string "function"), ("inputs", .array [])]],
    ⟨⟨"token.ts"⟩, ⟨12, 19⟩⟩⟩], []⟩

theorem integral_tokenDeclarations : tokenDeclarations.Integral := by
  simp only [tokenDeclarations, DeclarationSet.Integral, List.mem_singleton, forall_eq]
  refine .object ?_
  simp only [List.mem_cons, List.not_mem_nil, or_false, forall_eq_or_imp, forall_eq]
  exact ⟨.string _, .array (by simp)⟩

/-- The contract is declared in two runs and in the third no more. -/
def tokenRuns : List DeclarationRun :=
  [⟨tokenDeclarations, "runtime"⟩, ⟨tokenDeclarations, "runtime"⟩, ⟨.empty, "runtime"⟩]

theorem writeRuns_tokenRuns :
    (writeRuns ⟨"types.d.ts"⟩ ⟨[], []⟩ tokenRuns).isOk = true := by
  obtain ⟨text, hasText⟩ : ∃ text, tokenDeclarations.render "runtime" = some text := ⟨_, rfl⟩
  have first : existingText ⟨[], []⟩ ⟨"types.d.ts"⟩ = .ok none := rfl
  have create : writeWithDirectories ⟨[], []⟩ ⟨"types.d.ts"⟩ text =
      .ok ⟨[(["types.d.ts"], .file (Bytes.ofString text))], []⟩ := rfl
  have later : existingText ⟨[(["types.d.ts"], .file (Bytes.ofString text))], []⟩ ⟨"types.d.ts"⟩ =
      .ok (some text) := existingText_of_holds rfl
  have delete : FileTree.remove ⟨[(["types.d.ts"], .file (Bytes.ofString text))], []⟩
      ⟨"types.d.ts"⟩ = .ok ⟨[], []⟩ := rfl
  have nothing : DeclarationSet.empty.render "runtime" = none := rfl
  simp [tokenRuns, writeRuns, writeDeclarations, DeclarationRun.content, hasText, nothing, first,
    create, later, delete, acting, bind, Except.bind, Except.isOk, Except.toBool]

theorem writeRuns_track_tokenRuns :
    ∃ results, writeRuns ⟨"types.d.ts"⟩ ⟨[], []⟩ tokenRuns = .ok results ∧ results.length = 3 ∧
      (∀ outcome t', results[1]? = some (outcome, t') → outcome = .unchanged) ∧
      ∀ outcome t', results[2]? = some (outcome, t') →
        t'.Holds ⟨"types.d.ts"⟩ none ∧ outcome ≠ .unchanged := by
  cases written : writeRuns ⟨"types.d.ts"⟩ ⟨[], []⟩ tokenRuns with
  | error e =>
    have ok := writeRuns_tokenRuns
    rw [written] at ok
    cases ok
  | ok results =>
    have absent : FileTree.Holds ⟨[], []⟩ ⟨"types.d.ts"⟩ none := rfl
    have integral : ∀ run ∈ tokenRuns, run.set.Integral := by
      simpa [tokenRuns, DeclarationSet.Integral, DeclarationSet.empty]
        using integral_tokenDeclarations
    obtain ⟨_, length, each⟩ := writeRuns_track absent integral written
    refine ⟨results, rfl, length, ?_, ?_⟩
    · intro outcome t' result
      exact (each 1 outcome t' _ result rfl).2.2.2
        ⟨0, _, rfl, rfl, by decide, by decide, rfl, rfl⟩
    · intro outcome t' result
      obtain ⟨holds, empty, unchanged⟩ := each 2 outcome t' _ result rfl
      exact ⟨holds, by simp [unchanged, DeclarationSet.empty]⟩

end SolidityInlay
