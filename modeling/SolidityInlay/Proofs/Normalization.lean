import Mathlib.Data.List.Forall2
import SolidityInlay.Compile.Normalize
import SolidityInlay.Proofs.Hex
import SolidityInlay.Proofs.NameMap

/-!
# What a response becomes

A response becomes the list of its diagnostics if one of its reports is an error or one of its codes
cannot be read, and a unit otherwise. Nothing is lost on the way: there is one diagnostic for each
report and one more for each code that cannot be read, and the codes of a unit are written again as
they were reported, but for the case of digits and leading `0x`.

Main definitions: `Response.IsFaulty`, `Response.Explains`, `Response.Yields`. Main statement:
`normalize_splits`.
-/

namespace SolidityInlay

/-! ## Responses -/

def InAnyCase (word text : String) : Prop :=
  List.Forall₂ (fun w c => c = w ∨ c = w.toUpper) word.toList text.toList

/-- The diagnostic says what the report says, at its place if that is in the compiled file. -/
structure Report.Conveys (r : Report) (d : Diagnostic) : Prop where
  error : d.severity = .error ↔ InAnyCase "error" r.severity
  warning : d.severity = .warning ↔ InAnyCase "warning" r.severity
  message : d.message = r.message
  formatted : d.formatted = r.formatted
  span : ∀ s, d.span = some s ↔ ∃ l, r.location = some l ∧ l.file = "Inline.sol" ∧
    0 ≤ l.start ∧ l.start ≤ l.stop ∧ (s.start : Int) = l.start ∧ (s.stop : Int) = l.stop

/-- The digits of code, behind every leading `0x`. -/
def Code.IsStripped (object digits : Text) : Prop :=
  (∃ n, object = (List.replicate n ['0', 'x']).flatten ++ digits) ∧ ¬ ['0', 'x'] <+: digits

structure ReportedCode where
  contract : String
  kind : String
  object : String

namespace ReportedCode

def Readable (c : ReportedCode) : Prop :=
  ∃ digits, Code.IsStripped c.object.toList digits ∧ Hex.IsText digits

def subject (c : ReportedCode) : String := c.kind ++ " bytecode of \x60" ++ c.contract ++ "\x60 "

structure Blames (c : ReportedCode) (d : Diagnostic) : Prop where
  error : d.severity = .error
  span : d.span = none
  unlinked : ['_', '_', '$'] <:+: c.object.toList →
    d.message = c.subject ++ "references unlinked libraries"
  invalid : ¬ ['_', '_', '$'] <:+: c.object.toList →
    ∃ reason, d.message = c.subject ++ "is not valid hex: " ++ reason

end ReportedCode

def Code.Rewrites (object written : String) : Prop :=
  ∃ digits, IsStripped object.toList digits ∧
    written.toList = '0' :: 'x' :: digits.map Char.toLower

/-- The artifact has the interface and the code that were reported for its name. -/
structure ContractOutput.Describes (output : String × ContractOutput) (entry : String × Artifact) :
    Prop where
  name : entry.1 = output.1
  abi : entry.2.abi = output.2.abi
  creation : Code.Rewrites output.2.creation entry.2.creationHex
  deployed : Code.Rewrites output.2.deployed entry.2.deployedHex

namespace Response

def inlineContracts (r : Response) : NameMap ContractOutput :=
  (r.contracts.get? "Inline.sol").getD .empty

def codes (r : Response) : List ReportedCode :=
  r.inlineContracts.entries.flatMap fun e =>
    [⟨e.1, "creation", e.2.creation⟩, ⟨e.1, "deployed", e.2.deployed⟩]

/-- A report is an error or a code cannot be read. -/
def IsFaulty (r : Response) : Prop :=
  (∃ report ∈ r.reports, InAnyCase "error" report.severity) ∨ ∃ c ∈ r.codes, ¬ c.Readable

open Classical in
/-- One diagnostic for each report, then one for each code that cannot be read. -/
def Explains (r : Response) (ds : List Diagnostic) : Prop :=
  ∃ reported problems, ds = reported ++ problems ∧
    List.Forall₂ Report.Conveys r.reports reported ∧
    List.Forall₂ ReportedCode.Blames (r.codes.filter fun c => ¬ c.Readable) problems

/-- The unit has what was reported of each contract, and a diagnostic for each report. -/
structure Yields (r : Response) (key : String) (u : CompiledUnit) : Prop where
  key : u.key = key
  contracts : List.Forall₂ ContractOutput.Describes r.inlineContracts.entries u.contracts.entries
  diagnostics : List.Forall₂ Report.Conveys r.reports u.diagnostics
  clean : ∀ d ∈ u.diagnostics, d.severity ≠ .error

end Response

/-! ## Reports -/

theorem toLower_eq_iff {w c : Char} (h : w.isLower) : c.toLower = w ↔ c = w ∨ c = w.toUpper := by
  -- only letters of ASCII change, so either side leaves finitely many characters to look at
  have upper : ∀ n < 91, Char.ofNat n = (Char.ofNat n).toLower ∨
      Char.ofNat n = (Char.ofNat n).toLower.toUpper := by decide
  have lower : ∀ n < 123, (Char.ofNat n).isLower → (Char.ofNat n).toLower = Char.ofNat n ∧
      (Char.ofNat n).toUpper.toLower = Char.ofNat n := by decide
  constructor
  · rintro rfl
    by_cases small : c.toNat < 91
    · simpa using upper c.toNat small
    · left
      have above : ¬ (c.val ≥ 'A'.val ∧ c.val ≤ 'Z'.val) := by
        rintro ⟨-, le⟩
        exact small (Nat.lt_succ_of_le le)
      have fixed : c.toLower = c := dif_neg above
      exact fixed.symm
  · have small : w.toNat < 123 := by
      have le : w.val ≤ 'z'.val := of_decide_eq_true (Bool.and_eq_true_iff.1 h).2
      exact Nat.lt_succ_of_le le
    have fixed := lower w.toNat small
    rw [Char.ofNat_toNat] at fixed
    rintro (rfl | rfl)
    · exact (fixed h).1
    · exact (fixed h).2

theorem map_toLower_eq_iff {word : String} (h : word.toList.all Char.isLower) (text : String) :
    text.map Char.toLower = word ↔ InAnyCase word text := by
  rw [InAnyCase, ← String.toList_inj, String.toList_map]
  rw [List.all_eq_true] at h
  generalize word.toList = word at h
  generalize text.toList = text
  induction text generalizing word with
  | nil => cases word <;> simp
  | cons c text ih =>
    cases word with
    | nil => simp
    | cons w word =>
      rw [List.map_cons, List.cons.injEq, List.forall₂_cons, toLower_eq_iff (h w (by simp)),
        ih word fun v hv => h v (by simp [hv])]

theorem Report.conveys_ofReport (r : Report) : r.Conveys (.ofReport r) where
  error := by
    rw [← map_toLower_eq_iff (by decide)]
    simp only [Diagnostic.ofReport, Severity.ofString]
    split_ifs <;> simp_all
  warning := by
    rw [← map_toLower_eq_iff (by decide)]
    simp only [Diagnostic.ofReport, Severity.ofString]
    split_ifs <;> simp_all
  message := rfl
  formatted := rfl
  span s := by
    simp only [Diagnostic.ofReport, Option.bind_eq_some_iff, inlineFile]
    refine exists_congr fun l => and_congr_right fun _ => ?_
    obtain ⟨start, stop⟩ := s
    split_ifs <;> grind

/-! ## Codes -/

namespace Code

theorem isStripped_strip (object : Text) : IsStripped object (strip object) := by
  fun_induction strip object with
  | case1 rest ih =>
    obtain ⟨⟨n, split⟩, rest⟩ := ih
    refine ⟨⟨n + 1, ?_⟩, rest⟩
    rw [List.replicate_succ, List.flatten_cons, List.append_assoc, ← split]
    rfl
  | case2 cs other =>
    refine ⟨⟨0, rfl⟩, ?_⟩
    rintro ⟨rest, rfl⟩
    exact other rest rfl

theorem strip_of_isStripped {object digits : Text} (h : IsStripped object digits) :
    strip object = digits := by
  obtain ⟨⟨n, rfl⟩, bare⟩ := h
  induction n with
  | zero =>
    rw [List.replicate_zero, List.flatten_nil, List.nil_append]
    unfold strip
    split
    · exact absurd (List.prefix_append ['0', 'x'] _) bare
    · rfl
  | succ n ih =>
    rw [List.replicate_succ, List.flatten_cons, List.append_assoc]
    exact ih

/-- A placeholder is told by its mark, wherever it stands. -/
theorem hasPlaceholder_iff {text : Text} :
    hasPlaceholder text = true ↔ ['_', '_', '$'] <:+: text := by
  fun_induction hasPlaceholder text with
  | case1 rest => simpa using (List.prefix_append ['_', '_', '$'] rest).isInfix
  | case2 c rest other ih =>
    rw [ih, List.infix_cons_iff, or_iff_right]
    rintro ⟨behind, split⟩
    rw [List.cons_append, List.cons.injEq] at split
    exact other behind split.1.symm split.2.symm
  | case3 => simp

theorem hasPlaceholder_strip (object : Text) :
    hasPlaceholder (strip object) = hasPlaceholder object := by
  -- no placeholder begins with what is dropped
  fun_induction strip object with
  | case1 rest ih => exact ih
  | case2 => rfl

end Code

/-- Code is readable exactly if pairs of digits are left of it. -/
theorem ReportedCode.readable_iff {c : ReportedCode} :
    c.Readable ↔ Hex.IsText (Code.strip c.object.toList) := by
  constructor
  · rintro ⟨digits, stripped, text⟩
    rwa [Code.strip_of_isStripped stripped]
  · intro text
    exact ⟨_, Code.isStripped_strip _, text⟩

theorem Code.decode_eq_ok_iff {name kind object : String} {bytes : Bytes} :
    decode name kind object = .ok bytes ↔ Hex.Spells (strip object.toList) bytes := by
  rw [← String.toList_ofList (l := strip object.toList), ← Hex.decode_eq_ok_iff]
  simp only [decode]
  cases Hex.decode (String.ofList (strip object.toList)) <;> simp

theorem Code.exists_problem_of_decode {name kind object : String} {d : Diagnostic}
    (h : decode name kind object = .error d) :
    ∃ e, d = problem name kind (strip object.toList) e := by
  simp only [decode] at h
  split at h
  · cases h
  · rename_i e _
    cases h
    exact ⟨e, rfl⟩

namespace ReportedCode

variable {c : ReportedCode}

def problem? (c : ReportedCode) : Option Diagnostic :=
  match Code.decode c.contract c.kind c.object with
  | .ok _ => none
  | .error d => some d

/-- There is a complaint about code exactly if it cannot be read. -/
theorem problem?_eq_none_iff : c.problem? = none ↔ c.Readable := by
  rw [readable_iff]
  constructor
  · intro h
    unfold problem? at h
    split at h
    · rename_i read
      exact (Code.decode_eq_ok_iff.1 read).isText
    · cases h
  · intro text
    obtain ⟨bytes, spells⟩ := text.exists_spells
    rw [problem?, Code.decode_eq_ok_iff.2 spells]

theorem blames_of_problem? {d : Diagnostic} (h : c.problem? = some d) : c.Blames d := by
  obtain ⟨e, rfl⟩ : ∃ e, d = Code.problem c.contract c.kind (Code.strip c.object.toList) e := by
    unfold problem? at h
    split at h
    · cases h
    · rename_i failed
      cases h
      exact Code.exists_problem_of_decode failed
  refine ⟨rfl, rfl, fun unlinked => ?_, fun linked => ?_⟩
  · rw [← Code.hasPlaceholder_iff, ← Code.hasPlaceholder_strip] at unlinked
    simp only [Code.problem, unlinked, if_true]
    rfl
  · rw [← Code.hasPlaceholder_iff, ← Code.hasPlaceholder_strip] at linked
    refine ⟨e.message, ?_⟩
    simp only [Code.problem, linked]
    rfl

open Classical in
/-- The complaints are about the unreadable codes, in their order. -/
theorem forall₂_blames (codes : List ReportedCode) :
    List.Forall₂ Blames (codes.filter fun c => ¬ c.Readable) (codes.filterMap problem?) := by
  induction codes with
  | nil => exact .nil
  | cons c codes ih =>
    cases found : c.problem? with
    | none =>
      have readable := problem?_eq_none_iff.1 found
      rwa [List.filterMap_cons_none found, List.filter_cons_of_neg (by simpa using readable)]
    | some d =>
      have unreadable : ¬ c.Readable := by
        rw [← problem?_eq_none_iff, found]
        exact Option.some_ne_none d
      rw [List.filterMap_cons_some found, List.filter_cons_of_pos (by simpa using unreadable)]
      exact .cons (blames_of_problem? found) ih

end ReportedCode

/-! ## Contracts -/

namespace ContractOutput

/-- Each contract has the complaints about its creation code and then its deployed code. -/
theorem problems_artifact (name : String) (c : ContractOutput) :
    (c.artifact name).2 = [⟨name, "creation", c.creation⟩, ⟨name, "deployed", c.deployed⟩].filterMap
      ReportedCode.problem? := by
  simp only [artifact, ReportedCode.problem?, List.filterMap_cons, List.filterMap_nil]
  cases Code.decode name "creation" c.creation <;> cases Code.decode name "deployed" c.deployed <;>
    rfl

/-- Readable code is written again as it was reported. -/
theorem rewrites_of_readable {name kind object : String}
    (h : ReportedCode.Readable ⟨name, kind, object⟩) :
    Code.Rewrites object
      ("0x" ++ Hex.encodeString ((Code.decode name kind object).toOption.getD [])) := by
  obtain ⟨bytes, spells⟩ := (ReportedCode.readable_iff.1 h).exists_spells
  refine ⟨_, Code.isStripped_strip _, ?_⟩
  have read : (Code.decode name kind object).toOption.getD [] = bytes := by
    rw [Code.decode_eq_ok_iff.2 spells]
    rfl
  rw [read, ← spells.encode_eq]
  simp [Hex.encodeString]

/-- A contract whose codes can be read is described by its artifact. -/
theorem describes_artifact {name : String} {c : ContractOutput}
    (creation : ReportedCode.Readable ⟨name, "creation", c.creation⟩)
    (deployed : ReportedCode.Readable ⟨name, "deployed", c.deployed⟩) :
    Describes (name, c) (name, (c.artifact name).1) where
  name := rfl
  abi := rfl
  creation := by
    simp only [artifact, Artifact.creationHex]
    exact rewrites_of_readable creation
  deployed := by
    simp only [artifact, Artifact.deployedHex]
    exact rewrites_of_readable deployed

end ContractOutput

/-! ## Responses and what they become -/

namespace Response

def diagnostics (r : Response) : List Diagnostic :=
  r.reports.map .ofReport ++ r.codes.filterMap ReportedCode.problem?

theorem forall₂_conveys (r : Response) :
    List.Forall₂ Report.Conveys r.reports (r.reports.map .ofReport) := by
  rw [List.forall₂_map_right_iff, List.forall₂_same]
  exact fun report _ => report.conveys_ofReport

/-- The diagnostics of a response are those of its reports and then those of its codes. -/
theorem explains_diagnostics (r : Response) : r.Explains r.diagnostics := by
  exact ⟨_, _, rfl, r.forall₂_conveys, ReportedCode.forall₂_blames _⟩

/-- A response has an error among its diagnostics exactly if it is faulty. -/
theorem any_isError_diagnostics (r : Response) :
    r.diagnostics.any Diagnostic.isError = true ↔ r.IsFaulty := by
  rw [diagnostics, List.any_append, Bool.or_eq_true, IsFaulty]
  refine or_congr ?_ ?_
  · simp only [List.any_map, List.any_eq_true, Function.comp_apply, Diagnostic.isError, beq_iff_eq]
    exact exists_congr fun report => and_congr_right fun _ => report.conveys_ofReport.error
  · simp only [List.any_eq_true, List.mem_filterMap]
    constructor
    · rintro ⟨d, ⟨c, hc, problem⟩, -⟩
      refine ⟨c, hc, ?_⟩
      rw [← ReportedCode.problem?_eq_none_iff, problem]
      exact Option.some_ne_none d
    · rintro ⟨c, hc, unreadable⟩
      obtain ⟨d, problem⟩ :=
        Option.ne_none_iff_exists'.1 (mt ReportedCode.problem?_eq_none_iff.1 unreadable)
      have error := (ReportedCode.blames_of_problem? problem).error
      exact ⟨d, ⟨c, hc, problem⟩, by simpa [Diagnostic.isError] using error⟩

def unit (r : Response) (key : String) : CompiledUnit :=
  ⟨key, r.inlineContracts.mapWithName fun name c => (c.artifact name).1, r.diagnostics⟩

/-- A response without faults yields a unit with all its contracts. -/
theorem yields_unit {r : Response} (sound : ¬ r.IsFaulty) (key : String) :
    r.Yields key (r.unit key) := by
  have readable : ∀ c ∈ r.codes, c.Readable := fun c hc =>
    Classical.byContradiction fun unreadable => sound (.inr ⟨c, hc, unreadable⟩)
  have none : r.codes.filterMap ReportedCode.problem? = [] :=
    List.filterMap_eq_nil_iff.2 fun c hc => ReportedCode.problem?_eq_none_iff.2 (readable c hc)
  refine ⟨rfl, ?_, ?_, ?_⟩
  · rw [unit, NameMap.mapWithName, List.forall₂_map_right_iff, List.forall₂_same]
    intro e he
    have code (c : ReportedCode) (hc : c ∈ [⟨e.1, "creation", e.2.creation⟩,
        ⟨e.1, "deployed", e.2.deployed⟩]) : c.Readable :=
      readable c (List.mem_flatMap.2 ⟨e, he, hc⟩)
    exact ContractOutput.describes_artifact (code _ (by simp)) (code _ (by simp))
  · rw [unit, diagnostics, none, List.append_nil]
    exact r.forall₂_conveys
  · intro d hd error
    refine sound (r.any_isError_diagnostics.1 (List.any_eq_true.2 ⟨d, hd, ?_⟩))
    rw [Diagnostic.isError, error]
    rfl

end Response

theorem normalize_eq (key : String) (r : Response) :
    normalize key r =
      if r.diagnostics.any Diagnostic.isError then .error r.diagnostics else .ok (r.unit key) := by
  have problems : ((r.inlineContracts.mapWithName ContractOutput.artifact).entries.flatMap
      fun e => e.2.2) = r.codes.filterMap ReportedCode.problem? := by
    simp only [Response.codes, List.filterMap_flatMap, NameMap.mapWithName, List.flatMap_map,
      ContractOutput.problems_artifact]
  have contracts : (r.inlineContracts.mapWithName ContractOutput.artifact).mapWithName
      (fun _ a => a.1) = r.inlineContracts.mapWithName fun name c => (c.artifact name).1 := by
    apply NameMap.ext_entries
    simp only [NameMap.mapWithName, List.map_map]
    rfl
  rw [Response.unit, Response.diagnostics, ← problems, ← contracts]
  rfl

/-- A response with a fault becomes the list of all its diagnostics, and any other a unit with all
that was reported. -/
theorem normalize_splits (key : String) (r : Response) :
    ((∃ ds, normalize key r = .error ds) ↔ r.IsFaulty) ∧
    (∀ ds, normalize key r = .error ds → r.Explains ds) ∧
    ∀ u, normalize key r = .ok u → r.Yields key u := by
  rw [normalize_eq]
  split_ifs with faults
  · refine ⟨⟨fun _ => r.any_isError_diagnostics.1 faults, fun _ => ⟨_, rfl⟩⟩, ?_, nofun⟩
    rintro _ ⟨⟩
    exact r.explains_diagnostics
  · have sound : ¬ r.IsFaulty := mt r.any_isError_diagnostics.2 faults
    refine ⟨⟨nofun, fun faulty => absurd faulty sound⟩, nofun, ?_⟩
    rintro _ ⟨⟩
    exact Response.yields_unit sound key

/-- A warning, and a contract whose code is written with prefixes and capitals. -/
def warningResponse : Response where
  contracts := NameMap.ofList [("Inline.sol", .ofList [("Token", ⟨[.null], "0x0xAb", "6000"⟩)])]
  reports := [⟨"Warning", "unused", none, some ⟨"Inline.sol", 2, 5⟩⟩]

/-- An error at no place, and a contract that needs a library and has half a byte. -/
def errorResponse : Response where
  contracts := NameMap.ofList [("Inline.sol", .ofList [("Token", ⟨[], "60__$ab$__", "600"⟩)])]
  reports := [⟨"ERROR", "expected ;", none, some ⟨"Inline.sol", -1, -1⟩⟩]

theorem normalize_warning_error :
    (∃ ds, normalize "k" errorResponse = .error ds ∧ errorResponse.Explains ds) ∧
      ∃ u, normalize "k" warningResponse = .ok u ∧ warningResponse.Yields "k" u := by
  constructor
  · have faulty : errorResponse.IsFaulty := by
      refine .inl ⟨_, List.mem_singleton_self _, ?_⟩
      exact .cons (by decide) (.cons (by decide) (.cons (by decide) (.cons (by decide)
        (.cons (by decide) .nil))))
    obtain ⟨split, explains, -⟩ := normalize_splits "k" errorResponse
    obtain ⟨ds, answer⟩ := split.2 faulty
    exact ⟨ds, answer, explains ds answer⟩
  · have sound : ¬ warningResponse.IsFaulty := by
      rintro (⟨report, member, error⟩ | ⟨c, member, unreadable⟩)
      · rw [List.mem_singleton.1 member] at error
        exact absurd error.length_eq (by decide)
      · rw [ReportedCode.readable_iff] at unreadable
        have texts : ∀ c ∈ warningResponse.codes,
            Hex.IsText (Code.strip c.object.toList) := by decide
        exact unreadable (texts c member)
    obtain ⟨split, -, yields⟩ := normalize_splits "k" warningResponse
    cases answer : normalize "k" warningResponse with
    | error ds => exact absurd (split.1 ⟨ds, answer⟩) sound
    | ok u => exact ⟨u, rfl, yields u answer⟩

end SolidityInlay
