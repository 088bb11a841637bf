import SolidityInlay.Proofs.Json
import SolidityInlay.Proofs.NameMap
import SolidityInlay.Proofs.Text
import SolidityInlay.Transform.Basic

/-!
# Transforming is an exact splice

A transformed text is the hashbang line, the import, and the rest of the text in which every
compiled site is replaced. Each of its characters is tagged with where it comes from, so that what
is kept is kept at its place and in its order, the text of unresolved sites included. The first site
that stands in the way decides the error.

Main definitions: `CharSource`, `Spliced`, `Headed`, `Rewriting`, `SiteAnalysis.Obstructs`,
`Analysis.InOrder`.
-/

namespace SolidityInlay

/-! ## Tagged text -/

/-- Where a character of a transformed text comes from. -/
inductive CharSource where
  /-- From the original text at an offset. -/
  | kept (offset : Nat)
  /-- From the expression for the site at an offset. -/
  | replaced (offset : Nat)
  /-- From the import, or the newline put after a hashbang line. -/
  | added
deriving DecidableEq, Repr

def keptFrom (offset : Nat) : Text → List (Char × CharSource)
  | [] => []
  | c :: cs => (c, .kept offset) :: keptFrom (offset + c.utf8Size) cs

def taggedWith (source : CharSource) (text : Text) : List (Char × CharSource) :=
  text.map fun c => (c, source)

theorem keptFrom_append (offset : Nat) (a b : Text) :
    keptFrom offset (a ++ b) = keptFrom offset a ++ keptFrom (offset + a.size) b := by
  induction a generalizing offset with
  | nil => simp [keptFrom]
  | cons c cs ih => simp [keptFrom, ih, Nat.add_assoc]

@[simp] theorem map_fst_keptFrom (offset : Nat) (text : Text) :
    (keptFrom offset text).map Prod.fst = text := by
  induction text generalizing offset with
  | nil => rfl
  | cons c cs ih => simp [keptFrom, ih]

@[simp] theorem map_fst_taggedWith (source : CharSource) (text : Text) :
    (taggedWith source text).map Prod.fst = text := by
  simp [taggedWith, Function.comp_def]

/-! ## What transforming does -/

/-- `out` is `text`, which begins at `offset`, with every compiled site replaced by its expression.
-/
inductive Spliced : Nat → Text → List SiteAnalysis → List (Char × CharSource) → Prop
  | done {offset : Nat} {text : Text} : Spliced offset text [] (keptFrom offset text)
  | unresolved {offset : Nat} {gap body rest : Text} {s : SiteAnalysis}
      {sites : List SiteAnalysis} {out : List (Char × CharSource)} : s.outcome = .unresolved →
      s.site.span = ⟨offset + gap.size, offset + gap.size + body.size⟩ →
      Spliced (offset + gap.size + body.size) rest sites out →
      Spliced offset (gap ++ body ++ rest) (s :: sites) (keptFrom offset (gap ++ body) ++ out)
  | compiled {offset : Nat} {gap body rest : Text} {s : SiteAnalysis} {held : HeldUnit}
      {sites : List SiteAnalysis} {out : List (Char × CharSource)} : s.outcome = .compiled held →
      s.site.span = ⟨offset + gap.size, offset + gap.size + body.size⟩ →
      Spliced (offset + gap.size + body.size) rest sites out →
      Spliced offset (gap ++ body ++ rest) (s :: sites)
        (keptFrom offset gap ++ taggedWith (.replaced s.site.span.start)
          (constructorText held.unit (s.site.name.map SiteName.value)).toList ++ out)

/-- A text begins with a hashbang line, perhaps an empty one, which is shown as `head`, ended by a
newline in any case; `rest` comes after it. -/
inductive Headed : Text → Text → List (Char × CharSource) → Text → Prop
  | plain {text : Text} : ¬ ['#', '!'] <+: text → Headed text [] [] text
  | ended {body rest : Text} : '\n' ∉ body →
      Headed ('#' :: '!' :: body ++ '\n' :: rest) ('#' :: '!' :: body ++ ['\n'])
        (keptFrom 0 ('#' :: '!' :: body ++ ['\n'])) rest
  | unended {body : Text} : '\n' ∉ body →
      Headed ('#' :: '!' :: body) ('#' :: '!' :: body)
        (keptFrom 0 ('#' :: '!' :: body) ++ taggedWith .added ['\n']) []

/-- A transformed text in its parts: the hashbang line, the import as one line, and the rest with
its sites replaced. -/
structure Rewriting (runtimeModule : String) (a : Analysis) where
  line : Text
  head : List (Char × CharSource)
  rest : Text
  statement : Text
  body : List (Char × CharSource)
  headed : Headed a.text.toList line head rest
  statement_eq : (importLine runtimeModule).toList = statement ++ ['\n']
  one_line : '\n' ∉ statement
  spliced : Spliced line.size rest a.sites body

def Rewriting.text {runtimeModule : String} {a : Analysis} (w : Rewriting runtimeModule a) :
    List (Char × CharSource) :=
  w.head ++ taggedWith .added (w.statement ++ ['\n']) ++ w.body

/-- A site that stands in the way, and the error it causes. -/
inductive SiteAnalysis.Obstructs (s : SiteAnalysis) : TransformError → Prop
  | failed {diagnostics : List Diagnostic} : s.outcome = .failed diagnostics →
      s.Obstructs (.compilation s.site.span diagnostics)
  | crashed {message : String} : s.outcome = .crashed message →
      s.Obstructs (.crashed s.site.span message)
  | unknownName {held : HeldUnit} {name : SiteName} {available : List String} :
      s.outcome = .compiled held → s.site.name = some name →
      held.unit.contract? name.value = none → available.Pairwise (· < ·) →
      (∀ n, n ∈ available ↔ (held.unit.contract? n).isSome) →
      s.Obstructs (.unknownName name.value name.span available)

/-- The sites stand in the text one after another, behind a hashbang line. -/
structure Analysis.InOrder (a : Analysis) : Prop where
  reads : ∀ s ∈ a.sites, ∃ part, Text.ReadsAt a.text.toList s.site.span part
  disjoint : a.sites.Pairwise fun s t => s.site.span.stop ≤ t.site.span.start
  behind : ∀ s ∈ a.sites, (hashbang a.text.toList).size ≤ s.site.span.start

def FirstObstruction (sites : List SiteAnalysis) (e : TransformError) : Prop :=
  ∃ before s after, sites = before ++ s :: after ∧
    (∀ t ∈ before, ∀ e', ¬ t.Obstructs e') ∧ s.Obstructs e

/-! ## Verdicts on sites -/

namespace SiteAnalysis

theorem Obstructs.replacement {s : SiteAnalysis} {e : TransformError} (h : s.Obstructs e) :
    s.replacement = .error e := by
  cases h with
  | failed ho => simp [SiteAnalysis.replacement, ho]
  | crashed ho => simp [SiteAnalysis.replacement, ho]
  | unknownName ho hn habsent sorted hmem =>
    have names := NameMap.eq_names sorted hmem
    simp only [CompiledUnit.contract?] at habsent
    simp [SiteAnalysis.replacement, ho, hn, NameMap.contains, habsent, names,
      CompiledUnit.contractNames]

def replacementText (s : SiteAnalysis) (held : HeldUnit) : Text :=
  (constructorText held.unit (s.site.name.map SiteName.value)).toList

/-- A site is left alone, replaced, or stands in the way. -/
theorem replacement_cases (s : SiteAnalysis) :
    (s.outcome = .unresolved ∧ s.replacement = .ok none) ∨
    (∃ held, s.outcome = .compiled held ∧
      s.replacement = .ok (some ⟨s.site.span, s.replacementText held⟩)) ∨
    ∃ e, s.Obstructs e := by
  cases ho : s.outcome with
  | unresolved => exact .inl ⟨rfl, by simp [replacement, ho]⟩
  | failed diagnostics => exact .inr (.inr ⟨_, .failed ho⟩)
  | crashed message => exact .inr (.inr ⟨_, .crashed ho⟩)
  | compiled held =>
    cases hn : s.site.name with
    | none => exact .inr (.inl ⟨held, rfl, by simp [replacement, ho, hn, replacementText]⟩)
    | some name =>
      cases hc : held.unit.contract? name.value with
      | none =>
        refine .inr (.inr ⟨_, .unknownName ho hn hc held.unit.contracts.pairwise_names ?_⟩)
        exact held.unit.contracts.mem_names
      | some artifact =>
        refine .inr (.inl ⟨held, rfl, ?_⟩)
        simp only [CompiledUnit.contract?] at hc
        simp [replacement, ho, hn, NameMap.contains, hc, replacementText]

end SiteAnalysis

theorem replacements_cons_ok {s : SiteAnalysis} {sites : List SiteAnalysis}
    {r : Option Replacement} (h : s.replacement = .ok r) :
    replacements (s :: sites) = (replacements sites).map fun rs => r.toList ++ rs := by
  rw [replacements, h]
  cases replacements sites <;> rfl

theorem replacements_cons_none {s : SiteAnalysis} {sites : List SiteAnalysis}
    (h : s.replacement = .ok none) : replacements (s :: sites) = replacements sites := by
  rw [replacements_cons_ok h]
  cases replacements sites <;> rfl

theorem replacements_cons_some {s : SiteAnalysis} {sites : List SiteAnalysis} {r : Replacement}
    (h : s.replacement = .ok (some r)) {rs : List Replacement}
    (hrs : replacements (s :: sites) = .ok rs) :
    ∃ more, replacements sites = .ok more ∧ rs = r :: more := by
  rw [replacements_cons_ok h] at hrs
  cases hm : replacements sites with
  | error e => simp [hm, Except.map] at hrs
  | ok more => exact ⟨more, rfl, by simpa [hm, Except.map] using hrs.symm⟩

theorem replacements_cons_error {s : SiteAnalysis} {sites : List SiteAnalysis} {e : TransformError}
    (h : s.Obstructs e) : replacements (s :: sites) = .error e := by
  rw [replacements, h.replacement]
  rfl

/-- The sites before the first obstruction have replacements, and then the error is met. -/
theorem replacements_of_firstObstruction {sites : List SiteAnalysis} {e : TransformError}
    (h : FirstObstruction sites e) : replacements sites = .error e := by
  obtain ⟨before, s, after, rfl, clear, hs⟩ := h
  induction before with
  | nil => exact replacements_cons_error hs
  | cons t before ih =>
    have rest := ih fun u hu => clear u (by simp [hu])
    rcases t.replacement_cases with ⟨_, ht⟩ | ⟨_, _, ht⟩ | ⟨e', he'⟩
    · rw [List.cons_append, replacements_cons_ok ht, rest]
      rfl
    · rw [List.cons_append, replacements_cons_ok ht, rest]
      rfl
    · exact absurd he' (clear t (by simp) e')

/-- Without an obstruction every site has its verdict. -/
theorem replacements_ok_or_firstObstruction (sites : List SiteAnalysis) :
    (∃ rs, replacements sites = .ok rs ∧ ∀ s ∈ sites, ∀ e, ¬ s.Obstructs e) ∨
      ∃ e, FirstObstruction sites e := by
  induction sites with
  | nil => exact .inl ⟨[], rfl, by simp⟩
  | cons s sites ih =>
    by_cases hs : ∃ e, s.Obstructs e
    · obtain ⟨e, hs⟩ := hs
      exact .inr ⟨e, [], s, sites, rfl, by simp, hs⟩
    · have clear : ∀ e, ¬ s.Obstructs e := fun e he => hs ⟨e, he⟩
      obtain ⟨r, hr⟩ : ∃ r, s.replacement = .ok r := by
        rcases s.replacement_cases with ⟨_, h⟩ | ⟨_, _, h⟩ | h
        · exact ⟨_, h⟩
        · exact ⟨_, h⟩
        · exact absurd h hs
      rcases ih with ⟨rs, hrs, rest⟩ | ⟨e, before, t, after, rfl, rest, ht⟩
      · refine .inl ⟨r.toList ++ rs, ?_, ?_⟩
        · rw [replacements_cons_ok hr, hrs]
          rfl
        · simpa using ⟨clear, rest⟩
      · refine .inr ⟨e, s :: before, t, after, rfl, ?_, ht⟩
        simpa using ⟨clear, rest⟩

/-- Replacing fails exactly with the error of the first obstruction. -/
theorem replacements_eq_error_iff {sites : List SiteAnalysis} {e : TransformError} :
    replacements sites = .error e ↔ FirstObstruction sites e := by
  refine ⟨fun h => ?_, replacements_of_firstObstruction⟩
  rcases replacements_ok_or_firstObstruction sites with ⟨rs, hrs, _⟩ | ⟨e', h'⟩
  · rw [hrs] at h
    cases h
  · have := replacements_of_firstObstruction h'
    rw [h, Except.error.injEq] at this
    exact this ▸ h'

/-- Nothing is to be replaced exactly if no source is known. -/
theorem replacements_eq_nil_iff {sites : List SiteAnalysis} :
    replacements sites = .ok [] ↔ ∀ s ∈ sites, s.outcome = .unresolved := by
  induction sites with
  | nil => simp [replacements]
  | cons s sites ih =>
    rcases s.replacement_cases with ⟨ho, hs⟩ | ⟨held, ho, hs⟩ | ⟨e, he⟩
    · simp [replacements_cons_none hs, ih, ho]
    · rw [replacements_cons_ok hs]
      cases replacements sites <;> simp [Except.map, ho]
    · rw [replacements_cons_error he]
      cases he <;> simp [*]

/-! ## Chunks and tagged text -/

namespace Chunk

def tagged : Chunk → List (Char × CharSource)
  | unmapped text => taggedWith .added text
  | copied text offset => keptFrom offset text
  | replacement text offset => taggedWith (.replaced offset) text

/-- The chunk refers to the text at offsets between characters, and what it copies stands there. -/
def StandsIn (text : Text) : Chunk → Prop
  | unmapped _ => True
  | copied part offset => text.ReadsAt ⟨offset, offset + part.size⟩ part
  | replacement _ offset => text.IsBoundary offset

theorem map_fst_flatMap_tagged (chunks : List Chunk) :
    (chunks.flatMap tagged).map Prod.fst = code chunks := by
  induction chunks with
  | nil => rfl
  | cons chunk rest ih =>
    simp only [List.flatMap_cons, List.map_append, ih, code]
    cases chunk <;> simp [tagged, text]

end Chunk

/-- What stands at a span behind an offset stands in the text from that offset on. -/
theorem Text.ReadsAt.split {before after : Text} {span : Span} {part : Text}
    (h : (before ++ after).ReadsAt span part) (hle : before.size ≤ span.start) :
    ∃ gap rest, after = gap ++ part ++ rest ∧
      span = ⟨before.size + gap.size, before.size + gap.size + part.size⟩ := by
  obtain ⟨p, q, eq, hs, he⟩ := h
  rw [List.append_assoc] at eq
  obtain ⟨gap, rfl, rfl⟩ := Text.exists_of_append_eq_append eq (by omega)
  refine ⟨gap, q, by simp, ?_⟩
  cases span
  simp at hs he
  simp
  omega

/-- Splicing from an offset on. The text is cut in three: what is done, what is passed over but not
yet copied, and what lies ahead, where the sites are. -/
theorem exists_spliced {text : Text} {sites : List SiteAnalysis} {rs : List Replacement}
    (hrs : replacements sites = .ok rs)
    (reads : ∀ s ∈ sites, ∃ part, text.ReadsAt s.site.span part)
    (disjoint : sites.Pairwise fun s t => s.site.span.stop ≤ t.site.span.start)
    (done pending ahead : Text) (htext : text = done ++ pending ++ ahead)
    (behind : ∀ s ∈ sites, done.size + pending.size ≤ s.site.span.start) :
    ∃ out, Spliced (done.size + pending.size) ahead sites out ∧
      (splice text done.size rs).flatMap Chunk.tagged = keptFrom done.size pending ++ out ∧
      ∀ c ∈ splice text done.size rs, c.StandsIn text := by
  induction sites generalizing rs done pending ahead with
  | nil =>
    obtain rfl : [] = rs := by simpa [replacements] using hrs
    have left : text.dropBytes done.size = pending ++ ahead := by simp [htext]
    refine ⟨_, .done, ?_, ?_⟩
    · simp [splice, left, Chunk.tagged, keptFrom_append]
    · simp only [splice, left, List.mem_singleton, forall_eq, Chunk.StandsIn]
      exact ⟨done, [], by simp [htext], rfl, rfl⟩
  | cons s sites ih =>
    obtain ⟨part, hpart⟩ := reads s (by simp)
    obtain ⟨later, disjoint⟩ := List.pairwise_cons.1 disjoint
    obtain ⟨gap, rest, rfl, hspan⟩ := (htext ▸ hpart).split (by simpa using behind s (by simp))
    simp only [Text.size_append] at hspan
    have reads' : ∀ t ∈ sites, ∃ part, text.ReadsAt t.site.span part := fun t ht =>
      reads t (by simp [ht])
    have beyond : ∀ t ∈ sites,
        done.size + pending.size + gap.size + part.size ≤ t.site.span.start := fun t ht => by
      simpa [hspan] using later t ht
    rcases s.replacement_cases with ⟨ho, hs⟩ | ⟨held, ho, hs⟩ | ⟨e, he⟩
    · -- The site is passed over with the gap before it.
      rw [replacements_cons_none hs] at hrs
      obtain ⟨out, hout, tags, stands⟩ := ih hrs reads' disjoint done (pending ++ (gap ++ part))
        rest (by simp [htext]) (fun t ht => by simpa [Nat.add_assoc] using beyond t ht)
      refine ⟨keptFrom (done.size + pending.size) (gap ++ part) ++ out,
        .unresolved ho hspan ?_, ?_, stands⟩
      · simpa [Nat.add_assoc] using hout
      · rw [tags, keptFrom_append, List.append_assoc]
    · -- What was passed over is copied, and the cursor moves behind the site.
      obtain ⟨more, hmore, rfl⟩ := replacements_cons_some hs hrs
      obtain ⟨out, hout, tags, stands⟩ := ih hmore reads' disjoint
        (done ++ pending ++ gap ++ part) [] rest (by simp [htext])
        (fun t ht => by simpa [Nat.add_assoc] using beyond t ht)
      have copied : text.ReadsAt ⟨done.size, s.site.span.start⟩ (pending ++ gap) :=
        ⟨done, part ++ rest, by simp [htext], rfl, by simp [hspan, Nat.add_assoc]⟩
      have stop : s.site.span.stop = (done ++ pending ++ gap ++ part).size := by
        simp [hspan, Nat.add_assoc]
      refine ⟨_, .compiled ho hspan (by simpa [Nat.add_assoc] using hout), ?_, ?_⟩
      · rw [splice, stop]
        simp only [List.flatMap_cons, tags, copied.slice, Chunk.tagged, keptFrom_append]
        simp [keptFrom, SiteAnalysis.replacementText]
      · rw [splice, stop]
        simp only [List.mem_cons, forall_eq_or_imp, copied.slice]
        refine ⟨?_, ?_, stands⟩
        · obtain ⟨p, q, hp, hs, _⟩ := copied
          exact ⟨p, q, hp, hs, rfl⟩
        · refine ⟨done ++ pending ++ gap, part ++ rest, by simp [htext], ?_⟩
          simp [hspan, Nat.add_assoc]
    · rw [replacements_cons_error he] at hrs
      cases hrs

/-! ## The hashbang line and the import -/

theorem hashbang_of_plain {text : Text} (h : ¬ ['#', '!'] <+: text) : hashbang text = [] := by
  unfold hashbang
  split
  · exact absurd ⟨_, rfl⟩ h
  · rfl

/-- The hashbang line goes up to the first newline. -/
theorem hashbang_line {body tail : Text} (h : '\n' ∉ body) (ht : ∀ c ∈ tail.head?, c = '\n') :
    hashbang ('#' :: '!' :: body ++ tail) = '#' :: '!' :: body ++ tail.take 1 := by
  have line : ('#' :: '!' :: body ++ tail).takeWhile (· != '\n') = '#' :: '!' :: body := by
    rw [List.takeWhile_append_of_pos (by simpa using fun c hc => ne_of_mem_of_not_mem hc h)]
    cases tail with
    | nil => simp
    | cons c tail =>
      obtain rfl := ht c (by simp)
      simp
  simp only [hashbang, List.cons_append] at line ⊢
  rw [line]
  simp

theorem prologue_ended (line : Text) :
    prologue (line ++ ['\n']) = [.copied (line ++ ['\n']) 0] := by
  simp [prologue]

/-- A hashbang line that ends with the text is given a newline. -/
theorem prologue_unended {line : Text} (hne : line ≠ []) (h : '\n' ∉ line) :
    prologue line = [.copied line 0, .unmapped ['\n']] := by
  have hlast := List.getLast?_eq_some_getLast hne
  have : line.getLast hne ≠ '\n' := ne_of_mem_of_not_mem (List.getLast_mem hne) h
  unfold prologue
  rw [hlast]
  split <;> simp_all

/-- The hashbang line of a text, as it is shown. -/
theorem exists_headed (text : Text) :
    ∃ rest, text = hashbang text ++ rest ∧
      Headed text (hashbang text) ((prologue (hashbang text)).flatMap Chunk.tagged) rest ∧
      ∀ c ∈ prologue (hashbang text), c.StandsIn text := by
  by_cases h : ['#', '!'] <+: text
  · obtain ⟨tail, rfl⟩ := h
    by_cases hn : '\n' ∈ tail
    · obtain ⟨body, rest, rfl, hb⟩ := List.eq_append_cons_of_mem hn
      have line : hashbang (['#', '!'] ++ (body ++ '\n' :: rest)) = '#' :: '!' :: body ++ ['\n'] :=
        hashbang_line hb (by simp)
      rw [line, prologue_ended]
      refine ⟨rest, by simp, ?_, ?_⟩
      · simpa [Chunk.tagged] using Headed.ended hb
      · simp only [List.mem_singleton, forall_eq, Chunk.StandsIn]
        exact ⟨[], rest, by simp, rfl, by simp⟩
    · have line : hashbang (['#', '!'] ++ tail) = '#' :: '!' :: tail := by
        simpa using @hashbang_line tail [] hn (by simp)
      rw [line, prologue_unended (by simp) (by simpa using hn)]
      refine ⟨[], by simp, ?_, ?_⟩
      · simpa [Chunk.tagged] using Headed.unended hn
      · simp only [List.mem_cons, forall_eq_or_imp, Chunk.StandsIn]
        exact ⟨⟨[], [], by simp, rfl, by simp⟩, trivial, by simp⟩
  · rw [hashbang_of_plain h]
    exact ⟨text, rfl, .plain h, by simp [prologue]⟩

/-- The import is one line. -/
theorem exists_importLine (runtimeModule : String) :
    ∃ statement, (importLine runtimeModule).toList = statement ++ ['\n'] ∧ '\n' ∉ statement := by
  have quoted : '\n' ∉ (Json.quote runtimeModule).toList := by
    intro h
    rw [Json.quote, String.toList_ofList] at h
    exact absurd (Json.le_toNat_of_mem_quoteText h) (by decide)
  -- Literals are kept apart from the general law: unifying with them would unfold them.
  have apart (x y z : String) : (x ++ y ++ z).toList = x.toList ++ y.toList ++ z.toList := by simp
  have parts := apart ("import \x7b Artifacts as " ++ artifactsName ++ " \x7d from ")
    (Json.quote runtimeModule) ";\n"
  have closed : (";\n" : String).toList = [';'] ++ ['\n'] := by decide
  rw [closed, ← List.append_assoc] at parts
  refine ⟨_, parts, ?_⟩
  simp only [List.mem_append, List.mem_singleton, not_or]
  exact ⟨⟨by decide, quoted⟩, by decide⟩

/-! ## The splice is exact -/

def transformedWith (runtimeModule : String) (a : Analysis) (rs : List Replacement) :
    Transformed where
  code := String.ofList (Chunk.code (transformedChunks runtimeModule a.text.toList rs))
  map := .ofChunks (a.path.fileName?.getD "") (.ofText a.text.toList)
    (transformedChunks runtimeModule a.text.toList rs)

/-- The three ways in which a transformation ends. -/
theorem transform_cases (runtimeModule : String) (a : Analysis) :
    (∃ e, replacements a.sites = .error e ∧ transform runtimeModule a = .error e) ∨
    (replacements a.sites = .ok [] ∧ transform runtimeModule a = .ok none) ∨
    ∃ rs, replacements a.sites = .ok rs ∧ rs ≠ [] ∧
      transform runtimeModule a = .ok (some (transformedWith runtimeModule a rs)) := by
  cases h : replacements a.sites with
  | error e =>
    refine .inl ⟨e, rfl, ?_⟩
    rw [transform, h]
    rfl
  | ok rs =>
    cases rs with
    | nil =>
      refine .inr (.inl ⟨rfl, ?_⟩)
      rw [transform, h]
      rfl
    | cons r rs =>
      refine .inr (.inr ⟨r :: rs, rfl, by simp, ?_⟩)
      rw [transform, h]
      rfl

theorem transform_eq_none_iff {runtimeModule : String} {a : Analysis} :
    transform runtimeModule a = .ok none ↔ replacements a.sites = .ok [] := by
  rcases transform_cases runtimeModule a with ⟨e, hr, ht⟩ | ⟨hr, ht⟩ | ⟨rs, hr, hne, ht⟩
  · simp [hr, ht]
  · simp [hr, ht]
  · simp [hr, ht, hne]

/-- A transformation fails exactly with the error of the first obstruction. -/
theorem transform_eq_error_iff {runtimeModule : String} {a : Analysis} {e : TransformError} :
    transform runtimeModule a = .error e ↔ FirstObstruction a.sites e := by
  rw [← replacements_eq_error_iff]
  rcases transform_cases runtimeModule a with ⟨e, hr, ht⟩ | ⟨hr, ht⟩ | ⟨rs, hr, hne, ht⟩
  · simp [hr, ht]
  · simp [hr, ht]
  · simp [hr, ht]

theorem transform_eq_some_iff {runtimeModule : String} {a : Analysis} {out : Transformed} :
    transform runtimeModule a = .ok (some out) ↔
      ∃ rs, replacements a.sites = .ok rs ∧ rs ≠ [] ∧ out = transformedWith runtimeModule a rs := by
  rcases transform_cases runtimeModule a with ⟨e, hr, ht⟩ | ⟨hr, ht⟩ | ⟨rs, hr, hne, ht⟩
  · simp [hr, ht]
  · simp [hr, ht]
  · simp [hr, ht, hne, eq_comm]

theorem exists_firstObstruction_iff {sites : List SiteAnalysis} :
    (∃ e, FirstObstruction sites e) ↔ ∃ s ∈ sites, ∃ e, s.Obstructs e := by
  constructor
  · rintro ⟨e, before, s, after, rfl, _, hs⟩
    exact ⟨s, by simp, e, hs⟩
  · rintro ⟨s, hs, e, he⟩
    rcases replacements_ok_or_firstObstruction sites with ⟨_, _, clear⟩ | h
    · exact absurd he (clear s hs e)
    · exact h

/-- The chunks of a transformed text are a rewriting, and refer to the text properly. -/
theorem exists_rewriting {a : Analysis} (h : a.InOrder) (runtimeModule : String)
    {rs : List Replacement} (hrs : replacements a.sites = .ok rs) :
    ∃ w : Rewriting runtimeModule a,
      w.head = (prologue (hashbang a.text.toList)).flatMap Chunk.tagged ∧
      (transformedChunks runtimeModule a.text.toList rs).flatMap Chunk.tagged = w.text ∧
      ∀ c ∈ transformedChunks runtimeModule a.text.toList rs, c.StandsIn a.text.toList := by
  obtain ⟨rest, htext, headed, standsHead⟩ := exists_headed a.text.toList
  obtain ⟨statement, hline, single⟩ := exists_importLine runtimeModule
  obtain ⟨out, spliced, tags, standsRest⟩ := exists_spliced hrs h.reads h.disjoint
    (hashbang a.text.toList) [] rest (by simpa using htext) (by simpa using h.behind)
  refine ⟨⟨_, _, rest, statement, out, headed, hline, single, by simpa using spliced⟩, rfl, ?_, ?_⟩
  · simp only [transformedChunks, List.flatMap_append, List.flatMap_cons, tags, Rewriting.text]
    simp [Chunk.tagged, hline, keptFrom]
  · simp only [transformedChunks, List.mem_append, List.mem_cons]
    rintro c (hc | rfl | hc)
    · exact standsHead c hc
    · trivial
    · exact standsRest c hc

/-- Transforming leaves a file alone exactly if no site is resolved, fails exactly with the error of
the first site in the way, and is otherwise an exact splice. -/
theorem transform_exact_splice (runtimeModule : String) (a : Analysis) (h : a.InOrder) :
    (transform runtimeModule a = .ok none ↔ ∀ s ∈ a.sites, s.outcome = .unresolved) ∧
    ((∃ e, transform runtimeModule a = .error e) ↔ ∃ s ∈ a.sites, ∃ e, s.Obstructs e) ∧
    (∀ e, transform runtimeModule a = .error e ↔ FirstObstruction a.sites e) ∧
    ((∃ s ∈ a.sites, s.outcome ≠ .unresolved) → (∀ s ∈ a.sites, ∀ e, ¬ s.Obstructs e) →
      ∃ out, transform runtimeModule a = .ok (some out) ∧
        ∃ w : Rewriting runtimeModule a, out.code.toList = w.text.map Prod.fst) := by
  refine ⟨?_, ?_, ?_, ?_⟩
  · rw [transform_eq_none_iff, replacements_eq_nil_iff]
  · simp only [transform_eq_error_iff]
    exact exists_firstObstruction_iff
  · intro e
    exact transform_eq_error_iff
  · intro ⟨s, hs, resolved⟩ clear
    rcases replacements_ok_or_firstObstruction a.sites with ⟨rs, hrs, _⟩ | ⟨e, hfirst⟩
    · have some_rs : rs ≠ [] := by
        rintro rfl
        exact resolved (replacements_eq_nil_iff.1 hrs s hs)
      obtain ⟨w, _, tags, _⟩ := exists_rewriting h runtimeModule hrs
      refine ⟨_, transform_eq_some_iff.2 ⟨rs, hrs, some_rs, rfl⟩, w, ?_⟩
      rw [← tags, Chunk.map_fst_flatMap_tagged, transformedWith, String.toList_ofList]
    · obtain ⟨t, ht, he⟩ := exists_firstObstruction_iff.1 ⟨e, hfirst⟩
      exact absurd he.choose_spec (clear t ht _)

/-! ## An example -/

/-- A file with a hashbang line, a site without a known source, and one that is compiled. -/
def mixedAnalysis : Analysis where
  path := ⟨"a.ts"⟩
  text := "#!/bin\nsol\x60A$\x7bx\x7d\x60;sol\x60B\x60\n"
  language := .typescript
  sites := [
    { site := {
        name := none, marker := ⟨7, 10⟩, span := ⟨7, 17⟩, template := ⟨10, 17⟩
        segments := [⟨"A", ⟨11, 12⟩⟩, ⟨"", ⟨16, 16⟩⟩]
        interpolations := [⟨⟨14, 15⟩, ⟨12, 16⟩, none⟩], source := none }
      outcome := .unresolved },
    { site := {
        name := none, marker := ⟨18, 21⟩, span := ⟨18, 24⟩, template := ⟨21, 24⟩
        segments := [⟨"B", ⟨22, 23⟩⟩], interpolations := [], source := some "B" }
      outcome := .compiled ⟨0, ⟨"00", .empty, []⟩⟩ }]

theorem inOrder_mixedAnalysis : mixedAnalysis.InOrder where
  reads := by
    have first : Text.ReadsAt mixedAnalysis.text.toList ⟨7, 17⟩ "sol\x60A$\x7bx\x7d\x60".toList :=
      ⟨"#!/bin\n".toList, ";sol\x60B\x60\n".toList, by decide, by decide, by decide⟩
    have second : Text.ReadsAt mixedAnalysis.text.toList ⟨18, 24⟩ "sol\x60B\x60".toList :=
      ⟨"#!/bin\nsol\x60A$\x7bx\x7d\x60;".toList, "\n".toList, by decide, by decide, by decide⟩
    simp only [mixedAnalysis, List.forall_mem_cons, List.not_mem_nil, false_implies, implies_true,
      and_true]
    exact ⟨⟨_, first⟩, ⟨_, second⟩⟩
  disjoint := by simp [mixedAnalysis]
  behind := by decide

/-- The example is spliced: nothing in it stands in the way, and a site is resolved. -/
theorem exact_splice_mixedAnalysis :
    mixedAnalysis.InOrder ∧
      ∃ out, transform "solx" mixedAnalysis = .ok (some out) ∧
        ∃ w : Rewriting "solx" mixedAnalysis, out.code.toList = w.text.map Prod.fst := by
  refine ⟨inOrder_mixedAnalysis, ?_⟩
  refine (transform_exact_splice "solx" mixedAnalysis inOrder_mixedAnalysis).2.2.2 ?_ ?_
  · simp [mixedAnalysis]
  · simp only [mixedAnalysis, List.forall_mem_cons, List.not_mem_nil, false_implies, implies_true,
      and_true]
    exact ⟨fun e h => by cases h <;> simp_all, fun e h => by cases h <;> simp_all⟩

end SolidityInlay
