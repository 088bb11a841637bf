import SolidityInlay.Host.Located

/-!
# Templates

A template literal split into the raw text between its marks and its substitutions. The pieces
alternate and begin and end with text, which may be empty.

Main definitions: `Template.Parts`, `Template.parts?`, `interleave`.
-/

namespace SolidityInlay

open Host

namespace Template

/-- One `${ expression }`: the whole of it, and the expression. -/
structure Substitution where
  span : Span
  expr : Located
deriving Inhabited

structure Parts where
  segments : List Span
  substitutions : List Substitution

/-- Splits the bytes from `cursor` to `stop` at the given substitutions; fails on an empty one. -/
def split (cursor stop : Nat) : List Located → Option Parts
  | [] => if cursor ≤ stop then some ⟨[⟨cursor, stop⟩], []⟩ else none
  | s :: rest =>
    s.operand?.bind fun expr =>
      (split s.span.stop stop rest).map fun more =>
        ⟨⟨cursor, s.span.start⟩ :: more.segments, ⟨s.span, expr⟩ :: more.substitutions⟩

def quote : Char := '\x60'

def parts? (text : Text) (template : Located) : Option Parts :=
  let body := template.textIn text
  if 2 ≤ body.length && body.head? == some quote && body.getLast? == some quote then
    split (template.span.start + 1) (template.span.stop - 1)
      (template.named.filter fun c => c.node.is .templateSubstitution)
  else none

theorem mem_substitutions_of_split {cursor stop : Nat} {found : List Located} {parts : Parts}
    (h : split cursor stop found = some parts) {s : Substitution} (hs : s ∈ parts.substitutions) :
    ∃ c ∈ found, c.operand? = some s.expr ∧ c.span = s.span := by
  induction found generalizing cursor parts with
  | nil =>
    simp only [split] at h
    split at h
    · simp only [Option.some.injEq] at h
      subst h
      simp at hs
    · simp at h
  | cons c rest ih =>
    obtain ⟨expr, he, h⟩ := Option.bind_eq_some_iff.1 h
    obtain ⟨more, hm, rfl⟩ := Option.map_eq_some_iff.1 h
    rcases List.mem_cons.1 hs with rfl | hs
    · exact ⟨c, by simp, he, rfl⟩
    · obtain ⟨c', hc', he', same⟩ := ih hm hs
      exact ⟨c', by simp [hc'], he', same⟩

/-- A substitution's expression lies properly inside the template. -/
theorem sizeOf_expr_lt {text : Text} {template : Located} {parts : Parts}
    (h : parts? text template = some parts) {s : Substitution} (hs : s ∈ parts.substitutions) :
    sizeOf s.expr.node < sizeOf template.node := by
  simp only [parts?] at h
  split at h
  · obtain ⟨c, hc, he, _⟩ := mem_substitutions_of_split h hs
    have hc := Located.mem_children_of_mem_named (List.mem_filter.1 hc).1
    have := Located.sizeOf_lt_of_mem_children hc
    have := Located.sizeOf_lt_of_mem_children (Located.mem_children_of_operand? he)
    omega
  · simp at h

end Template

/-- The first list's texts with those of the second between them. -/
def interleave : List Text → List Text → Text
  | [], _ => []
  | s :: ss, [] => s ++ interleave ss []
  | s :: ss, v :: vs => s ++ v ++ interleave ss vs

end SolidityInlay
