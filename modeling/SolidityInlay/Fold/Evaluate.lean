import SolidityInlay.Fold.Binding
import SolidityInlay.Fold.Shape
import SolidityInlay.Fold.StringLiteral

/-!
# Folding expressions to strings

The string an expression is known to have: literals, templates, sums, and names bound by `const`. A
name is followed into the initializer that declares it, unless it stands inside that declaration or
the declaration is already being followed. A declaration is entered at most once on the way down and
there are finitely many, so folding ends on every tree.

Main definitions: `fold`, `foldExpression`.
-/

namespace SolidityInlay

open Host

/-! ## Places of a tree -/

namespace Host

mutual

def Node.places (here : Place) : Node → List Place
  | .mk _ _ _ children => here :: Node.placesFrom here 0 children

/-- The places of the children from number `i` on. -/
def Node.placesFrom (parent : Place) (i : Nat) : List Node → List Place
  | [] => []
  | n :: ns => Node.places (i :: parent) n ++ Node.placesFrom parent (i + 1) ns

end

theorem Node.self_mem_places (p : Place) (n : Node) : p ∈ n.places p := by
  cases n; simp [Node.places]

theorem Node.places_subset_placesFrom {parent : Place} {ns : List Node} {k i : Nat} {n : Node}
    (h : ns[k]? = some n) :
    ∀ x ∈ n.places ((i + k) :: parent), x ∈ Node.placesFrom parent i ns := by
  induction ns generalizing k i with
  | nil => simp at h
  | cons m ms ih =>
    intro x hx
    rw [Node.placesFrom]
    cases k with
    | zero =>
      simp only [List.getElem?_cons_zero, Option.some.injEq] at h
      subst h
      exact List.mem_append_left _ hx
    | succ k =>
      refine List.mem_append_right _ (ih (by simpa using h) x ?_)
      rwa [show i + 1 + k = i + (k + 1) by omega]

/-- Every place that leads to a node is listed. -/
theorem Node.places_subset {root n : Node} {p : Place} (h : root.get? p = some n) :
    ∀ x ∈ n.places p, x ∈ root.places [] := by
  induction p generalizing n with
  | nil =>
    simp only [Node.get?_nil, Option.some.injEq] at h
    exact h ▸ fun _ => id
  | cons i above ih =>
    obtain ⟨parent, hp, hc⟩ := Option.bind_eq_some_iff.1 h
    intro x hx
    refine ih hp x ?_
    cases parent with
    | mk l r s cs =>
      rw [Node.places]
      exact List.mem_cons_of_mem _ (Node.places_subset_placesFrom (i := 0) hc x (by simpa using hx))

theorem Tree.mem_places {t : Tree} {l : Located} (h : t.Holds l) : l.place ∈ t.root.places [] :=
  Node.places_subset h _ (Node.self_mem_places _ _)

/-- How many places of the tree are not in the list. -/
def Tree.unvisited (t : Tree) (visiting : List Place) : Nat :=
  (t.root.places []).countP fun p => decide (p ∉ visiting)

/-- Following a declarator that was not followed leaves fewer to follow, so folding ends. -/
theorem Tree.unvisited_cons_lt {t : Tree} {visiting : List Place} {p : Place}
    (hp : p ∈ t.root.places []) (hv : p ∉ visiting) :
    t.unvisited (p :: visiting) < t.unvisited visiting := by
  unfold unvisited
  generalize t.root.places [] = places at hp
  induction places with
  | nil => simp at hp
  | cons q qs ih =>
    have mono : qs.countP (fun x => decide (x ∉ p :: visiting)) ≤
        qs.countP (fun x => decide (x ∉ visiting)) :=
      List.countP_mono_left fun x _ hx => by
        simp only [decide_eq_true_eq, List.mem_cons, not_or] at *
        exact hx.2
    by_cases h : q = p
    · subst h
      simp only [List.countP_cons, List.mem_cons, true_or, not_true_eq_false, decide_false, hv,
        not_false_eq_true, decide_true]
      simp only [List.mem_cons] at mono
      grind
    · have := ih (by grind)
      simp only [List.countP_cons]
      grind

end Host

/-! ## Folding -/

/-- The value of an expression while the given declarators are being followed. -/
def fold (t : Tree) (visiting : List Place) (expr : Located) : Option Text :=
  match _hs : Shape.of t.text expr with
  | .string => StringLiteral.cook (expr.textIn t.text)
  | .template =>
    match _hp : Template.parts? t.text expr with
    | none => none
    | some parts => do
      let values ← parts.substitutions.attach.mapM fun ⟨s, _⟩ => fold t visiting s.expr
      some (interleave (parts.segments.map t.text.slice) values)
  | .concat left right => do
    let a ← fold t visiting left
    let b ← fold t visiting right
    some (a ++ b)
  | .parenthesized inner => fold t visiting inner
  | .assertion inner => fold t visiting inner
  | .identifier =>
    match _hb : Binding.resolve t expr with
    | .unfoldable => none
    | .constant declarator value =>
      let within := declarator.span.start ≤ expr.span.start ∧ expr.span.start < declarator.span.stop
      if declarator.place ∈ visiting ∨ within then none
      else fold t (declarator.place :: visiting) value
  | .other => none
termination_by (t.unvisited visiting, sizeOf expr.node)
decreasing_by
  · exact Prod.Lex.right _ (Template.sizeOf_expr_lt _hp (by assumption))
  · exact Prod.Lex.right _
      (Located.sizeOf_lt_of_mem_children (Shape.mem_children_of_concat _hs).1)
  · exact Prod.Lex.right _
      (Located.sizeOf_lt_of_mem_children (Shape.mem_children_of_concat _hs).2)
  · exact Prod.Lex.right _
      (Located.sizeOf_lt_of_mem_children (Shape.mem_children_of_parenthesized _hs))
  · exact Prod.Lex.right _
      (Located.sizeOf_lt_of_mem_children (Shape.mem_children_of_assertion _hs))
  · rename_i h
    exact Prod.Lex.left _ _ (Tree.unvisited_cons_lt
      (Tree.mem_places (Binding.holds_of_resolve _hb)) fun hv => h (.inl hv))

def foldExpression (t : Tree) (expr : Located) : Option Text := fold t [] expr

/-! ## One shape at a time -/

section

variable {t : Tree} {visiting : List Place} {expr : Located}

theorem fold_of_string (h : Shape.of t.text expr = .string) :
    fold t visiting expr = StringLiteral.cook (expr.textIn t.text) := by
  rw [fold]
  split <;> simp_all

theorem fold_of_template (h : Shape.of t.text expr = .template) :
    fold t visiting expr = (Template.parts? t.text expr).bind fun parts =>
      (parts.substitutions.mapM fun s => fold t visiting s.expr).map fun values =>
        interleave (parts.segments.map t.text.slice) values := by
  rw [fold]
  split <;> simp_all only [reduceCtorEq]
  split
  · simp_all
  · rename_i parts hp
    simp only [List.mapM_subtype, List.unattach_attach, Option.bind_eq_bind, hp,
      Option.map_eq_bind, Option.bind_some]
    rfl

theorem fold_of_concat {left right : Located} (h : Shape.of t.text expr = .concat left right) :
    fold t visiting expr = (fold t visiting left).bind fun a =>
      (fold t visiting right).map fun b => a ++ b := by
  rw [fold]
  split <;>
    simp_all only [reduceCtorEq, Shape.concat.injEq, Option.bind_eq_bind, Option.map_eq_bind]
  rfl

theorem fold_of_parenthesized {inner : Located} (h : Shape.of t.text expr = .parenthesized inner) :
    fold t visiting expr = fold t visiting inner := by
  rw [fold]
  split <;> simp_all

theorem fold_of_assertion {inner : Located} (h : Shape.of t.text expr = .assertion inner) :
    fold t visiting expr = fold t visiting inner := by
  rw [fold]
  split <;> simp_all

theorem fold_of_other (h : Shape.of t.text expr = .other) : fold t visiting expr = none := by
  rw [fold]
  split <;> simp_all

theorem fold_of_unfoldable (h : Shape.of t.text expr = .identifier)
    (unfoldable : Binding.resolve t expr = .unfoldable) : fold t visiting expr = none := by
  rw [fold]
  split <;> simp_all only [reduceCtorEq]
  split <;> simp_all

/-- A constant is followed unless it is being followed or the name stands in its own declarator. -/
theorem fold_of_constant {declarator value : Located} (h : Shape.of t.text expr = .identifier)
    (constant : Binding.resolve t expr = .constant declarator value) :
    fold t visiting expr =
      if declarator.place ∈ visiting ∨
          (declarator.span.start ≤ expr.span.start ∧ expr.span.start < declarator.span.stop) then
        none
      else fold t (declarator.place :: visiting) value := by
  rw [fold]
  split <;> simp_all only [reduceCtorEq]
  split <;> simp_all

end

end SolidityInlay
