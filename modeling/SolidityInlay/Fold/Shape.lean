import SolidityInlay.Fold.Template

/-!
# Shapes of expressions

The shapes of expressions whose value may be known without running the program.

Main definition: `Shape.of`.
-/

namespace SolidityInlay

open Host

inductive Shape where
  | string
  | template
  | concat (left right : Located)
  | parenthesized (inner : Located)
  /-- `x as T`, `x as const` or `x satisfies T`: the type says nothing about the value. -/
  | assertion (inner : Located)
  | identifier
  | other

namespace Shape

def name : Shape → String
  | string => "string"
  | template => "template"
  | concat _ _ => "concat"
  | parenthesized _ => "parenthesized"
  | assertion _ => "assertion"
  | identifier => "identifier"
  | other => "other"

def ofBinary (text : Text) (expr : Located) : Shape :=
  match expr.child? .operator, expr.child? .left, expr.child? .right with
  | some op, some left, some right => if op.textIn text == ['+'] then concat left right else other
  | _, _, _ => other

def of (text : Text) (expr : Located) : Shape :=
  match expr.node.kind? with
  | some .string => string
  | some .templateString => template
  | some .identifier => identifier
  | some .parenthesizedExpression => (expr.operand?.map parenthesized).getD other
  | some .asExpression | some .satisfiesExpression => (expr.operand?.map assertion).getD other
  | some .binaryExpression => ofBinary text expr
  | _ => other

/-- Operands are children of the expression. -/
def Inside (expr : Located) : Shape → Prop
  | concat left right => left ∈ expr.children ∧ right ∈ expr.children
  | parenthesized inner => inner ∈ expr.children
  | assertion inner => inner ∈ expr.children
  | _ => True

theorem inside_ofBinary (text : Text) (expr : Located) : (ofBinary text expr).Inside expr := by
  unfold ofBinary
  split
  · rename_i _ left right _ hl hr
    split
    · exact ⟨Located.mem_children_of_child? hl, Located.mem_children_of_child? hr⟩
    · trivial
  · trivial

theorem inside_operand (expr : Located) (f : Located → Shape)
    (hf : ∀ inner ∈ expr.children, (f inner).Inside expr) :
    ((expr.operand?.map f).getD other).Inside expr := by
  cases h : expr.operand? with
  | none => trivial
  | some inner => exact hf inner (Located.mem_children_of_operand? h)

/-- The operands of every shape are children of the expression, so folding ends. -/
theorem inside_of (text : Text) (expr : Located) : (of text expr).Inside expr := by
  unfold of
  split
  case h_4 => exact inside_operand expr _ fun _ h => h
  case h_5 => exact inside_operand expr _ fun _ h => h
  case h_6 => exact inside_operand expr _ fun _ h => h
  case h_7 => exact inside_ofBinary text expr
  all_goals trivial

theorem mem_children_of_concat {text : Text} {expr left right : Located}
    (h : of text expr = concat left right) : left ∈ expr.children ∧ right ∈ expr.children := by
  have := inside_of text expr
  rwa [h] at this

theorem mem_children_of_parenthesized {text : Text} {expr inner : Located}
    (h : of text expr = parenthesized inner) : inner ∈ expr.children := by
  have := inside_of text expr
  rwa [h] at this

theorem mem_children_of_assertion {text : Text} {expr inner : Located}
    (h : of text expr = assertion inner) : inner ∈ expr.children := by
  have := inside_of text expr
  rwa [h] at this

end Shape

end SolidityInlay
