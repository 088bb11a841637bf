import SolidityInlay.Host.Grammar.Statements

/-!
# Parsing host files

The recursion of the grammar is closed here. Each step from a rule to the rules inside it uses up
one unit of depth, and no text nests deeper than a fixed multiple of its length, so the depth
granted to a text never runs out on it.

A text that is no program has a tree as well: what fits no statement is taken token by token. How
much of an unfinished construct is recovered is a choice of this parser, on which nothing about
sites and diagnostics may rest.

Main definition: `parse`.
-/

namespace SolidityInlay.Host.Grammar

/-- One step: the parser of a rule, given the parsers of the rules inside it. -/
def Rule.body (dialect : Dialect) (g : Rules) : Rule → Parser Items
  | .statement => statementBody g
  | .block => blockBody g
  | .expression mode => expressionBody g mode
  | .expressions mode => expressionsBody g mode
  | .binary mode level loose => binaryBody g mode level loose
  | .unary mode => unaryBody g dialect mode
  | .operand mode => operandBody g mode
  | .pattern => patternBody g
  | .type => typeBody g
  | .primaryType => primaryTypeBody g
  | .element => elementBody g

def rules (dialect : Dialect) : Nat → Rules
  | 0 => fun _ _ => none
  | depth + 1 => fun rule input => rule.body dialect (rules dialect depth) input

def depthFor (text : Text) : Nat := 16 * (text.length + 4)

end Grammar

def parse (dialect : Grammar.Dialect) (text : Text) : Tree :=
  let input := Grammar.Input.ofText text
  let (items, rest) :=
    (Grammar.programItems (Grammar.rules dialect (Grammar.depthFor text)) input).getD ([], input)
  let children := items ++ rest.gap.1.comments.reverse
  let start := (children.head?.map fun n => n.span.start).getD text.size
  ⟨text, .mk (.named .program) none ⟨start, text.size⟩ children⟩

end SolidityInlay.Host
