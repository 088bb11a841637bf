import SolidityInlay.Host.Cursor
import SolidityInlay.Fold.Evaluate
import SolidityInlay.Site.Basic

/-!
# Finding sites

A site is the marker applied to a template, or the marker called with one string literal and then
applied to a template. Sites are found from left to right, and none is looked for inside another.

Main definitions: `Site.match?`, `Site.scan`.
-/

namespace SolidityInlay

open Host

namespace Site

/-- The name in `marker("Name")`: exactly one argument, a string literal. -/
def name? (text : Text) (call : Located) : Option SiteName := do
  let args ← call.child? .arguments
  if args.node.is .arguments then
    match args.named.filter fun n => !n.node.is .comment with
    | [arg] =>
      if arg.node.is .string then
        (StringLiteral.cook (arg.textIn text)).map fun v => ⟨String.ofList v, arg.span⟩
      else none
    | _ => none
  else none

/-- The marker of a callee, and the name if the callee is a call. -/
def marker? (text : Text) (callee : Located) : Option (Located × Option SiteName) :=
  if callee.node.is .identifier then some (callee, none)
  else if callee.node.is .callExpression then do
    let inner ← callee.child? .function
    let name ← name? text callee
    some (inner, some name)
  else none

def match? (marker : Text) (t : Tree) (expr : Located) : Option Site :=
  if expr.node.is .callExpression then do
    let template ← expr.child? .arguments
    let callee ← expr.child? .function
    if template.node.is .templateString then
      let (tag, name) ← marker? t.text callee
      if tag.node.is .identifier && tag.textIn t.text == marker then
        let parts ← Template.parts? t.text template
        let segments := parts.segments.map fun span => ⟨t.text.sliceString span, span⟩
        let interpolations := parts.substitutions.map fun s =>
          ⟨s.expr.span, s.span, (foldExpression t s.expr).map String.ofList⟩
        some {
          name
          marker := tag.span
          span := expr.span
          template := template.span
          segments
          interpolations
          source := resolveSource segments interpolations }
      else none
    else none
  else none

/-- All sites of a tree, in the order of the text. -/
def scan (marker : String) (t : Tree) : List Site :=
  let visit (found : List Site) (c : Cursor) : List Site × Descend :=
    match match? marker.toList t ⟨c.place, c.node⟩ with
    | some site => (site :: found, .skip)
    | none => (found, .children)
  (walk visit [] (.start t.root [])).reverse

end Site

end SolidityInlay
