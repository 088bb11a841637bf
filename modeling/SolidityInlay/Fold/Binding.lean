import SolidityInlay.Host.Located

/-!
# What a name refers to

The nearest enclosing declaration of a name. Only a `const` with an initializer can be folded; every
other binding of the name, a parameter, a pattern, a function, hides the ones further out.

Main definitions: `Binding`, `Binding.resolve`.
-/

namespace SolidityInlay

open Host

inductive Binding where
  /-- A `const` declarator and its initializer. -/
  | constant (declarator value : Located)
  /-- Anything else, or nothing at all. -/
  | unfoldable

namespace Binding

mutual

/-- Whether a pattern mentions the name; a default value inside the pattern counts. -/
def binds (text : Text) (name : Text) : Node → Bool
  | .mk label _ span children =>
    ((label == .named .identifier || label == .named .shorthandPropertyIdentifierPattern) &&
      text.slice span == name) ||
    bindsAny text name children

def bindsAny (text : Text) (name : Text) : List Node → Bool
  | [] => false
  | n :: ns => (n.isNamed && binds text name n) || bindsAny text name ns

end

def ofDeclarator (text name : Text) (constant : Bool) (declarator : Located) : Option Binding :=
  if declarator.node.is .variableDeclarator then
    match declarator.child? .name with
    | none => none
    | some pattern =>
      if pattern.node.is .identifier then
        if pattern.textIn text == name then
          match constant, declarator.child? .value with
          | true, some value => some (.constant declarator value)
          | _, _ => some .unfoldable
        else none
      else if binds text name pattern.node then some .unfoldable
      else none
  else none

def ofVariables (text name : Text) (declaration : Located) : Option Binding :=
  let lexical := declaration.node.is .lexicalDeclaration
  if lexical || declaration.node.is .variableDeclaration then
    let first := declaration.node.children.head?.map Node.label
    let constant := lexical && first == some (.token "const")
    declaration.named.findSome? (ofDeclarator text name constant)
  else none

def declaresName (n : Node) : Bool :=
  n.is .functionDeclaration || n.is .generatorFunctionDeclaration || n.is .classDeclaration ||
    n.is .enumDeclaration

/-- The declaration in a statement; an export is looked through. -/
def declarationIn (statement : Located) : Option Located :=
  if statement.node.is .exportStatement then statement.child? .declaration else some statement

/-- Binds the name without a value when the condition holds. -/
def hiddenIf (condition : Bool) : Option Binding :=
  if condition then some .unfoldable else none

def ofStatement (text name : Text) (statement : Located) : Option Binding :=
  (declarationIn statement).bind fun declared =>
    if declaresName declared.node then
      hiddenIf ((declared.child? .name).any fun n => n.textIn text == name)
    else ofVariables text name declared

def bindsParameter (text name : Text) (function : Node) : Bool :=
  (function.child? .parameter).any (binds text name) ||
  (function.child? .parameters).any fun parameters =>
    parameters.namedChildren.any fun p => binds text name ((p.child? .pattern).getD p)

def ofScope (text name : Text) (scope : Located) : Option Binding :=
  match scope.node.kind? with
  | some .program | some .statementBlock | some .classStaticBlock | some .switchCase
  | some .switchDefault => scope.named.findSome? (ofStatement text name)
  | some .forStatement => (scope.child? .initializer).bind (ofVariables text name)
  | some .forInStatement => hiddenIf ((scope.node.child? .left).any (binds text name))
  | some .functionDeclaration | some .functionExpression | some .generatorFunction
  | some .generatorFunctionDeclaration | some .arrowFunction | some .methodDefinition =>
    hiddenIf (bindsParameter text name scope.node)
  | some .catchClause => hiddenIf ((scope.node.child? .parameter).any (binds text name))
  | _ => none

/-- The binding of the identifier at a place, innermost scope first. -/
def resolve (t : Tree) (identifier : Located) : Binding :=
  let name := identifier.textIn t.text
  ((t.enclosing identifier.place).findSome? (ofScope t.text name)).getD .unfoldable

/-! ## Bindings stand in the tree -/

/-- A constant's declarator stands in the tree. -/
def Grounded (t : Tree) : Binding → Prop
  | .constant declarator _ => t.Holds declarator
  | .unfoldable => True

theorem grounded_ofDeclarator {t : Tree} {name : Text} {constant : Bool} {d : Located} {b : Binding}
    (hd : t.Holds d) (h : ofDeclarator t.text name constant d = some b) : b.Grounded t := by
  unfold ofDeclarator at h
  grind [Grounded]

theorem grounded_ofVariables {t : Tree} {name : Text} {d : Located} {b : Binding}
    (hd : t.Holds d) (h : ofVariables t.text name d = some b) : b.Grounded t := by
  simp only [ofVariables] at h
  split at h
  · obtain ⟨c, hc, h⟩ := List.exists_of_findSome?_eq_some h
    exact grounded_ofDeclarator
      (Tree.holds_of_mem_children hd (Located.mem_children_of_mem_named hc)) h
  · simp at h

theorem grounded_hiddenIf {t : Tree} {condition : Bool} {b : Binding}
    (h : hiddenIf condition = some b) : b.Grounded t := by
  unfold hiddenIf at h
  split at h
  · exact Option.some.inj h ▸ trivial
  · simp at h

theorem grounded_ofStatement {t : Tree} {name : Text} {s : Located} {b : Binding}
    (hs : t.Holds s) (h : ofStatement t.text name s = some b) : b.Grounded t := by
  obtain ⟨declared, hd, h⟩ := Option.bind_eq_some_iff.1 h
  have hold : t.Holds declared := by
    unfold declarationIn at hd
    split at hd
    · exact Tree.holds_of_mem_children hs (Located.mem_children_of_child? hd)
    · exact Option.some.inj hd ▸ hs
  split at h
  · exact grounded_hiddenIf h
  · exact grounded_ofVariables hold h

theorem grounded_ofScope {t : Tree} {name : Text} {s : Located} {b : Binding}
    (hs : t.Holds s) (h : ofScope t.text name s = some b) : b.Grounded t := by
  have inBlock (h : s.named.findSome? (ofStatement t.text name) = some b) : b.Grounded t := by
    obtain ⟨c, hc, h⟩ := List.exists_of_findSome?_eq_some h
    exact grounded_ofStatement
      (Tree.holds_of_mem_children hs (Located.mem_children_of_mem_named hc)) h
  unfold ofScope at h
  split at h
  all_goals first
    | exact inBlock h
    | exact grounded_hiddenIf h
    | (obtain ⟨c, hc, h⟩ := Option.bind_eq_some_iff.1 h
       exact grounded_ofVariables
         (Tree.holds_of_mem_children hs (Located.mem_children_of_child? hc)) h)
    | simp at h

/-- Whatever a name is resolved to stands in the tree. -/
theorem grounded_resolve (t : Tree) (identifier : Located) : (resolve t identifier).Grounded t := by
  simp only [resolve]
  cases h : (t.enclosing identifier.place).findSome?
      (ofScope t.text (identifier.textIn t.text)) with
  | none => trivial
  | some b =>
    obtain ⟨s, hs, h⟩ := List.exists_of_findSome?_eq_some h
    exact grounded_ofScope (Tree.holds_of_mem_enclosing hs) h

theorem holds_of_resolve {t : Tree} {identifier declarator value : Located}
    (h : resolve t identifier = constant declarator value) : t.Holds declarator := by
  have := grounded_resolve t identifier
  rwa [h] at this

end Binding

end SolidityInlay
