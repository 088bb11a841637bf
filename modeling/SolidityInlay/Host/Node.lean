import SolidityInlay.Text.Basic
import SolidityInlay.Host.Kind

/-!
# The concrete tree of a host file

A node has a label, the role it plays in its parent, the bytes it covers and its children from left
to right, tokens and comments included. A node's identity in a tree is its *place*: the child
numbers that lead to it, nearest first, so that the parent of `i :: p` is `p`.

Main definitions: `Node`, `Node.child?`, `Place`, `Node.get?`, `Tree`.
-/

namespace SolidityInlay.Host

inductive Node where
  | mk (label : Label) (role : Option Role) (span : Span) (children : List Node)
deriving Repr

namespace Node

def label : Node → Label
  | mk l _ _ _ => l

def role : Node → Option Role
  | mk _ r _ _ => r

def span : Node → Span
  | mk _ _ s _ => s

def children : Node → List Node
  | mk _ _ _ cs => cs

instance : Inhabited Node := ⟨mk (.named .error) none default []⟩

def withRole (r : Role) : Node → Node
  | mk l _ s cs => mk l (some r) s cs

def relabel (k : Kind) : Node → Node
  | mk _ r s cs => mk (.named k) r s cs

def kind? (n : Node) : Option Kind :=
  match n.label with
  | .named k => some k
  | .token _ => none

def is (n : Node) (k : Kind) : Bool := n.label == .named k

def isNamed (n : Node) : Bool := n.kind?.isSome

/-- The first child in a role. -/
def child? (n : Node) (r : Role) : Option Node :=
  n.children.find? fun c => c.role == some r

def namedChildren (n : Node) : List Node := n.children.filter isNamed

def textIn (n : Node) (text : Text) : Text := text.slice n.span

@[simp] theorem label_mk (l r s cs) : (mk l r s cs).label = l := rfl
@[simp] theorem role_mk (l r s cs) : (mk l r s cs).role = r := rfl
@[simp] theorem span_mk (l r s cs) : (mk l r s cs).span = s := rfl
@[simp] theorem children_mk (l r s cs) : (mk l r s cs).children = cs := rfl

theorem sizeOf_lt_of_mem_children {n c : Node} (h : c ∈ n.children) : sizeOf c < sizeOf n := by
  cases n with
  | mk l r s cs =>
    have := List.sizeOf_lt_of_mem h
    simp only [children_mk] at this
    simp only [Node.mk.sizeOf_spec]
    omega

end Node

/-- Where a node stands in a tree: child numbers up to the root, nearest first. -/
abbrev Place := List Nat

def Node.get? (root : Node) : Place → Option Node
  | [] => some root
  | i :: p => (root.get? p).bind fun parent => parent.children[i]?

@[simp] theorem Node.get?_nil (root : Node) : root.get? [] = some root := rfl

theorem Node.get?_cons (root : Node) (i : Nat) (p : Place) :
    root.get? (i :: p) = (root.get? p).bind fun parent => parent.children[i]? := rfl

/-- A parsed host file: its text and its tree. -/
structure Tree where
  text : Text
  root : Node

end SolidityInlay.Host
