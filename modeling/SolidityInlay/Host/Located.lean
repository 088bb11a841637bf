import SolidityInlay.Host.Node

/-!
# Nodes with their places

A node together with its place in a tree, so that one can go down to its children and up to whatever
encloses it, and two occurrences of equal nodes stay apart.

Main definitions: `Located`, `Located.children`, `Tree.enclosing`, `Tree.Holds`.
-/

namespace SolidityInlay.Host

structure Located where
  place : Place
  node : Node
deriving Inhabited

namespace Located

def children (l : Located) : List Located :=
  l.node.children.mapIdx fun i child => ⟨i :: l.place, child⟩

def named (l : Located) : List Located := l.children.filter fun c => c.node.isNamed

/-- The first child in a role. -/
def child? (l : Located) (r : Role) : Option Located :=
  l.children.find? fun c => c.node.role == some r

/-- The first construct among the children that is no comment. -/
def operand? (l : Located) : Option Located :=
  l.named.find? fun c => !c.node.is .comment

def span (l : Located) : Span := l.node.span

def textIn (l : Located) (text : Text) : Text := l.node.textIn text

theorem node_mem_of_mem_children {l c : Located} (h : c ∈ l.children) :
    c.node ∈ l.node.children := by
  obtain ⟨i, hi, rfl⟩ := List.mem_mapIdx.1 h
  exact List.getElem_mem hi

theorem mem_children_of_mem_named {l c : Located} (h : c ∈ l.named) : c ∈ l.children :=
  (List.mem_filter.1 h).1

theorem mem_children_of_child? {l c : Located} {r : Role} (h : l.child? r = some c) :
    c ∈ l.children :=
  List.mem_of_find?_eq_some h

theorem mem_children_of_operand? {l c : Located} (h : l.operand? = some c) : c ∈ l.children :=
  mem_children_of_mem_named (List.mem_of_find?_eq_some h)

theorem sizeOf_lt_of_mem_children {l c : Located} (h : c ∈ l.children) :
    sizeOf c.node < sizeOf l.node :=
  Node.sizeOf_lt_of_mem_children (node_mem_of_mem_children h)

end Located

namespace Tree

def located (t : Tree) : Located := ⟨[], t.root⟩

/-- The node really stands at its place in the tree. -/
def Holds (t : Tree) (l : Located) : Prop := t.root.get? l.place = some l.node

/-- Whatever encloses a place, innermost first. -/
def enclosing (t : Tree) : Place → List Located
  | [] => []
  | _ :: above =>
    match t.root.get? above with
    | some node => ⟨above, node⟩ :: t.enclosing above
    | none => t.enclosing above

theorem holds_of_mem_children {t : Tree} {l c : Located} (hl : t.Holds l) (hc : c ∈ l.children) :
    t.Holds c := by
  obtain ⟨i, hi, rfl⟩ := List.mem_mapIdx.1 hc
  simp only [Holds, Node.get?_cons] at *
  simp [hl, hi]

theorem holds_of_mem_enclosing {t : Tree} {p : Place} {l : Located} (h : l ∈ t.enclosing p) :
    t.Holds l := by
  induction p with
  | nil => simp [enclosing] at h
  | cons i above ih =>
    rw [enclosing] at h
    split at h
    · rename_i node hn
      rcases List.mem_cons.1 h with rfl | h
      · exact hn
      · exact ih h
    · exact ih h

end Tree

end SolidityInlay.Host
