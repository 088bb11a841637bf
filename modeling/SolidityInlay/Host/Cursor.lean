import SolidityInlay.Host.Node
import SolidityInlay.Number.Total

/-!
# Walking a tree with a cursor

A cursor stands on a node below some starting node and remembers, for each level in between, the
parent and the siblings still to the right. The walk moves it to the first child, to the next
sibling, or up until there is one, and asks a visitor on every node whether to enter its children.

Main definitions: `Cursor`, `Cursor.firstChild?`, `Cursor.onward?`, `walk`.
-/

namespace SolidityInlay.Host

inductive Descend where
  | children
  | skip
deriving DecidableEq, Repr

mutual

def Node.count : Node → Nat
  | .mk _ _ _ cs => 1 + Node.countAll cs

def Node.countAll : List Node → Nat
  | [] => 0
  | n :: ns => n.count + Node.countAll ns

end

theorem Node.count_pos (n : Node) : 0 < n.count := by
  cases n; rw [Node.count]; omega

theorem Node.count_eq (n : Node) : n.count = 1 + Node.countAll n.children := by
  cases n; rw [Node.count, Node.children_mk]

/-- One level above the cursor: the parent and what is to the right of the way down. -/
structure Frame where
  parent : Node
  right : List Node

structure Cursor where
  node : Node
  place : Place
  frames : List Frame

namespace Cursor

def start (node : Node) (place : Place) : Cursor := ⟨node, place, []⟩

def firstChild? (c : Cursor) : Option Cursor :=
  match c.node.children with
  | [] => none
  | child :: rest => some ⟨child, 0 :: c.place, ⟨c.node, rest⟩ :: c.frames⟩

def nextSibling? (c : Cursor) : Option Cursor :=
  match c.frames, c.place with
  | ⟨parent, sibling :: rest⟩ :: up, i :: above =>
    some ⟨sibling, (i + 1) :: above, ⟨parent, rest⟩ :: up⟩
  | _, _ => none

def parent? (c : Cursor) : Option Cursor :=
  match c.frames with
  | [] => none
  | frame :: up => some ⟨frame.parent, c.place.tail, up⟩

/-- The nodes to the right of the way down. -/
def pending (frames : List Frame) : Nat :=
  total (frames.map fun frame => Node.countAll frame.right)

/-- The nodes the cursor can still reach without going back. -/
def remaining (c : Cursor) : Nat := c.node.count + pending c.frames

theorem length_frames_lt_of_parent? {c up : Cursor} (h : c.parent? = some up) :
    up.frames.length < c.frames.length := by
  unfold parent? at h
  split at h
  · simp at h
  · rename_i frame frames hf
    simp only [Option.some.injEq] at h
    simp [← h, hf]

/-- The next sibling, or that of the nearest ancestor that has one. -/
def onward? (c : Cursor) : Option Cursor :=
  match c.nextSibling? with
  | some next => some next
  | none =>
    match h : c.parent? with
    | none => none
    | some up =>
      have := length_frames_lt_of_parent? h
      up.onward?
termination_by c.frames.length

theorem remaining_firstChild? {c next : Cursor} (h : c.firstChild? = some next) :
    next.remaining < c.remaining := by
  unfold firstChild? at h
  split at h
  · simp at h
  · rename_i child rest hc
    simp only [Option.some.injEq] at h
    subst h
    simp only [remaining, pending, List.map_cons, total_cons]
    rw [Node.count_eq c.node, hc, Node.countAll]
    omega

theorem pending_nextSibling? {c next : Cursor} (h : c.nextSibling? = some next) :
    next.remaining = pending c.frames := by
  unfold nextSibling? at h
  split at h
  · rename_i parent sibling rest up i above hf hp
    simp only [Option.some.injEq] at h
    subst h
    simp only [remaining, pending, hf, List.map_cons, total_cons, Node.countAll]
    omega
  · simp at h

theorem pending_parent? {c up : Cursor} (h : c.parent? = some up) :
    pending up.frames ≤ pending c.frames := by
  unfold parent? at h
  split at h
  · simp at h
  · rename_i frame frames hf
    simp only [Option.some.injEq] at h
    subst h
    simp [pending, hf, total_cons]

/-- Going on leaves no more nodes than were to the right. -/
theorem remaining_onward? {c next : Cursor} (h : c.onward? = some next) :
    next.remaining ≤ pending c.frames := by
  fun_induction onward? c with
  | case1 c sibling hs =>
    simp only [Option.some.injEq] at h
    subst h
    exact Nat.le_of_eq (pending_nextSibling? hs)
  | case2 => simp at h
  | case3 c _ up hp _ ih => exact Nat.le_trans (ih h) (pending_parent? hp)

/-- The cursor after a visit: down if the visitor wants it and there are children, else onward. -/
def advance? (c : Cursor) : Descend → Option Cursor
  | .children =>
    match c.firstChild? with
    | some child => some child
    | none => c.onward?
  | .skip => c.onward?

/-- Every move of a walk leaves fewer nodes, so it ends. -/
theorem remaining_advance? {c next : Cursor} {d : Descend} (h : c.advance? d = some next) :
    next.remaining < c.remaining := by
  have onward (h : c.onward? = some next) : next.remaining < c.remaining := by
    have := remaining_onward? h
    have := c.node.count_pos
    simp only [remaining] at *
    omega
  unfold advance? at h
  split at h
  · split at h
    · rename_i child hc
      simp only [Option.some.injEq] at h
      exact remaining_firstChild? (h ▸ hc)
    · exact onward h
  · exact onward h

end Cursor

/-- Visits nodes depth first from left to right, carrying a state. -/
def walk {σ : Type} (visit : σ → Cursor → σ × Descend) (state : σ) (c : Cursor) : σ :=
  let (next, descend) := visit state c
  match h : c.advance? descend with
  | none => next
  | some c' =>
    have := Cursor.remaining_advance? h
    walk visit next c'
termination_by c.remaining

end SolidityInlay.Host
