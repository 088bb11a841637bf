import SolidityInlay.Fold.Evaluate
import SolidityInlay.Host.Cursor

/-!
# Walks and outermost nodes

The walk with a cursor visits a node and then, if the visitor wants it, the children from left to
right, each with all below it. A visitor that collects the nodes it recognizes and never enters one
therefore finds the outermost of them. If children lie in order inside their parents, what it finds
lies in order too.

Main definitions: `Node.traverse`, `Node.outermost`, `Node.Encloses`. Main statements:
`walk_eq_traverse`, `mem_outermost_iff`, `pairwise_outermost`.
-/

namespace SolidityInlay.Host

/-! ## The order of a walk -/

section

variable {σ : Type} (visit : σ → Located → σ × Descend)

mutual

def Node.traverse (state : σ) (place : Place) : Node → σ
  | .mk label role span children =>
    match visit state ⟨place, .mk label role span children⟩ with
    | (next, .children) => Node.traverseFrom next place 0 children
    | (next, .skip) => next

def Node.traverseFrom (state : σ) (parent : Place) (i : Nat) : List Node → σ
  | [] => state
  | n :: ns => Node.traverseFrom (Node.traverse state (i :: parent) n) parent (i + 1) ns

end

theorem walk_of_visit {visit : σ → Cursor → σ × Descend} {state next : σ} {c : Cursor}
    {descend : Descend} (h : visit state c = (next, descend)) :
    walk visit state c =
      match c.advance? descend with
      | none => next
      | some c' => walk visit next c' := by
  rw [walk]
  simp only [h]
  split <;> (rename_i step; rw [h] at step; rw [step])

/-- Visits what is to the right of the way down to a place, level by level. -/
def traverseRight (state : σ) : Place → List Frame → σ
  | i :: above, frame :: up =>
    traverseRight (Node.traverseFrom visit state above (i + 1) frame.right) above up
  | _, _ => state

theorem Node.traverse_eq (state : σ) (place : Place) (n : Node) :
    n.traverse visit state place =
      match visit state ⟨place, n⟩ with
      | (next, .children) => Node.traverseFrom visit next place 0 n.children
      | (next, .skip) => next := by
  cases n
  rw [Node.traverse]
  rfl

@[simp] theorem traverseRight_nil_frames (state : σ) (place : Place) :
    traverseRight visit state place [] = state := by
  cases place <;> rfl

@[simp] theorem traverseRight_nil_place (state : σ) (frames : List Frame) :
    traverseRight visit state [] frames = state := by
  cases frames <;> rfl

namespace Cursor

variable (state : σ) {c next up : Cursor}

/-- All that is left to visit once the node under the cursor has been visited with all below it. -/
def finish (c : Cursor) (state : σ) : σ := traverseRight visit state c.place c.frames

/-- All that is left to visit, beginning with the node under the cursor. -/
def rest (c : Cursor) (state : σ) : σ :=
  c.finish visit (c.node.traverse visit state c.place)

/-- What is left after going down: the children, and then what was left. -/
theorem rest_firstChild? (h : c.firstChild? = some next) :
    next.rest visit state =
      c.finish visit (Node.traverseFrom visit state c.place 0 c.node.children) := by
  unfold firstChild? at h
  split at h
  · simp at h
  · rename_i child siblings hc
    simp only [Option.some.injEq] at h
    subst h
    rw [hc, Node.traverseFrom]
    rfl

/-- What is left after going right is what was left once the node was done. -/
theorem rest_nextSibling? (h : c.nextSibling? = some next) :
    next.rest visit state = c.finish visit state := by
  obtain ⟨node, place, frames⟩ := c
  unfold nextSibling? at h
  split at h
  · rename_i parent sibling siblings above i up hf hp
    simp only [Option.some.injEq] at h
    simp only at hf hp
    subst h hf hp
    simp only [rest, finish, traverseRight, Node.traverseFrom]
  · simp at h

theorem finish_parent? (last : c.nextSibling? = none) (h : c.parent? = some up) :
    up.finish visit state = c.finish visit state := by
  obtain ⟨node, place, frames⟩ := c
  cases frames with
  | nil => simp [parent?] at h
  | cons frame frames =>
    simp only [parent?, Option.some.injEq] at h
    subst h
    cases place with
    | nil => simp [finish]
    | cons i above =>
      obtain ⟨parent, right⟩ := frame
      cases right with
      | nil => rfl
      | cons sibling siblings => simp [nextSibling?] at last

/-- Going onward skips nothing. -/
theorem rest_onward? (c : Cursor) :
    (match c.onward? with
      | none => state
      | some next => next.rest visit state) = c.finish visit state := by
  fun_induction onward? c with
  | case1 c next h => exact rest_nextSibling? visit state h
  | case2 c last root =>
    obtain ⟨node, place, frames⟩ := c
    cases frames with
    | nil => simp [finish]
    | cons frame frames => simp [parent?] at root
  | case3 c last up h _ ih => exact ih.trans (finish_parent? visit state last h)

/-- Advancing visits what the visitor wants and then all else. -/
theorem rest_advance? (c : Cursor) (descend : Descend) :
    (match c.advance? descend with
      | none => state
      | some next => next.rest visit state) =
      c.finish visit (match descend with
        | .children => Node.traverseFrom visit state c.place 0 c.node.children
        | .skip => state) := by
  cases descend with
  | skip => exact rest_onward? visit state c
  | children =>
    unfold advance?
    cases h : c.firstChild? with
    | some child => exact rest_firstChild? visit state h
    | none =>
      have leaf : c.node.children = [] := by
        unfold firstChild? at h
        split at h
        · assumption
        · simp at h
      rw [leaf, Node.traverseFrom]
      exact rest_onward? visit state c

/-- A visit and a move account for all that was left. -/
theorem rest_of_visit {next : σ} {descend : Descend}
    (h : visit state ⟨c.place, c.node⟩ = (next, descend)) :
    c.rest visit state =
      match c.advance? descend with
      | none => next
      | some c' => c'.rest visit next := by
  rw [rest_advance?, rest, Node.traverse_eq, h]
  cases descend <;> rfl

/-- The walk from a cursor visits all that is left. -/
theorem walk_eq_rest (c : Cursor) (state : σ) :
    walk (fun state c => visit state ⟨c.place, c.node⟩) state c = c.rest visit state := by
  induction state, c using walk.induct (fun state c => visit state ⟨c.place, c.node⟩) with
  | case1 state c next descend hv done =>
    rw [walk_of_visit hv, rest_of_visit visit state hv, done]
  | case2 state c next descend hv c' more _ ih =>
    rw [walk_of_visit hv, rest_of_visit visit state hv, more]
    exact ih

end Cursor

/-- The walk from a node visits it and what is below it, in order. -/
theorem walk_eq_traverse (state : σ) (l : Located) :
    walk (fun state c => visit state ⟨c.place, c.node⟩) state (.start l.node l.place) =
      l.node.traverse visit state l.place := by
  rw [Cursor.walk_eq_rest]
  exact traverseRight_nil_frames ..

end

/-! ## Outermost nodes -/

section

variable (p : Located → Bool)

mutual

/-- The nodes that satisfy a condition and are below no other that does, from left to right. -/
def Node.outermost (place : Place) : Node → List Located
  | .mk label role span children =>
    if p ⟨place, .mk label role span children⟩ then [⟨place, .mk label role span children⟩]
    else Node.outermostFrom place 0 children

def Node.outermostFrom (parent : Place) (i : Nat) : List Node → List Located
  | [] => []
  | n :: ns => n.outermost (i :: parent) ++ Node.outermostFrom parent (i + 1) ns

end

theorem Node.outermost_eq (place : Place) (n : Node) :
    n.outermost p place =
      if p ⟨place, n⟩ then [⟨place, n⟩] else Node.outermostFrom p place 0 n.children := by
  cases n
  rw [Node.outermost]
  rfl

theorem Node.mem_outermostFrom {parent : Place} {i : Nat} {ns : List Node} {l : Located} :
    l ∈ Node.outermostFrom p parent i ns ↔
      ∃ (k : Nat) (c : Node), ns[k]? = some c ∧ l ∈ c.outermost p ((i + k) :: parent) := by
  induction ns generalizing i with
  | nil => simp [Node.outermostFrom]
  | cons n ns ih =>
    rw [Node.outermostFrom, List.mem_append, ih]
    constructor
    · rintro (h | ⟨k, c, hk, h⟩)
      · exact ⟨0, n, rfl, h⟩
      · exact ⟨k + 1, c, hk, by rwa [show i + (k + 1) = i + 1 + k by omega]⟩
    · rintro ⟨k, c, hk, h⟩
      cases k with
      | zero =>
        obtain rfl : n = c := by simpa using hk
        exact .inl h
      | succ k => exact .inr ⟨k, c, hk, by rwa [show i + 1 + k = i + (k + 1) by omega]⟩

end

/-- What holds of a node if it holds of all its children holds of every node. -/
theorem Node.induction_children {P : Node → Prop}
    (step : ∀ n, (∀ c ∈ n.children, P c) → P n) (n : Node) : P n :=
  step n fun c _ => Node.induction_children step c
termination_by sizeOf n
decreasing_by exact Node.sizeOf_lt_of_mem_children (by assumption)

section

variable {α : Type} (f : Located → Option α)

/-- Takes what it recognizes and does not enter it. -/
def collect (found : List α) (l : Located) : List α × Descend :=
  match f l with
  | some a => (a :: found, .skip)
  | none => (found, .children)

/-- Collecting finds the outermost nodes that are recognized. -/
theorem Node.traverse_collect (n : Node) (found : List α) (place : Place) :
    n.traverse (collect f) found place =
      ((n.outermost (fun l => (f l).isSome) place).filterMap f).reverse ++ found := by
  induction n using Node.induction_children generalizing found place with
  | step n ih =>
    rw [Node.traverse_eq, Node.outermost_eq, collect]
    cases h : f ⟨place, n⟩ with
    | some a => simp [h]
    | none =>
      suffices ∀ ns, (∀ c ∈ ns, c ∈ n.children) → ∀ found i,
          Node.traverseFrom (collect f) found place i ns =
            ((Node.outermostFrom (fun l => (f l).isSome) place i ns).filterMap f).reverse
              ++ found by
        simpa using this n.children (fun _ hc => hc) found 0
      intro ns sub
      induction ns with
      | nil => simp [Node.traverseFrom, Node.outermostFrom]
      | cons c ns ihs =>
        intro found i
        rw [Node.traverseFrom, Node.outermostFrom, ih c (sub c (by simp)),
          ihs fun c hc => sub c (by simp [hc])]
        simp

end

/-! ## Places below one another -/

/-- Between a place and one below it there is a child of the first. -/
theorem Place.exists_cons_suffix {p q : Place} (h : p <:+ q) (ne : p ≠ q) :
    ∃ k, k :: p <:+ q := by
  obtain ⟨front, rfl⟩ := h
  rcases List.eq_nil_or_concat front with rfl | ⟨front, k, rfl⟩
  · simp at ne
  · exact ⟨k, front, by simp⟩

namespace Tree

variable {t : Tree} {l a : Located}

/-- What encloses a place are the nodes above it. -/
theorem mem_enclosing_iff {place : Place} :
    a ∈ t.enclosing place ↔ t.Holds a ∧ a.place <:+ place ∧ a.place ≠ place := by
  induction place with
  | nil => simp [enclosing]
  | cons i above ih =>
    have step : a.place <:+ i :: above ∧ a.place ≠ i :: above ↔ a.place <:+ above := by
      rw [List.suffix_cons_iff]
      constructor
      · rintro ⟨same | below, other⟩
        · exact absurd same other
        · exact below
      · intro below
        refine ⟨.inr below, fun same => ?_⟩
        have := below.length_le
        simp only [same, List.length_cons] at this
        omega
    rw [step, enclosing]
    obtain ⟨place, node⟩ := a
    by_cases here : place = above
    · subst here
      cases h : t.root.get? place <;> simp [h, ih, Holds, eq_comm]
    · cases h : t.root.get? above <;> simp [ih, here]

/-- Whatever is above a node is there too. -/
theorem exists_holds_of_suffix {place below : Place} {n : Node} (h : t.Holds ⟨below, n⟩)
    (above : place <:+ below) : ∃ m, t.Holds ⟨place, m⟩ := by
  induction below generalizing n with
  | nil =>
    rw [List.suffix_nil] at above
    exact ⟨n, above ▸ h⟩
  | cons i up ih =>
    rcases List.suffix_cons_iff.1 above with rfl | above
    · exact ⟨n, h⟩
    · obtain ⟨parent, hp, _⟩ := Option.bind_eq_some_iff.1 h
      exact ih hp above

theorem eq_of_holds (ha : t.Holds a) (hl : t.Holds l) (h : a.place = l.place) : a = l := by
  obtain ⟨place, node⟩ := a
  obtain ⟨place', node'⟩ := l
  obtain rfl : place = place' := h
  have nodes : some node = some node' := ha.symm.trans hl
  rw [Option.some.inj nodes]

theorem holds_cons_iff {place : Place} {n c : Node} (h : t.Holds ⟨place, n⟩) {k : Nat} :
    t.Holds ⟨k :: place, c⟩ ↔ n.children[k]? = some c := by
  have here : t.root.get? place = some n := h
  simp [Holds, Node.get?_cons, here]

end Tree

/-- The outermost nodes below a node of a tree are those that satisfy the condition while nothing
from the node down to them does. -/
theorem mem_outermost_iff {t : Tree} {p : Located → Bool} {n : Node} {place : Place}
    (h : t.Holds ⟨place, n⟩) {l : Located} :
    l ∈ n.outermost p place ↔ t.Holds l ∧ place <:+ l.place ∧ p l ∧
      ∀ a ∈ t.enclosing l.place, place <:+ a.place → ¬ p a := by
  induction n using Node.induction_children generalizing place with
  | step n ih =>
    rw [Node.outermost_eq]
    split
    · rename_i here
      rw [List.mem_singleton]
      constructor
      · rintro rfl
        refine ⟨h, List.suffix_refl _, here, fun a ha below => ?_⟩
        obtain ⟨_, above, other⟩ := Tree.mem_enclosing_iff.1 ha
        exact absurd (above.eq_of_length_le below.length_le) other
      · rintro ⟨hl, below, _, free⟩
        by_cases same : place = l.place
        · exact (Tree.eq_of_holds h hl same).symm
        · have enclosing := Tree.mem_enclosing_iff.2 ⟨h, below, same⟩
          exact absurd here (free _ enclosing (List.suffix_refl _))
    · rename_i here
      rw [Node.mem_outermostFrom]
      constructor
      · rintro ⟨k, c, hk, mem⟩
        rw [Nat.zero_add] at mem
        have hc := (Tree.holds_cons_iff h).2 hk
        obtain ⟨hl, below, sat, free⟩ := (ih c (List.mem_of_getElem? hk) hc).1 mem
        refine ⟨hl, (List.suffix_cons k place).trans below, sat, fun a ha from_place => ?_⟩
        obtain ⟨held, above, _⟩ := Tree.mem_enclosing_iff.1 ha
        by_cases same : place = a.place
        · rwa [← Tree.eq_of_holds h held same]
        · obtain ⟨j, child⟩ := Place.exists_cons_suffix from_place same
          refine free a ha (List.suffix_of_suffix_length_le below above ?_)
          simpa using child.length_le
      · rintro ⟨hl, below, sat, free⟩
        have other : place ≠ l.place := fun same => here (Tree.eq_of_holds h hl same ▸ sat)
        obtain ⟨k, child⟩ := Place.exists_cons_suffix below other
        obtain ⟨c, hc⟩ := Tree.exists_holds_of_suffix hl child
        have hk := (Tree.holds_cons_iff h).1 hc
        refine ⟨k, c, hk, ?_⟩
        rw [Nat.zero_add, ih c (List.mem_of_getElem? hk) hc]
        refine ⟨hl, child, sat, fun a ha above => ?_⟩
        exact free a ha ((List.suffix_cons k place).trans above)

/-! ## Nodes in order -/

theorem Located.map_node_children (l : Located) :
    l.children.map Located.node = l.node.children := by
  apply List.ext_getElem?
  intro k
  simp [Located.children, List.getElem?_mapIdx, Option.map_map, Function.comp_def]

/-- Children lie inside the node, in order and apart from each other. -/
structure Node.Encloses (n : Node) : Prop where
  ordered : n.span.start ≤ n.span.stop
  inside : ∀ c ∈ n.children, n.span.start ≤ c.span.start ∧ c.span.stop ≤ n.span.stop
  apart : n.children.Pairwise fun a b => a.span.stop ≤ b.span.start

instance (n : Node) : Decidable n.Encloses :=
  decidable_of_iff (n.span.start ≤ n.span.stop ∧
      (∀ c ∈ n.children, n.span.start ≤ c.span.start ∧ c.span.stop ≤ n.span.stop) ∧
      n.children.Pairwise fun a b => a.span.stop ≤ b.span.start)
    ⟨fun ⟨ordered, inside, apart⟩ => ⟨ordered, inside, apart⟩,
      fun ⟨ordered, inside, apart⟩ => ⟨ordered, inside, apart⟩⟩

theorem Tree.forall_holds_iff {t : Tree} {P : Located → Prop} :
    (∀ place ∈ t.root.places [], ∀ n ∈ t.root.get? place, P ⟨place, n⟩) ↔
      ∀ l, t.Holds l → P l :=
  ⟨fun h l held => h l.place (t.mem_places held) l.node held,
    fun h place _ n held => h ⟨place, n⟩ held⟩

instance (t : Tree) (P : Located → Prop) [DecidablePred P] : Decidable (∀ l, t.Holds l → P l) :=
  decidable_of_iff _ Tree.forall_holds_iff

def Tree.Nested (t : Tree) : Prop := ∀ l, t.Holds l → l.node.Encloses

instance (t : Tree) : Decidable t.Nested :=
  inferInstanceAs (Decidable (∀ l, t.Holds l → l.node.Encloses))

namespace Tree.Nested

variable {t : Tree}

/-- A node lies inside whatever is above it. -/
theorem within (nested : t.Nested) {l a : Located} (hl : t.Holds l) (ha : t.Holds a)
    (h : a.place <:+ l.place) : a.span.start ≤ l.span.start ∧ l.span.stop ≤ a.span.stop := by
  obtain ⟨place, n⟩ := l
  induction place generalizing n with
  | nil =>
    have same := Tree.eq_of_holds ha hl (List.suffix_nil.1 h)
    simp [same]
  | cons i above ih =>
    rcases List.suffix_cons_iff.1 h with same | h
    · simp [Tree.eq_of_holds ha hl same]
    · obtain ⟨parent, hp, hc⟩ := Option.bind_eq_some_iff.1 hl
      obtain ⟨start, stop⟩ := ih parent hp h
      obtain ⟨left, right⟩ := (nested ⟨above, parent⟩ hp).inside n (List.mem_of_getElem? hc)
      simp only [Located.span] at *
      omega

/-- Outermost nodes lie inside the node they are found in. -/
theorem within_of_mem_outermost (nested : t.Nested) {p : Located → Bool} {n : Node} {place : Place}
    (h : t.Holds ⟨place, n⟩) {l : Located} (hl : l ∈ n.outermost p place) :
    n.span.start ≤ l.span.start ∧ l.span.stop ≤ n.span.stop := by
  obtain ⟨held, below, _⟩ := (mem_outermost_iff h).1 hl
  exact nested.within held h below

/-- Outermost nodes lie one after the other. -/
theorem pairwise_outermost (nested : t.Nested) (p : Located → Bool) {n : Node} {place : Place}
    (h : t.Holds ⟨place, n⟩) :
    (n.outermost p place).Pairwise fun a b => a.span.stop ≤ b.span.start := by
  induction n using Node.induction_children generalizing place with
  | step n ih =>
    rw [Node.outermost_eq]
    split
    · exact List.pairwise_singleton _ _
    · -- the children from number `i` on, for every `i`
      suffices ∀ ns i, (∀ k c, ns[k]? = some c → n.children[i + k]? = some c) →
          ns.Pairwise (fun a b => a.span.stop ≤ b.span.start) →
          (Node.outermostFrom p place i ns).Pairwise fun a b => a.span.stop ≤ b.span.start by
        exact this n.children 0 (by simp) (nested _ h).apart
      intro ns
      induction ns with
      | nil => simp [Node.outermostFrom]
      | cons c ns ihs =>
        intro i children apart
        obtain ⟨before, apart⟩ := List.pairwise_cons.1 apart
        have hc := children 0 c rfl
        have held := (Tree.holds_cons_iff h).2 hc
        have later (k : Nat) (d : Node) (hd : ns[k]? = some d) :
            n.children[i + 1 + k]? = some d := by
          rw [show i + 1 + k = i + (k + 1) by omega]
          exact children (k + 1) d hd
        rw [Node.outermostFrom, List.pairwise_append]
        refine ⟨ih c (List.mem_of_getElem? hc) held, ihs (i + 1) later apart, ?_⟩
        intro a ha b hb
        obtain ⟨k, d, hd, hb⟩ := (Node.mem_outermostFrom p).1 hb
        have first := nested.within_of_mem_outermost held ha
        have second := nested.within_of_mem_outermost ((Tree.holds_cons_iff h).2 (later k d hd)) hb
        have := before d (List.mem_of_getElem? hd)
        omega

end Tree.Nested

end SolidityInlay.Host
