import SolidityInlay.Proofs.Walk

/-!
# The sequence of a walk

What a walk shows to its visitor: the node it starts on, and then, unless the visitor wants to skip
it, the children from left to right, each with all below it that is not skipped. The visitor may
answer by what it saw before. Nothing is shown twice, and nothing outside the start, even if the
cursor could leave it and only the comparison with the start keeps it inside.

Main definitions: `Node.preorder`, `walkWithin`. Main statement: `walk_eq_preorder`.
-/

namespace SolidityInlay.Host

/-! ## Visits in order -/

section

variable {σ : Type} (visit : σ → Located → σ × Descend)

mutual

/-- The state after a node and what is wanted below it, and the nodes visited. -/
def Node.preorder (state : σ) (place : Place) : Node → σ × List Located
  | .mk label role span children =>
    match visit state ⟨place, .mk label role span children⟩ with
    | (next, .skip) => (next, [⟨place, .mk label role span children⟩])
    | (next, .children) =>
      let below := Node.preorderFrom next place 0 children
      (below.1, ⟨place, .mk label role span children⟩ :: below.2)

def Node.preorderFrom (state : σ) (parent : Place) (i : Nat) : List Node → σ × List Located
  | [] => (state, [])
  | n :: ns =>
    let first := n.preorder state (i :: parent)
    let rest := Node.preorderFrom first.1 parent (i + 1) ns
    (rest.1, first.2 ++ rest.2)

end

theorem Node.preorder_eq (state : σ) (place : Place) (n : Node) :
    n.preorder visit state place =
      match visit state ⟨place, n⟩ with
      | (next, .skip) => (next, [⟨place, n⟩])
      | (next, .children) =>
        let below := Node.preorderFrom visit next place 0 n.children
        (below.1, ⟨place, n⟩ :: below.2) := by
  cases n
  rw [Node.preorder]
  rfl

def recording (state : σ × List Located) (l : Located) : (σ × List Located) × Descend :=
  match visit state.1 l with
  | (next, descend) => ((next, state.2 ++ [l]), descend)

mutual

/-- Writing down what a visitor sees gives the recursive preorder, without changing the visitor. -/
theorem Node.traverse_recording (state : σ) (seen : List Located) (place : Place) (n : Node) :
    n.traverse (recording visit) (state, seen) place =
      ((n.preorder visit state place).1, seen ++ (n.preorder visit state place).2) := by
  cases n with
  | mk label role span children =>
    rw [Node.traverse, Node.preorder, recording]
    match visit state ⟨place, .mk label role span children⟩ with
    | (next, .skip) => rfl
    | (next, .children) =>
      simp only [Node.traverseFrom_recording next (seen ++ [_]) place 0 children]
      simp

theorem Node.traverseFrom_recording (state : σ) (seen : List Located) (parent : Place) (i : Nat)
    (ns : List Node) :
    Node.traverseFrom (recording visit) (state, seen) parent i ns =
      ((Node.preorderFrom visit state parent i ns).1,
        seen ++ (Node.preorderFrom visit state parent i ns).2) := by
  cases ns with
  | nil => simp [Node.traverseFrom, Node.preorderFrom]
  | cons n ns =>
    rw [Node.traverseFrom, Node.traverse_recording state seen (i :: parent) n,
      Node.traverseFrom_recording _ _ parent (i + 1) ns]
    simp [Node.preorderFrom]

end

mutual

/-- Visiting and listing agree on the state. -/
theorem Node.traverse_eq_preorder (state : σ) (place : Place) (n : Node) :
    n.traverse visit state place = (n.preorder visit state place).1 := by
  cases n with
  | mk label role span children =>
    rw [Node.traverse, Node.preorder]
    match visit state ⟨place, .mk label role span children⟩ with
    | (next, .skip) => rfl
    | (next, .children) => exact Node.traverseFrom_eq_preorderFrom next place 0 children

theorem Node.traverseFrom_eq_preorderFrom (state : σ) (parent : Place) (i : Nat) (ns : List Node) :
    Node.traverseFrom visit state parent i ns =
      (Node.preorderFrom visit state parent i ns).1 := by
  cases ns with
  | nil => rfl
  | cons n ns =>
    rw [Node.traverseFrom, Node.traverse_eq_preorder state (i :: parent) n]
    exact Node.traverseFrom_eq_preorderFrom _ parent (i + 1) ns

end

/-! ## What is visited -/

variable {visit}

theorem Node.mem_preorderFrom {state : σ} {parent : Place} {i : Nat} {ns : List Node} {l : Located}
    (h : l ∈ (Node.preorderFrom visit state parent i ns).2) :
    ∃ (k : Nat) (c : Node) (before : σ), ns[k]? = some c ∧
      l ∈ (c.preorder visit before ((i + k) :: parent)).2 := by
  induction ns generalizing state i with
  | nil => simp [Node.preorderFrom] at h
  | cons n ns ih =>
    rw [Node.preorderFrom] at h
    rcases List.mem_append.1 h with h | h
    · exact ⟨0, n, state, rfl, h⟩
    · obtain ⟨k, c, before, hk, h⟩ := ih h
      exact ⟨k + 1, c, before, hk, by rwa [show i + (k + 1) = i + 1 + k by omega]⟩

/-- What is visited is the node itself, or below one of its children. -/
theorem Node.mem_preorder {state : σ} {place : Place} {n : Node} {l : Located}
    (h : l ∈ (n.preorder visit state place).2) :
    l = ⟨place, n⟩ ∨ ∃ (k : Nat) (c : Node) (before : σ), n.children[k]? = some c ∧
      l ∈ (c.preorder visit before (k :: place)).2 := by
  rw [Node.preorder_eq] at h
  split at h
  · exact .inl (List.mem_singleton.1 h)
  · rcases List.mem_cons.1 h with h | h
    · exact .inl h
    · obtain ⟨k, c, before, hk, h⟩ := Node.mem_preorderFrom h
      exact .inr ⟨k, c, before, hk, by rwa [Nat.zero_add] at h⟩

/-- Nothing outside the subtree is visited. -/
theorem suffix_of_mem_preorder {state : σ} {place : Place} {n : Node} {l : Located}
    (h : l ∈ (n.preorder visit state place).2) : place <:+ l.place := by
  induction n using Node.induction_children generalizing state place with
  | step n ih =>
    rcases Node.mem_preorder h with rfl | ⟨k, c, before, hk, h⟩
    · exact List.suffix_refl _
    · exact (List.suffix_cons k place).trans (ih c (List.mem_of_getElem? hk) h)

/-- Every node visited stands in the tree. -/
theorem holds_of_mem_preorder {t : Tree} {state : σ} {place : Place} {n : Node} {l : Located}
    (held : t.Holds ⟨place, n⟩) (h : l ∈ (n.preorder visit state place).2) : t.Holds l := by
  induction n using Node.induction_children generalizing state place with
  | step n ih =>
    rcases Node.mem_preorder h with rfl | ⟨k, c, before, hk, h⟩
    · exact held
    · exact ih c (List.mem_of_getElem? hk) ((Tree.holds_cons_iff held).2 hk) h

/-- Two children of one node have nothing below them in common. -/
theorem Place.eq_of_cons_suffix {i k : Nat} {parent place : Place} (hi : i :: parent <:+ place)
    (hk : k :: parent <:+ place) : i = k := by
  have same : i :: parent = k :: parent :=
    (List.suffix_of_suffix_length_le hi hk (by simp)).eq_of_length (by simp)
  exact (List.cons.inj same).1

/-- No node is visited twice. -/
theorem nodup_preorder (state : σ) (place : Place) (n : Node) :
    ((n.preorder visit state place).2.map Located.place).Nodup := by
  induction n using Node.induction_children generalizing state place with
  | step n ih =>
    -- the children from number `i` on, for every `i`
    have children (ns : List Node) (sub : ∀ c ∈ ns, c ∈ n.children) (state : σ) (i : Nat) :
        ((Node.preorderFrom visit state place i ns).2.map Located.place).Nodup := by
      induction ns generalizing state i with
      | nil => simp [Node.preorderFrom]
      | cons c ns ihs =>
        rw [Node.preorderFrom, List.map_append, List.nodup_append]
        refine ⟨ih c (sub c (by simp)) _ _, ihs (fun c hc => sub c (by simp [hc])) _ _, ?_⟩
        intro p hp q hq same
        obtain ⟨a, ha, rfl⟩ := List.mem_map.1 hp
        obtain ⟨b, hb, rfl⟩ := List.mem_map.1 hq
        obtain ⟨k, d, before, _, hb⟩ := Node.mem_preorderFrom hb
        have first := suffix_of_mem_preorder ha
        have later := suffix_of_mem_preorder hb
        rw [← same] at later
        have := Place.eq_of_cons_suffix first later
        omega
    rw [Node.preorder_eq]
    split
    · simp
    · rename_i next _
      refine List.nodup_cons.2 ⟨?_, children n.children (fun _ hc => hc) next 0⟩
      intro visited
      obtain ⟨a, ha, same⟩ := List.mem_map.1 visited
      obtain ⟨k, c, before, _, ha⟩ := Node.mem_preorderFrom ha
      have below := (suffix_of_mem_preorder ha).length_le
      simp only [same, List.length_cons] at below
      omega

end

/-! ## A cursor that is kept inside -/

namespace Cursor

/-- The next sibling, or that of the nearest ancestor that has one, but never one of the node at
`root` or of what is above it. -/
def onwardWithin? (root : Place) (c : Cursor) : Option Cursor :=
  if c.place = root then none
  else
    match c.nextSibling? with
    | some next => some next
    | none =>
      match h : c.parent? with
      | none => none
      | some up =>
        have := length_frames_lt_of_parent? h
        up.onwardWithin? root
termination_by c.frames.length

def advanceWithin? (root : Place) (c : Cursor) : Descend → Option Cursor
  | .children =>
    match c.firstChild? with
    | some child => some child
    | none => c.onwardWithin? root
  | .skip => c.onwardWithin? root

theorem onwardWithin?_eq (root : Place) (c : Cursor) :
    c.onwardWithin? root =
      if c.place = root then none
      else c.nextSibling?.or (c.parent?.bind (onwardWithin? root)) := by
  rw [onwardWithin?]
  split
  · rfl
  · split
    · simp_all
    · split <;> simp_all

theorem onward?_eq (c : Cursor) : c.onward? = c.nextSibling?.or (c.parent?.bind onward?) := by
  rw [onward?]
  split
  · simp_all
  · split <;> simp_all

/-- A cursor kept inside goes where a free one goes, or nowhere. -/
theorem onward?_of_onwardWithin? {root : Place} {c next : Cursor}
    (h : c.onwardWithin? root = some next) : c.onward? = some next := by
  fun_induction onwardWithin? root c with
  | case1 => simp at h
  | case2 c _ sibling hs => rw [onward?_eq, hs, Option.some_or, h]
  | case3 => simp at h
  | case4 c _ last up hp _ ih => rw [onward?_eq, last, hp, Option.none_or, Option.bind_some, ih h]

theorem advance?_of_advanceWithin? {root : Place} {c next : Cursor} {descend : Descend}
    (h : c.advanceWithin? root descend = some next) : c.advance? descend = some next := by
  cases descend with
  | skip => exact onward?_of_onwardWithin? h
  | children =>
    simp only [advanceWithin?, advance?] at h ⊢
    cases hc : c.firstChild? with
    | some child => rwa [hc] at h
    | none =>
      rw [hc] at h
      exact onward?_of_onwardWithin? h

end Cursor

/-- The walk of a cursor that may have come from above, kept inside the node at `root`. -/
def walkWithin {σ : Type} (root : Place) (visit : σ → Cursor → σ × Descend) (state : σ)
    (c : Cursor) : σ :=
  let (next, descend) := visit state c
  match h : c.advanceWithin? root descend with
  | none => next
  | some c' =>
    have := Cursor.remaining_advance? (Cursor.advance?_of_advanceWithin? h)
    walkWithin root visit next c'
termination_by c.remaining

theorem walkWithin_of_visit {σ : Type} {root : Place} {visit : σ → Cursor → σ × Descend}
    {state next : σ} {c : Cursor} {descend : Descend} (h : visit state c = (next, descend)) :
    walkWithin root visit state c =
      match c.advanceWithin? root descend with
      | none => next
      | some c' => walkWithin root visit next c' := by
  rw [walkWithin]
  simp only [h]
  split <;> (rename_i step; rw [h] at step; rw [step])

namespace Cursor

/-- The cursor in a larger tree: more is above the node it starts on. -/
def under (above : List Frame) (c : Cursor) : Cursor := ⟨c.node, c.place, c.frames ++ above⟩

theorem place_under (above : List Frame) (c : Cursor) : (c.under above).place = c.place := rfl

/-- The cursor has a frame for each level between `root` and its place. -/
def Below (root : Place) (c : Cursor) : Prop :=
  ∃ path : Place, c.place = path ++ root ∧ path.length = c.frames.length

variable {root : Place} {above : List Frame} {c next up : Cursor} {descend : Descend}

theorem below_start (node : Node) (root : Place) : Below root (start node root) :=
  ⟨[], rfl, rfl⟩

theorem Below.firstChild? (below : Below root c) (h : c.firstChild? = some next) :
    Below root next := by
  obtain ⟨path, place, length⟩ := below
  unfold Cursor.firstChild? at h
  split at h
  · simp at h
  · obtain rfl := Option.some.inj h
    exact ⟨0 :: path, by simp [place], by simp [length]⟩

theorem Below.nextSibling? (below : Below root c) (h : c.nextSibling? = some next) :
    Below root next := by
  obtain ⟨node, place, frames⟩ := c
  obtain ⟨path, place_eq, length⟩ := below
  unfold Cursor.nextSibling? at h
  split at h
  · rename_i parent sibling rest up i above hf hp
    obtain rfl := Option.some.inj h
    simp only at hf hp place_eq length
    subst hf hp
    cases path with
    | nil => simp at length
    | cons k path =>
      obtain ⟨rfl, rfl⟩ := List.cons.inj place_eq
      exact ⟨(i + 1) :: path, rfl, length⟩
  · simp at h

theorem Below.parent? (below : Below root c) (h : c.parent? = some up) : Below root up := by
  obtain ⟨node, place, frames⟩ := c
  obtain ⟨path, place_eq, length⟩ := below
  simp only at place_eq length
  cases frames with
  | nil => simp [Cursor.parent?] at h
  | cons frame frames =>
    cases path with
    | nil => simp at length
    | cons k path =>
      obtain rfl := Option.some.inj h
      exact ⟨path, by simp [place_eq], by simpa using length⟩

theorem Below.onward? (below : Below root c) (h : c.onward? = some next) : Below root next := by
  fun_induction Cursor.onward? c with
  | case1 c sibling hs => exact below.nextSibling? (h ▸ hs)
  | case2 => simp at h
  | case3 c _ up hp _ ih => exact ih (below.parent? hp) h

/-- A move after a visit stays below the root. -/
theorem Below.advance? (below : Below root c) (h : c.advance? descend = some next) :
    Below root next := by
  cases descend with
  | skip => exact below.onward? h
  | children =>
    simp only [Cursor.advance?] at h
    cases hc : c.firstChild? with
    | some child =>
      rw [hc] at h
      exact below.firstChild? (h ▸ hc)
    | none =>
      rw [hc] at h
      exact below.onward? h

theorem firstChild?_under (above : List Frame) (c : Cursor) :
    (c.under above).firstChild? = c.firstChild?.map (under above) := by
  unfold firstChild?
  simp only [under]
  split <;> simp [under]

theorem nextSibling?_under (above : List Frame) (node : Node) (place : Place) (frame : Frame)
    (frames : List Frame) :
    (under above ⟨node, place, frame :: frames⟩).nextSibling? =
      (nextSibling? ⟨node, place, frame :: frames⟩).map (under above) := by
  obtain ⟨parent, right⟩ := frame
  cases right with
  | nil => cases place <;> rfl
  | cons sibling rest => cases place <;> rfl

/-- Kept inside, a cursor in a larger tree goes where the one goes that cannot leave. -/
theorem onwardWithin?_under (above : List Frame) (below : Below root c) :
    (c.under above).onwardWithin? root = c.onward?.map (under above) := by
  obtain ⟨node, place, frames⟩ := c
  induction frames generalizing node place with
  | nil =>
    obtain ⟨path, place_eq, length⟩ := below
    obtain rfl : path = [] := List.length_eq_zero_iff.1 length
    have here : place = root := place_eq
    rw [onwardWithin?_eq, place_under, if_pos here, onward?_eq]
    simp [nextSibling?, parent?]
  | cons frame frames ih =>
    have up : Below root ⟨frame.parent, place.tail, frames⟩ := below.parent? rfl
    obtain ⟨path, place_eq, length⟩ := below
    simp only [List.length_cons] at place_eq length
    have inside : place ≠ root := by
      intro same
      have := congrArg List.length (same ▸ place_eq)
      simp only [List.length_append] at this
      omega
    rw [onwardWithin?_eq, place_under, if_neg inside, onward?_eq, Option.map_or]
    congr 1
    · exact nextSibling?_under above node place frame frames
    · exact ih frame.parent place.tail up

/-- A cursor that came from above moves like one that starts on the root. -/
theorem advanceWithin?_under (above : List Frame) (below : Below root c) (descend : Descend) :
    (c.under above).advanceWithin? root descend = (c.advance? descend).map (under above) := by
  cases descend with
  | skip => exact onwardWithin?_under above below
  | children =>
    simp only [advanceWithin?, Cursor.advance?, firstChild?_under]
    cases c.firstChild? with
    | some child => rfl
    | none => exact onwardWithin?_under above below

end Cursor

/-! ## The walk -/

section

variable {σ : Type} (visit : σ → Located → σ × Descend)

def atCursor (state : σ) (c : Cursor) : σ × Descend := visit state ⟨c.place, c.node⟩

/-- A walk kept inside a node is the walk that starts on it, whatever is above. -/
theorem walkWithin_under {root : Place} (above : List Frame) (state : σ) {c : Cursor}
    (below : c.Below root) :
    walkWithin root (atCursor visit) state (c.under above) = walk (atCursor visit) state c := by
  induction state, c using walk.induct (atCursor visit) with
  | case1 state c next descend hv done =>
    have hv' : atCursor visit state (c.under above) = (next, descend) := hv
    rw [walk_of_visit hv, walkWithin_of_visit hv', Cursor.advanceWithin?_under above below, done]
    rfl
  | case2 state c next descend hv c' more _ ih =>
    have hv' : atCursor visit state (c.under above) = (next, descend) := hv
    rw [walk_of_visit hv, walkWithin_of_visit hv', Cursor.advanceWithin?_under above below, more]
    exact ih (below.advance? more)

def Located.preorder (state : σ) (l : Located) : σ × List Located :=
  l.node.preorder visit state l.place

/-- The walk visits the node it starts on and what is wanted below it, in order, whatever the
visitor answers, and so does a cursor that could leave the node but is kept inside. No node is
visited twice, and none that is not at or below the start. -/
theorem walk_eq_preorder (state : σ) {t : Tree} {root : Located} (held : t.Holds root)
    (above : List Frame) :
    walk (atCursor visit) state (.start root.node root.place) = (root.preorder visit state).1 ∧
      walk (atCursor (recording visit)) (state, []) (.start root.node root.place) =
        root.preorder visit state ∧
      walkWithin root.place (atCursor (recording visit)) (state, [])
        ⟨root.node, root.place, above⟩ = root.preorder visit state ∧
      ((root.preorder visit state).2.map Located.place).Nodup ∧
      ∀ l ∈ (root.preorder visit state).2, t.Holds l ∧ root.place <:+ l.place := by
  have recorded : walk (atCursor (recording visit)) (state, []) (.start root.node root.place) =
      root.preorder visit state := by
    calc walk (atCursor (recording visit)) (state, []) (.start root.node root.place)
        = root.node.traverse (recording visit) (state, []) root.place := walk_eq_traverse ..
      _ = root.preorder visit state := Node.traverse_recording ..
  refine ⟨?_, recorded, ?_, nodup_preorder .., fun l hl => ?_⟩
  · exact (walk_eq_traverse visit state root).trans (Node.traverse_eq_preorder ..)
  · rw [← recorded]
    exact walkWithin_under (recording visit) above (state, []) (Cursor.below_start ..)
  · exact ⟨holds_of_mem_preorder held hl, suffix_of_mem_preorder hl⟩

end

/-- Two statements, of which the first has something below its last child. -/
def twoStatements : Tree where
  text := "f(x);y;".toList
  root :=
    .mk (.named .program) none ⟨0, 7⟩ [
      .mk (.named .expressionStatement) none ⟨0, 5⟩ [
        .mk (.named .callExpression) none ⟨0, 4⟩ [
          .mk (.named .identifier) (some .function) ⟨0, 1⟩ [],
          .mk (.named .arguments) (some .arguments) ⟨1, 4⟩ [
            .mk (.token "(") none ⟨1, 2⟩ [],
            .mk (.named .identifier) none ⟨2, 3⟩ [],
            .mk (.token ")") none ⟨3, 4⟩ []]],
        .mk (.token ";") none ⟨4, 5⟩ []],
      .mk (.named .expressionStatement) none ⟨5, 7⟩ [
        .mk (.named .identifier) none ⟨5, 6⟩ [],
        .mk (.token ";") none ⟨6, 7⟩ []]]

/-- Skips everything once it has seen three nodes. -/
def patience (seen : Nat) (_ : Located) : Nat × Descend :=
  (seen + 1, if seen < 3 then .children else .skip)

def twoStatements.first : Located := ⟨[0], (twoStatements.root.get? [0]).getD default⟩

theorem walk_eq_preorder_twoStatements :
    twoStatements.Holds twoStatements.first ∧
      walk (atCursor patience) 0 (.start twoStatements.first.node [0]) = 5 ∧
      (walk (atCursor (recording patience)) (0, [])
        (.start twoStatements.first.node [0])).2.map Located.place =
          [[0], [0, 0], [0, 0, 0], [1, 0, 0], [1, 0]] := by
  have held : twoStatements.Holds twoStatements.first := rfl
  obtain ⟨last, recorded, _⟩ := walk_eq_preorder patience 0 held []
  refine ⟨held, last, ?_⟩
  rw [show ([0] : Place) = twoStatements.first.place from rfl, recorded]
  rfl

end SolidityInlay.Host
