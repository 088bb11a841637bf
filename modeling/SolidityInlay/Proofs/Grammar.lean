import Mathlib.Data.List.Pairwise
import Mathlib.Data.List.TakeDrop
import SolidityInlay.Host.Grammar.Parse
import SolidityInlay.Proofs.Site

/-!
# Parsers that lay nodes over a text

A parser of the host grammar answers nodes and the input after them. Here it is said what it takes
for such nodes to be laid over the text: each fits, with all below it, and they follow one another
between the offset where reading began and the input reached. The combinators keep this. `LaysAt` is
a class, and has an instance for every combinator, so that instance resolution follows the
definition of a construct.

Main definitions: `Host.Fits`, `Host.Grammar.Laid`, `Host.Grammar.LaysAt`. Main statements:
`Host.Tree.laidOver_of_fits`, `Host.Grammar.Laid.gather`, `Host.Grammar.readGap_laid`.
-/

namespace SolidityInlay.Host

/-! ## Nodes that fit -/

/-- A substitution opens with a dollar sign and has its constructs strictly inside it. -/
structure Delimited (text : Text) (n : Node) : Prop where
  opened : (n.textIn text).head? = some '$'
  strict : ∀ e ∈ n.children, e.isNamed → n.span.start < e.span.start ∧ e.span.stop < n.span.stop

/-- A node that encloses its children and ends between characters of the text, and so does whatever
is below it. -/
inductive Fits (text : Text) : Node → Prop
  | intro {n : Node} : n.Encloses → text.IsBoundary n.span.start → text.IsBoundary n.span.stop →
      (n.label = .named .templateSubstitution → Delimited text n) →
      (∀ c ∈ n.children, Fits text c) → Fits text n

namespace Fits

variable {text : Text} {n : Node}

theorem encloses : Fits text n → n.Encloses
  | intro encloses _ _ _ _ => encloses

theorem isBoundary_start : Fits text n → text.IsBoundary n.span.start
  | intro _ start _ _ _ => start

theorem isBoundary_stop : Fits text n → text.IsBoundary n.span.stop
  | intro _ _ stop _ _ => stop

theorem delimited : Fits text n → n.label = .named .templateSubstitution → Delimited text n
  | intro _ _ _ delimited _ => delimited

theorem children : Fits text n → ∀ c ∈ n.children, Fits text c
  | intro _ _ _ _ children => children

/-- A leaf fits wherever it ends between characters. -/
theorem leaf {label : Label} {role : Option Role} {span : Span}
    (plain : label ≠ .named .templateSubstitution) (le : span.start ≤ span.stop)
    (start : text.IsBoundary span.start) (stop : text.IsBoundary span.stop) :
    Fits text (.mk label role span []) :=
  .intro ⟨le, by simp, by simp⟩ start stop (fun same => absurd same plain) (by simp)

/-- A node under another label and in another role fits as it did, unless it becomes a
substitution. -/
theorem relabel (h : Fits text n) {label : Label} (role : Option Role)
    (special : label = .named .templateSubstitution → n.label = label) :
    Fits text (.mk label role n.span n.children) := by
  refine .intro ⟨h.encloses.ordered, h.encloses.inside, h.encloses.apart⟩ h.isBoundary_start
    h.isBoundary_stop (fun substitution => ?_) h.children
  have delimited := h.delimited ((special substitution).trans substitution)
  exact ⟨delimited.opened, delimited.strict⟩

end Fits

/-- A node held by a tree fits when the root does. -/
theorem Tree.fits_of_holds {t : Tree} (h : Fits t.text t.root) {l : Located} (held : t.Holds l) :
    Fits t.text l.node := by
  obtain ⟨place, node⟩ := l
  induction place generalizing node with
  | nil =>
    obtain rfl : t.root = node := by simpa [Holds] using held
    exact h
  | cons i above ih =>
    obtain ⟨parent, held, child⟩ := Option.bind_eq_some_iff.mp held
    exact (ih parent held).children node (List.mem_of_getElem? child)

/-- A tree whose root fits is laid over the text. -/
theorem Tree.laidOver_of_fits {t : Tree} (h : Fits t.text t.root) : t.LaidOver where
  nested _ held := (t.fits_of_holds h held).encloses
  boundary _ held := ⟨(t.fits_of_holds h held).isBoundary_start,
    (t.fits_of_holds h held).isBoundary_stop⟩
  opened _ held is := ((t.fits_of_holds h held).delimited (eq_of_beq is)).opened
  strict l held is e operand := by
    have named := List.find?_some operand
    have child := List.mem_filter.mp (List.mem_of_find?_eq_some operand)
    exact ((t.fits_of_holds h held).delimited (eq_of_beq is)).strict e.node
      (Located.node_mem_of_mem_children child.1) child.2

namespace Grammar

variable {text : Text} {lo mid hi : Nat}

/-! ## Items in order -/

/-- Renaming moves nothing. -/
theorem map_span_rename {f : Node → Node} (same : ∀ n, (f n).span = n.span) (items : Items) :
    (rename f items).map Node.span = items.map Node.span := by
  fun_induction rename f items with grind

theorem mem_rename {f : Node → Node} {items : Items} {n : Node} (h : n ∈ rename f items) :
    n ∈ items ∨ ∃ m ∈ items, f m = n := by
  fun_induction rename f items with grind

theorem assign_eq_rename (r : Role) (items : Items) :
    assign r items = rename (Node.withRole r) items := by
  fun_induction assign r items with grind [rename]

/-- Nodes that fit over the text and follow one another between two offsets. -/
class Laid (text : Text) (lo hi : Nat) (items : Items) : Prop where
  fits : ∀ n ∈ items, Fits text n
  inside : ∀ n ∈ items, lo ≤ n.span.start ∧ n.span.stop ≤ hi
  apart : items.Pairwise fun a b => a.span.stop ≤ b.span.start

namespace Laid

instance nil : Laid text lo hi [] := ⟨by simp, by simp, by simp⟩

theorem singleton {n : Node} (fits : Fits text n) (start : lo ≤ n.span.start)
    (stop : n.span.stop ≤ hi) : Laid text lo hi [n] :=
  ⟨by simpa using fits, by simpa using ⟨start, stop⟩, by simp⟩

/-- Items laid over one part of the text and then over the next. -/
theorem append {items more : Items} (first : Laid text lo mid items) (rest : Laid text mid hi more)
    (from_le : lo ≤ mid) (le_to : mid ≤ hi) : Laid text lo hi (items ++ more) where
  fits n mem := (List.mem_append.mp mem).elim (first.fits n) (rest.fits n)
  inside n mem := by
    rcases List.mem_append.mp mem with mem | mem
    · have := first.inside n mem
      omega
    · have := rest.inside n mem
      omega
  apart := by
    refine List.pairwise_append.mpr ⟨first.apart, rest.apart, ?_⟩
    intro a ha b hb
    have := first.inside a ha
    have := rest.inside b hb
    omega

theorem mono {items : Items} {lo' hi' : Nat} (h : Laid text lo hi items) (from_le : lo' ≤ lo)
    (le_to : hi ≤ hi') : Laid text lo' hi' items where
  fits := h.fits
  inside n mem := by
    have := h.inside n mem
    omega
  apart := h.apart

/-- What stands before an item ends where the item starts. -/
theorem before {items rest : Items} {n : Node} (h : Laid text lo hi (items ++ n :: rest)) :
    Laid text lo n.span.start items where
  fits m mem := h.fits m (List.mem_append_left _ mem)
  inside m mem := ⟨(h.inside m (List.mem_append_left _ mem)).1,
    (List.pairwise_append.mp h.apart).2.2 m mem n List.mem_cons_self⟩
  apart := (List.pairwise_append.mp h.apart).1

theorem right {items more : Items} (h : Laid text lo hi (items ++ more)) :
    Laid text lo hi more where
  fits n mem := h.fits n (List.mem_append_right _ mem)
  inside n mem := h.inside n (List.mem_append_right _ mem)
  apart := (List.pairwise_append.mp h.apart).2.1

/-- Each item lies between the start of the first and the end of the last. -/
theorem within_ends {first : Node} {rest : Items} (h : Laid text lo hi (first :: rest)) {n : Node}
    (mem : n ∈ first :: rest) :
    first.span.start ≤ n.span.start ∧
      n.span.stop ≤ ((first :: rest).getLast (by simp)).span.stop := by
  have chain : (first :: rest).Pairwise fun a b =>
      a.span.start ≤ b.span.start ∧ a.span.stop ≤ b.span.stop := by
    refine h.apart.imp_of_mem fun {a b} ha hb before => ?_
    have := (h.fits a ha).encloses.ordered
    have := (h.fits b hb).encloses.ordered
    omega
  exact ⟨(chain.rel_head_of_rel_head_head mem ⟨Nat.le_refl _, Nat.le_refl _⟩).1,
    (chain.rel_getLast_of_rel_getLast_getLast mem ⟨Nat.le_refl _, Nat.le_refl _⟩).2⟩

/-- A node from the first to the last of some items fits around them. -/
theorem fits_around {label : Label} {first : Node} {rest : Items}
    (h : Laid text lo hi (first :: rest))
    (special : label = .named .templateSubstitution → Delimited text (.mk label none
      ⟨first.span.start, ((first :: rest).getLast (by simp)).span.stop⟩ (first :: rest))) :
    Fits text (.mk label none
      ⟨first.span.start, ((first :: rest).getLast (by simp)).span.stop⟩ (first :: rest)) := by
  have first_fits := h.fits first List.mem_cons_self
  have last_fits := h.fits _ (List.getLast_mem (l := first :: rest) (by simp))
  refine .intro ⟨?_, fun n mem => h.within_ends mem, h.apart⟩ first_fits.isBoundary_start
    last_fits.isBoundary_stop special h.fits
  have := h.within_ends (List.mem_cons_self (a := first) (l := rest))
  have := first_fits.encloses.ordered
  simp only [Node.span_mk]
  omega

/-- Gathering items into one node keeps them in order, comments in front of it left outside. -/
theorem gather {label : Label} {items : Items} (h : Laid text lo hi items)
    (special : label = .named .templateSubstitution → ∀ comments first rest,
      splitComments items = (comments, first :: rest) → Delimited text (.mk label none
        ⟨first.span.start, ((first :: rest).getLast (by simp)).span.stop⟩ (first :: rest))) :
    Laid text lo hi (gather label items) := by
  have whole : (splitComments items).1 ++ (splitComments items).2 = items := by
    simp [splitComments, List.span_eq_takeWhile_dropWhile, List.takeWhile_append_dropWhile]
  unfold Grammar.gather
  split
  · next comments first rest split =>
    rw [split] at whole
    subst whole
    have node := h.right.fits_around fun same => special same comments first rest split
    have last := (h.right.inside _ (List.getLast_mem (l := first :: rest) (by simp))).2
    have around := (h.right.inside first List.mem_cons_self).1
    exact h.before.append (.singleton node (Nat.le_refl _) last) around
      (Nat.le_trans node.encloses.ordered last)
  · next comments split =>
    rw [split] at whole
    obtain rfl : comments = items := by simpa using whole
    exact h

/-- Other nodes that fit at the same spans. -/
theorem of_map_span {items items' : Items} (h : Laid text lo hi items)
    (same : items'.map Node.span = items.map Node.span) (fits : ∀ n ∈ items', Fits text n) :
    Laid text lo hi items' where
  fits := fits
  inside n mem := by
    have spanned : n.span ∈ items.map Node.span := same ▸ List.mem_map_of_mem mem
    obtain ⟨m, mem, eq⟩ := List.mem_map.mp spanned
    exact eq ▸ h.inside m mem
  apart := by
    have spans : (items.map Node.span).Pairwise fun s t => s.stop ≤ t.start :=
      List.pairwise_map.mpr h.apart
    exact List.pairwise_map.mp (same ▸ spans)

/-- The last item can be changed where it stands. -/
theorem rename {f : Node → Node} {items : Items} (h : Laid text lo hi items)
    (same : ∀ n, (f n).span = n.span) (keeps : ∀ n, Fits text n → Fits text (f n)) :
    Laid text lo hi (rename f items) := by
  refine h.of_map_span (map_span_rename same items) fun n mem => ?_
  rcases mem_rename mem with kept | ⟨m, held, rfl⟩
  · exact h.fits n kept
  · exact keeps m (h.fits m held)

end Laid

/-! ## What the input is -/

def Input.IsRest (text : Text) (input : Input) : Prop :=
  ∃ front, text = front ++ input.rest ∧ front.size = input.pos

theorem Input.IsRest.isBoundary {input : Input} (h : input.IsRest text) :
    text.IsBoundary input.pos := by
  obtain ⟨front, whole, size⟩ := h
  exact ⟨front, input.rest, whole, size⟩

theorem Input.IsRest.advance {c : Char} {rest : Text} {pos left : Nat}
    (h : Input.IsRest text ⟨c :: rest, pos, left⟩) (left' : Nat) :
    Input.IsRest text ⟨rest, pos + c.utf8Size, left'⟩ := by
  obtain ⟨front, whole, size⟩ := h
  exact ⟨front ++ [c], by simp [whole], by simp [size]⟩

/-- What is left after skipping is the rest of the text from there on. -/
theorem Input.IsRest.skip {input : Input} (h : input.IsRest text) (n : Nat) :
    (input.skip n).IsRest text := by
  fun_induction Input.skip n input with
  | case1 input => exact h
  | case2 n c rest pos left ih => exact ih (h.advance (left - 1))
  | case3 input => exact h

theorem Input.le_skip (n : Nat) (input : Input) : input.pos ≤ (input.skip n).pos := by
  fun_induction Input.skip n input with
  | case1 input => exact Nat.le_refl _
  | case2 n c rest pos left ih => exact Nat.le_trans (Nat.le_add_right _ _) ih
  | case3 input => exact Nat.le_refl _

theorem Input.lt_skip {n : Nat} {input : Input} (some : n ≠ 0) (left : input.rest ≠ []) :
    input.pos < (input.skip n).pos := by
  obtain ⟨_ | ⟨c, rest⟩, pos, count⟩ := input
  · exact absurd rfl left
  · obtain ⟨n, rfl⟩ := Nat.exists_eq_succ_of_ne_zero some
    have moved := Input.le_skip n ⟨rest, pos + c.utf8Size, count - 1⟩
    have positive := c.utf8Size_pos
    simp only [Input.skip] at moved ⊢
    omega

/-- The text between an input and a later boundary begins with the character the input begins
with. -/
theorem Input.IsRest.head?_slice {input : Input} (h : input.IsRest text) {stop : Nat}
    (boundary : text.IsBoundary stop) (lt : input.pos < stop) :
    (text.slice ⟨input.pos, stop⟩).head? = input.rest.head? := by
  have reads := h.isBoundary.readsAt_slice boundary (Nat.le_of_lt lt)
  obtain ⟨front, whole, size⟩ := h
  obtain ⟨_, _, _, _, stop_eq⟩ := reads
  have cut : text.slice ⟨input.pos, stop⟩ = Text.takeBytes (stop - input.pos) input.rest := by
    rw [Text.slice, ← size, whole, Text.dropBytes_size_append]
  rw [cut] at stop_eq ⊢
  cases rest : input.rest with
  | nil => rfl
  | cons c cs =>
    rw [rest] at stop_eq
    by_cases fits : c.utf8Size ≤ stop - input.pos
    · simp [Text.takeBytes, fits]
    · simp [Text.takeBytes, fits] at stop_eq
      omega

/-! ## The gap in front of a token -/

def GapState.begin (pos : Nat) : GapState → Nat
  | .between => pos
  | .line start => start
  | .block opening => opening.pos

/-- What holds while a gap is read: the comments so far are laid up to where what is being read
began, and an open block comment can still be left unread. -/
structure GapLaid (text : Text) (lo pos : Nat) (gap : Gap) (state : GapState) : Prop where
  le : state.begin pos ≤ pos
  from_le : lo ≤ state.begin pos
  isBoundary : text.IsBoundary (state.begin pos)
  laid : Laid text lo (state.begin pos) gap.comments.reverse
  opening : ∀ opening, state = .block opening → opening.IsRest text

namespace GapLaid

variable {pos : Nat} {gap : Gap} {state : GapState}

/-- Nothing changes when more is read. -/
theorem later {stop : Nat} (h : GapLaid text lo pos gap state) (le : pos ≤ stop)
    (boundary : text.IsBoundary stop) : GapLaid text lo stop gap state := by
  obtain ⟨begin_le, from_le, isBoundary, laid, opening⟩ := h
  cases state with
  | between =>
    exact ⟨Nat.le_refl _, Nat.le_trans from_le le, boundary, laid.mono (Nat.le_refl _) le, opening⟩
  | line start => exact ⟨Nat.le_trans begin_le le, from_le, isBoundary, laid, opening⟩
  | block start => exact ⟨Nat.le_trans begin_le le, from_le, isBoundary, laid, opening⟩

theorem broken (h : GapLaid text lo pos gap state) (c : Char) :
    GapLaid text lo pos (gap.broken c) state :=
  ⟨h.le, h.from_le, h.isBoundary, h.laid, h.opening⟩

theorem line (h : GapLaid text lo pos gap .between) : GapLaid text lo pos gap (.line pos) :=
  ⟨h.le, h.from_le, h.isBoundary, h.laid, by simp⟩

/-- A block comment begins behind the comments so far and can still be left unread. -/
theorem block {opening : Input} (h : GapLaid text lo opening.pos gap .between)
    (isRest : opening.IsRest text) : GapLaid text lo opening.pos gap (.block opening) :=
  ⟨h.le, h.from_le, h.isBoundary, h.laid, by simpa using isRest⟩

/-- A comment that ends is laid. -/
theorem push {stop : Nat} (h : GapLaid text lo pos gap state) (le : pos ≤ stop)
    (boundary : text.IsBoundary stop) :
    GapLaid text lo stop (gap.push (state.begin pos) stop) .between where
  le := Nat.le_refl _
  from_le := Nat.le_trans h.from_le (Nat.le_trans h.le le)
  isBoundary := boundary
  laid := by
    have begin_le := Nat.le_trans h.le le
    have comment : Laid text (state.begin pos) stop
        [.mk (.named .comment) none ⟨state.begin pos, stop⟩ []] :=
      .singleton (.leaf (by simp) begin_le h.isBoundary boundary) (Nat.le_refl _) (Nat.le_refl _)
    simpa [Gap.push, GapState.begin] using h.laid.append comment h.from_le begin_le
  opening := by simp

end GapLaid

/-- Reading a gap ends at an input of the text, with the comments laid in front of it. -/
theorem readGap_laid {gap : Gap} {state : GapState} {rest : Text} {pos left : Nat}
    (h : GapLaid text lo pos gap state) (isRest : Input.IsRest text ⟨rest, pos, left⟩) :
    (readGap gap state rest pos left).2.IsRest text ∧
      GapLaid text lo (readGap gap state rest pos left).2.pos (readGap gap state rest pos left).1
        .between := by
  fun_induction readGap gap state rest pos left with
  | case1 gap pos left => exact ⟨isRest, h⟩
  | case2 gap start pos left => exact ⟨isRest, h.push (Nat.le_refl _) isRest.isBoundary⟩
  | case3 gap opening pos left =>
    exact ⟨h.opening opening rfl, ⟨Nat.le_refl _, h.from_le, h.isBoundary, h.laid, by simp⟩⟩
  | case4 gap start c cs pos left _ ih =>
    have next := isRest.advance (left - 1)
    have pushed := h.push (Nat.le_refl _) isRest.isBoundary
    exact ih ((pushed.broken c).later (Nat.le_add_right _ _) next.isBoundary) next
  | case5 gap start c cs pos left _ ih =>
    have next := isRest.advance (left - 1)
    exact ih (h.later (Nat.le_add_right _ _) next.isBoundary) next
  | case6 gap opening cs pos left ih =>
    have next := (isRest.advance (left - 1)).advance (left - 2)
    exact ih (h.push (Nat.le_add_right _ _) next.isBoundary) next
  | case7 gap opening c cs pos left _ ih =>
    have next := isRest.advance (left - 1)
    exact ih (h.later (Nat.le_add_right _ _) next.isBoundary) next
  | case8 gap cs pos left ih =>
    have next := (isRest.advance (left - 1)).advance (left - 2)
    exact ih (h.line.later (Nat.le_add_right _ _) next.isBoundary) next
  | case9 gap cs pos left ih =>
    have next := (isRest.advance (left - 1)).advance (left - 2)
    exact ih ((h.block isRest).later (Nat.le_add_right _ _) next.isBoundary) next
  | case10 gap c cs pos left _ _ _ ih =>
    have next := isRest.advance (left - 1)
    exact ih ((h.broken c).later (Nat.le_add_right _ _) next.isBoundary) next
  | case11 gap c cs pos left => exact ⟨isRest, h⟩

/-! ## Parsers -/

/-- An input of the text at or behind the offset where reading began. -/
structure Reached (text : Text) (lo : Nat) where
  input : Input
  isRest : input.IsRest text
  from_le : lo ≤ input.pos

def Reached.ofText (text : Text) : Reached text 0 := ⟨.ofText text, ⟨[], rfl, rfl⟩, Nat.zero_le _⟩

def Input.IsRest.reached {input : Input} (h : input.IsRest text) : Reached text input.pos :=
  ⟨input, h, Nat.le_refl _⟩

def Reached.further (here : Reached text lo) (after : Reached text here.input.pos) :
    Reached text lo :=
  ⟨after.input, after.isRest, Nat.le_trans here.from_le after.from_le⟩

structure Found (here : Reached text lo) where
  items : Items
  laid : Laid text lo here.input.pos items

instance {here : Reached text lo} (found : Found here) :
    Laid text lo here.input.pos found.items := found.laid

/-- Whatever the parser answers here is laid from the offset where reading began. -/
class LaysAt (here : Reached text lo) (p : Parser Items) : Prop where
  answers : ∀ {items next}, p here.input = some (items, next) →
    ∃ after : Reached text lo, after.input = next ∧ Laid text lo next.pos items

abbrev Lays (text : Text) (p : Parser Items) : Prop :=
  ∀ {lo : Nat} (here : Reached text lo), LaysAt here p

section Combinators

variable {here : Reached text lo} {p q : Parser Items} {ps : List (Parser Items)}

/-- Answers nothing but the input it was given. -/
theorem LaysAt.of_unmoved (h : ∀ {items next}, p here.input = some (items, next) →
    Laid text lo here.input.pos items ∧ next = here.input) : LaysAt here p where
  answers run := by
    obtain ⟨laid, rfl⟩ := h run
    exact ⟨here, rfl, laid⟩

instance laysPure {items : Items} [laid : Laid text lo here.input.pos items] :
    LaysAt here (pure items) :=
  .of_unmoved fun run => by
    cases run
    exact ⟨laid, rfl⟩

instance laysFailure : LaysAt here failure where
  answers run := by cases run

instance laysEnsure {condition : Bool} : LaysAt here (ensure condition) := by
  unfold ensure
  split <;> infer_instance

instance laysAbsent : LaysAt here (absent p) :=
  .of_unmoved fun run => by
    unfold absent at run
    split at run <;> cases run
    exact ⟨.nil, rfl⟩

instance laysFollowedBy : LaysAt here (followedBy p) :=
  .of_unmoved fun run => by
    unfold followedBy at run
    split at run <;> cases run
    exact ⟨.nil, rfl⟩

instance laysIte {c : Prop} [Decidable c] [l : LaysAt here p] [r : LaysAt here q] :
    LaysAt here (if c then p else q) := by
  split
  · exact l
  · exact r

instance laysOneOfNil : LaysAt here (oneOf []) := by
  unfold oneOf
  infer_instance

instance laysOneOfCons [first : LaysAt here p] [others : LaysAt here (oneOf ps)] :
    LaysAt here (oneOf (p :: ps)) where
  answers run := by
    unfold oneOf at run
    split at run
    · next result answer => exact first.answers (answer.trans run)
    · exact others.answers run

instance laysOptional [some : LaysAt here p] : LaysAt here (optional p) where
  answers run := by
    unfold optional at run
    split at run
    · next result answer => exact some.answers (answer.trans run)
    · cases run
      exact ⟨here, rfl, .nil⟩

instance laysBind {f : Items → Parser Items} [first : LaysAt here p]
    [rest : ∀ (next : Reached text lo) (found : Found next), LaysAt next (f found.items)] :
    LaysAt here (p >>= f) where
  answers run := by
    obtain ⟨⟨items, next⟩, answer, run⟩ := Option.bind_eq_some_iff.mp run
    obtain ⟨after, rfl, laid⟩ := first.answers answer
    exact (rest after ⟨items, laid⟩).answers run

instance laysMap {f : Items → Items} [first : LaysAt here p]
    [kept : ∀ (next : Reached text lo) (found : Found next),
      Laid text lo next.input.pos (f found.items)] : LaysAt here (f <$> p) where
  answers run := by
    obtain ⟨⟨items, next⟩, answer, run⟩ := Option.bind_eq_some_iff.mp run
    obtain ⟨after, rfl, laid⟩ := first.answers answer
    cases run
    exact ⟨after, rfl, kept after ⟨items, laid⟩⟩

instance laysAhead {f : Text → Parser Items} [h : ∀ next, LaysAt here (f next)] :
    LaysAt here (ahead >>= f) where
  answers run := (h _).answers run

instance laysLineBreakAhead {f : Bool → Parser Items} [h : ∀ broken, LaysAt here (f broken)] :
    LaysAt here (lineBreakAhead >>= f) where
  answers run := (h _).answers run

instance laysWordAhead {f : String → Parser Items} [h : ∀ word, LaysAt here (f word)] :
    LaysAt here (wordAhead >>= f) where
  answers run := (h _).answers run

instance laysOperatorAhead {f : String → Parser Items} [h : ∀ op, LaysAt here (f op)] :
    LaysAt here (operatorAhead >>= f) where
  answers run := (h _).answers run

instance laysAtEnd {f : Bool → Parser Items} [h : ∀ ended, LaysAt here (f ended)] :
    LaysAt here (atEnd >>= f) where
  answers run := (h _).answers run

instance laysSeqNil : LaysAt here (seq []) := by
  unfold seq
  infer_instance

/-- A sequence reads what its first parser reads and then what the others read behind it. -/
theorem seq_cons_eq_some {input last : Input} {items : Items}
    (run : seq (p :: ps) input = some (items, last)) :
    ∃ first next rest, p input = some (first, next) ∧ seq ps next = some (rest, last) ∧
      items = first ++ rest := by
  unfold seq at run
  obtain ⟨⟨first, next⟩, answer, run⟩ := Option.bind_eq_some_iff.mp run
  obtain ⟨⟨rest, last⟩, others, run⟩ := Option.bind_eq_some_iff.mp run
  cases run
  exact ⟨first, next, rest, answer, others, rfl⟩

instance laysSeqCons [first : LaysAt here p] [rest : Lays text (seq ps)] :
    LaysAt here (seq (p :: ps)) where
  answers run := by
    obtain ⟨items, next, more, answer, others, rfl⟩ := seq_cons_eq_some run
    obtain ⟨middle, rfl, laid⟩ := first.answers answer
    obtain ⟨after, rfl, laidMore⟩ := (rest middle.isRest.reached).answers others
    exact ⟨middle.further after, rfl, laid.append laidMore middle.from_le after.from_le⟩

/-- A condition reads nothing, so what was found before it can be used after it. -/
instance laysSeqEnsure {condition : Bool} [rest : LaysAt here (seq ps)] :
    LaysAt here (seq (ensure condition :: ps)) where
  answers run := by
    unfold seq ensure at run
    cases condition with
    | false => cases run
    | true =>
      obtain ⟨⟨items, next⟩, answer, run⟩ := Option.bind_eq_some_iff.mp run
      cases run
      exact rest.answers answer

/-- What every step keeps holds after all of them. -/
theorem iterate_induct {α : Type} {step : α → Parser α} {motive : α → Input → Prop}
    (keeps : ∀ a input b next, motive a input → step a input = some (b, next) → motive b next)
    {a b : α} {input next : Input} (init : motive a input)
    (run : iterate step a input = some (b, next)) : motive b next := by
  fun_induction iterate step a input with
  | case1 a input stuck =>
    cases run
    exact init
  | case2 a input c middle moved shorter ih => exact ih (keeps _ _ _ _ init moved) run
  | case3 a input c middle moved longer =>
    cases run
    exact init

instance laysIterate {step : Items → Parser Items} {items : Items}
    [laid : Laid text lo here.input.pos items]
    [rest : ∀ (next : Reached text lo) (found : Found next), LaysAt next (step found.items)] :
    LaysAt here (iterate step items) where
  answers run := by
    refine iterate_induct (motive := fun items input =>
      ∃ after : Reached text lo, after.input = input ∧ Laid text lo input.pos items) ?_
      ⟨here, rfl, laid⟩ run
    rintro items _ more next ⟨after, rfl, laid⟩ moved
    exact (rest after ⟨items, laid⟩).answers moved

instance laysMany [rest : Lays text p] : LaysAt here (many p) where
  answers run := by
    unfold many at run
    split at run
    · next found last answer =>
      cases run
      refine iterate_induct (motive := fun found input => ∃ after : Reached text lo,
        after.input = input ∧ Laid text lo input.pos found.reverse.flatten) ?_
        ⟨here, rfl, .nil⟩ answer
      rintro found _ more next ⟨after, rfl, laid⟩ moved
      obtain ⟨⟨items, next⟩, answer, run⟩ := Option.bind_eq_some_iff.mp moved
      cases run
      obtain ⟨last, rfl, laidMore⟩ := (rest after.isRest.reached).answers answer
      refine ⟨after.further last, rfl, ?_⟩
      simpa using laid.append laidMore after.from_le last.from_le
    · cases run

end Combinators

/-! ## Leaves -/

/-- Whether a node with the label has to meet no condition beside its children's. -/
@[reducible] def isPlain : Label → Bool
  | .named .templateSubstitution => false
  | _ => true

/-- A condition that can be seen to hold by computing it. -/
class Checked (condition : Bool) : Prop where
  eq_true : condition = true

instance : Checked true := ⟨rfl⟩

instance {c : Prop} [Decidable c] {k l : Kind} [Checked (isPlain (.named k))]
    [Checked (isPlain (.named l))] : Checked (isPlain (.named (if c then k else l))) := by
  split <;> infer_instance

theorem ne_of_isPlain {label : Label} (h : isPlain label = true) :
    label ≠ .named .templateSubstitution := by
  rintro rfl
  cases h

theorem Reached.skip (here : Reached text lo) (n : Nat) :
    ∃ after : Reached text lo, after.input = here.input.skip n ∧
      here.input.pos ≤ after.input.pos := by
  have le := Input.le_skip n here.input
  exact ⟨⟨_, here.isRest.skip n, Nat.le_trans here.from_le le⟩, rfl, le⟩

/-- The token after a gap, with the comments of the gap laid in front of it. -/
theorem Reached.gap (here : Reached text lo) :
    ∃ after : Reached text lo, after.input = here.input.gap.2 ∧
      Laid text lo after.input.pos here.input.gap.1.comments.reverse := by
  have start : GapLaid text lo here.input.pos {} .between :=
    ⟨Nat.le_refl _, here.from_le, here.isRest.isBoundary, .nil, by simp⟩
  obtain ⟨isRest, laid⟩ := readGap_laid start here.isRest
  exact ⟨⟨_, isRest, laid.from_le⟩, rfl, laid.laid⟩

/-- A leaf between two inputs. -/
theorem laid_leaf {label : Label} (plain : isPlain label = true) {here after : Reached text lo}
    (le : here.input.pos ≤ after.input.pos) :
    Laid text here.input.pos after.input.pos
      [.mk label none ⟨here.input.pos, after.input.pos⟩ []] :=
  .singleton (.leaf (ne_of_isPlain plain) le here.isRest.isBoundary after.isRest.isBoundary)
    (Nat.le_refl _) (Nat.le_refl _)

/-- A leaf without a gap begins where reading stands. -/
theorem adjacent_eq_some {label : Label} {measure : Text → Nat} {input next : Input} {items : Items}
    (h : adjacent label measure input = some (items, next)) :
    measure input.rest ≠ 0 ∧ next = input.skip (measure input.rest) ∧
      items = [.mk label none ⟨input.pos, next.pos⟩ []] := by
  unfold adjacent at h
  split at h
  · cases h
  · next nonzero =>
    cases h
    exact ⟨nonzero, rfl, rfl⟩

/-- A leaf stands behind the gap, whose comments come with it. -/
theorem lexeme_eq_some {label : Label} {measure : Text → Nat} {input next : Input} {items : Items}
    (h : lexeme label measure input = some (items, next)) :
    measure input.gap.2.rest ≠ 0 ∧ next = input.gap.2.skip (measure input.gap.2.rest) ∧
      items = input.gap.1.comments.reverse ++ [.mk label none ⟨input.gap.2.pos, next.pos⟩ []] := by
  unfold lexeme at h
  simp only at h
  split at h
  · cases h
  · next nonzero =>
    cases h
    exact ⟨nonzero, rfl, rfl⟩

section Nodes

variable {here : Reached text lo} {p : Parser Items} {ps : List (Parser Items)}

instance laysAdjacent {label : Label} {measure : Text → Nat} [plain : Checked (isPlain label)] :
    LaysAt here (adjacent label measure) where
  answers run := by
    obtain ⟨_, rfl, rfl⟩ := adjacent_eq_some run
    obtain ⟨after, same, le⟩ := here.skip (measure here.input.rest)
    rw [← same]
    exact ⟨after, rfl, (laid_leaf plain.eq_true le).mono here.from_le (Nat.le_refl _)⟩

instance laysLexeme {label : Label} {measure : Text → Nat} [plain : Checked (isPlain label)] :
    LaysAt here (lexeme label measure) where
  answers run := by
    obtain ⟨_, rfl, rfl⟩ := lexeme_eq_some run
    obtain ⟨token, same, comments⟩ := here.gap
    rw [← same]
    obtain ⟨after, same, le⟩ := token.skip (measure token.input.rest)
    rw [← same]
    exact ⟨after, rfl, comments.append (laid_leaf plain.eq_true le) token.from_le le⟩

instance laysNode {kind : Kind} [plain : Checked (isPlain (.named kind))]
    [inner : LaysAt here (seq ps)] : LaysAt here (node kind ps) where
  answers run := by
    obtain ⟨⟨items, next⟩, answer, run⟩ := Option.bind_eq_some_iff.mp run
    obtain ⟨after, rfl, laid⟩ := inner.answers answer
    cases run
    exact ⟨after, rfl, laid.gather fun special => absurd special (ne_of_isPlain plain.eq_true)⟩

instance laidAssign {r : Role} {items : Items} [laid : Laid text lo hi items] :
    Laid text lo hi (assign r items) := by
  rw [assign_eq_rename]
  refine laid.rename ?_ ?_
  · rintro ⟨label, role, span, children⟩
    rfl
  · rintro ⟨label, role, span, children⟩ fits
    exact fits.relabel _ fun _ => rfl

/-- The last item can be given another kind. -/
theorem Laid.relabel {f : Node → Node} {items : Items} (laid : Laid text lo hi items)
    (h : ∀ n, f n = n ∨ ∃ kind, isPlain (.named kind) = true ∧ f n = n.relabel kind) :
    Laid text lo hi (Grammar.rename f items) := by
  refine laid.rename (fun n => ?_) fun n fits => ?_
  · rcases h n with same | ⟨kind, _, other⟩
    · rw [same]
    · cases n
      rw [other]
      rfl
  · rcases h n with same | ⟨kind, plain, other⟩
    · rwa [same]
    · cases n
      rw [other]
      exact fits.relabel _ fun special => absurd special (ne_of_isPlain plain)

instance laysPart {r : Role} [LaysAt here p] : LaysAt here (part r p) := by
  unfold part
  infer_instance

/-! ## Expressions as patterns -/

/-- Reading an expression as a pattern moves no node. -/
theorem span_toPattern (n : Node) : (toPattern n).span = n.span := by
  fun_cases toPattern n <;> rfl

theorem toPatterns_eq_map (items : Items) : toPatterns items = items.map toPattern := by
  induction items with
  | nil => simp [toPatterns]
  | cons n rest ih => simp [toPatterns, ih]

theorem toValuePattern_eq_rename (items : Items) :
    toValuePattern items = rename toPattern items := by
  fun_induction rename toPattern items with grind [toValuePattern]

/-- Other children can be put into a node at the spans of its own. -/
theorem fits_replace {n : Node} (h : Fits text n) {kind : Kind} (role : Option Role)
    (plain : isPlain (.named kind) = true) {children : Items}
    (same : children.map Node.span = n.children.map Node.span)
    (fits : ∀ c ∈ children, Fits text c) : Fits text (.mk (.named kind) role n.span children) := by
  have own : Laid text n.span.start n.span.stop n.children :=
    ⟨h.children, h.encloses.inside, h.encloses.apart⟩
  have others := own.of_map_span same fits
  exact .intro ⟨h.encloses.ordered, others.inside, others.apart⟩ h.isBoundary_start
    h.isBoundary_stop (fun special => absurd special (ne_of_isPlain plain)) fits

/-- A pattern fits wherever the expression did that it is written like. -/
theorem fits_toPattern {n : Node} (h : Fits text n) : Fits text (toPattern n) := by
  induction h with
  | @intro n encloses start stop special children ih =>
    have own : Fits text n := .intro encloses start stop special children
    have all : ∀ c ∈ toPatterns n.children, Fits text c := by
      rw [toPatterns_eq_map]
      intro c mem
      obtain ⟨d, held, rfl⟩ := List.mem_map.mp mem
      exact ih d held
    have value : ∀ c ∈ toValuePattern n.children, Fits text c := by
      rw [toValuePattern_eq_rename]
      intro c mem
      rcases mem_rename mem with kept | ⟨d, held, rfl⟩
      · exact children c kept
      · exact ih d held
    have spans : (toPatterns n.children).map Node.span = n.children.map Node.span := by
      simp [toPatterns_eq_map, Function.comp_def, span_toPattern]
    have valueSpans : (toValuePattern n.children).map Node.span = n.children.map Node.span := by
      rw [toValuePattern_eq_rename, map_span_rename span_toPattern]
    fun_cases toPattern n with
    | case1 r s cs => exact fits_replace own r rfl spans all
    | case2 r s cs => exact fits_replace own r rfl spans all
    | case3 r s cs => exact fits_replace own r rfl valueSpans value
    | case4 r s cs => exact fits_replace own r rfl spans all
    | case5 r s cs => exact fits_replace own r rfl rfl children
    | case6 r s cs => exact fits_replace own r rfl rfl children
    | case7 => exact own

instance laidToPattern {items : Items} [laid : Laid text lo hi items] :
    Laid text lo hi (rename toPattern items) :=
  laid.rename span_toPattern fun _ => fits_toPattern

end Nodes

end Grammar

end SolidityInlay.Host
