import Mathlib.Logic.Relation
import SolidityInlay.Proofs.Evaluation

/-!
# Folding step by step

Folding as a machine with one stack of declarators for the whole run: a declarator is put on it
before its initializer is folded, and the top is taken off when that call returns. What the callers
have left to do is kept in frames. Nothing in the steps themselves says that they come to an end, or
that a call leaves the stack as it found it.

They do come to an end, with the value that `fold` finds. In between, the stack holds exactly the
declarators whose initializers are being folded, and none of them twice.

Main definitions: `Folding.State`, `Folding.step`, `Folding.Runs`, `Folding.Disciplined`. Main
statement: `Folding.run_ends`.
-/

namespace SolidityInlay

open Host Relation

namespace Template

theorem length_segments_of_split {cursor stop : Nat} {found : List Located} {parts : Parts}
    (h : split cursor stop found = some parts) :
    parts.segments.length = parts.substitutions.length + 1 := by
  induction found generalizing cursor parts with
  | nil =>
    simp only [split] at h
    split at h
    · obtain rfl := Option.some.inj h
      rfl
    · simp at h
  | cons s rest ih =>
    obtain ⟨expr, _, h⟩ := Option.bind_eq_some_iff.1 h
    obtain ⟨more, hm, rfl⟩ := Option.map_eq_some_iff.1 h
    simp [ih hm]

theorem length_substitutions_le {text : Text} {template : Located} {parts : Parts}
    (h : parts? text template = some parts) :
    parts.substitutions.length ≤ parts.segments.length := by
  simp only [parts?] at h
  split at h
  · rw [length_segments_of_split h]
    exact Nat.le_succ _
  · simp at h

end Template

namespace Folding

/-! ## The machine -/

inductive Control where
  | expression (e : Located)
  | template (e : Located)
  | identifier (e : Located)
  /-- Goes on with a template whose text so far is known. -/
  | segments (value : Text) (segments : List Span) (substitutions : List Template.Substitution)
  /-- Returns to the nearest caller. -/
  | done (value : Option Text)

def Control.IsCall : Control → Prop
  | expression _ | template _ | identifier _ => True
  | segments .. | done _ => False

inductive Frame where
  /-- The left operand of a sum; the right one comes next. -/
  | left (right : Located)
  /-- The right operand of a sum whose left one has a value. -/
  | right (value : Text)
  /-- A substitution of a template, between what is known and what comes after. -/
  | substitution (value : Text) (segments : List Span)
    (substitutions : List Template.Substitution)
  /-- The initializer of a declarator. -/
  | initializer (declarator : Place)

def Frame.declarator? : Frame → Option Place
  | initializer declarator => some declarator
  | left _ | right _ | substitution .. => none

/-- A moment of folding: what is done next, who is waiting for it, and the declarators that are
being followed, nearest first. -/
structure State where
  control : Control
  frames : List Frame
  visiting : List Place

def start (e : Located) : State := ⟨.expression e, [], []⟩

/-- A caller goes on with the value it was waiting for. Without one it gives up, but the top of the
stack is taken off in any case. -/
def resume (frames : List Frame) (visiting : List Place) : Frame → Option Text → State
  | .initializer _, value => ⟨.done value, frames, visiting.tail⟩
  | .left right, some value => ⟨.expression right, .right value :: frames, visiting⟩
  | .right value, some more => ⟨.done (some (value ++ more)), frames, visiting⟩
  | .substitution value segments substitutions, some more =>
    ⟨.segments (value ++ more) segments substitutions, frames, visiting⟩
  | _, none => ⟨.done none, frames, visiting⟩

def step (t : Tree) : State → Option State
  | ⟨.expression e, frames, visiting⟩ =>
    match Shape.of t.text e with
    | .string => some ⟨.done (StringLiteral.cook (e.textIn t.text)), frames, visiting⟩
    | .template => some ⟨.template e, frames, visiting⟩
    | .concat left right => some ⟨.expression left, .left right :: frames, visiting⟩
    | .parenthesized inner | .assertion inner => some ⟨.expression inner, frames, visiting⟩
    | .identifier => some ⟨.identifier e, frames, visiting⟩
    | .other => some ⟨.done none, frames, visiting⟩
  | ⟨.template e, frames, visiting⟩ =>
    match Template.parts? t.text e with
    | none => some ⟨.done none, frames, visiting⟩
    | some parts => some ⟨.segments [] parts.segments parts.substitutions, frames, visiting⟩
  | ⟨.identifier e, frames, visiting⟩ =>
    match Binding.resolve t e with
    | .unfoldable => some ⟨.done none, frames, visiting⟩
    | .constant declarator value =>
      if visiting.contains declarator.place ∨ StandsInside e declarator then
        some ⟨.done none, frames, visiting⟩
      else
        some ⟨.expression value, .initializer declarator.place :: frames,
          declarator.place :: visiting⟩
  | ⟨.segments value [] _, frames, visiting⟩ => some ⟨.done (some value), frames, visiting⟩
  | ⟨.segments value (s :: ss) [], frames, visiting⟩ =>
    some ⟨.segments (value ++ t.text.slice s) ss [], frames, visiting⟩
  | ⟨.segments value (s :: ss) (x :: xs), frames, visiting⟩ =>
    some ⟨.expression x.expr, .substitution (value ++ t.text.slice s) ss xs :: frames, visiting⟩
  | ⟨.done value, frame :: frames, visiting⟩ => some (resume frames visiting frame value)
  | ⟨.done _, [], _⟩ => none

/-- A step inside a call: the callers go on waiting. -/
def CallStep (t : Tree) (frames : List Frame) (s next : State) : Prop :=
  step t s = some next ∧ frames <:+ next.frames

/-- Any number of steps inside a call with these callers. Without callers that is every run. -/
def Runs (t : Tree) (frames : List Frame) : State → State → Prop :=
  ReflTransGen (CallStep t frames)

variable {t : Tree} {frames : List Frame} {visiting : List Place} {s last : State}

namespace Runs

variable {control : Control}

/-- A step that leaves the callers alone, and then the rest. -/
theorem next (h : step t s = some ⟨control, frames, visiting⟩)
    (rest : Runs t frames ⟨control, frames, visiting⟩ last) : Runs t frames s last :=
  .head ⟨h, List.suffix_refl _⟩ rest

theorem single (h : step t s = some ⟨control, frames, visiting⟩) :
    Runs t frames s ⟨control, frames, visiting⟩ :=
  next h .refl

/-- A call made inside a call runs inside that one too. -/
theorem outward {frame : Frame} (run : Runs t (frame :: frames) s last) : Runs t frames s last :=
  ReflTransGen.mono (fun _ _ taken => ⟨taken.1, (List.suffix_cons _ _).trans taken.2⟩) _ _ run

end Runs

section

variable {e : Located}

theorem step_of_template (shape : Shape.of t.text e = .template) :
    step t ⟨.expression e, frames, visiting⟩ = some ⟨.template e, frames, visiting⟩ := by
  simp [step, shape]

theorem step_of_identifier (shape : Shape.of t.text e = .identifier) :
    step t ⟨.expression e, frames, visiting⟩ = some ⟨.identifier e, frames, visiting⟩ := by
  simp [step, shape]

theorem step_of_concat {left right : Located} (shape : Shape.of t.text e = .concat left right) :
    step t ⟨.expression e, frames, visiting⟩ =
      some ⟨.expression left, .left right :: frames, visiting⟩ := by
  simp [step, shape]

theorem step_of_parsed {parts : Template.Parts}
    (parsed : Template.parts? t.text e = some parts) :
    step t ⟨.template e, frames, visiting⟩ =
      some ⟨.segments [] parts.segments parts.substitutions, frames, visiting⟩ := by
  simp [step, parsed]

section

variable {declarator initializer : Located}

/-- A declarator that is being followed, or that the name stands in, is not entered. -/
theorem step_of_refused (resolved : Binding.resolve t e = .constant declarator initializer)
    (h : declarator.place ∈ visiting ∨ StandsInside e declarator) :
    step t ⟨.identifier e, frames, visiting⟩ = some ⟨.done none, frames, visiting⟩ := by
  simp [step, resolved, h]

/-- Any other is entered, on top of the stack. -/
theorem step_of_entered (resolved : Binding.resolve t e = .constant declarator initializer)
    (h : ¬ (declarator.place ∈ visiting ∨ StandsInside e declarator)) :
    step t ⟨.identifier e, frames, visiting⟩ =
      some ⟨.expression initializer, .initializer declarator.place :: frames,
        declarator.place :: visiting⟩ := by
  simp [step, resolved, h]

end

/-- A name is given up, or its declarator is entered, which is not on the stack yet. -/
theorem step_identifier (t : Tree) (e : Located) (frames : List Frame) (visiting : List Place) :
    step t ⟨.identifier e, frames, visiting⟩ = some ⟨.done none, frames, visiting⟩ ∨
      ∃ declarator initializer, Binding.resolve t e = .constant declarator initializer ∧
        declarator.place ∉ visiting ∧
        step t ⟨.identifier e, frames, visiting⟩ =
          some ⟨.expression initializer, .initializer declarator.place :: frames,
            declarator.place :: visiting⟩ := by
  cases resolved : Binding.resolve t e with
  | unfoldable => exact .inl (by simp [step, resolved])
  | constant declarator initializer =>
    by_cases refused : declarator.place ∈ visiting ∨ StandsInside e declarator
    · exact .inl (step_of_refused resolved refused)
    · exact .inr ⟨declarator, initializer, rfl, fun visited => refused (.inl visited),
        step_of_entered resolved refused⟩

end

/-! ## Every call returns -/

/-- The call that folds the expression returns its value and leaves the stack as it was. -/
def Returns (t : Tree) (visiting : List Place) (e : Located) : Prop :=
  ∀ frames, Runs t frames ⟨.expression e, frames, visiting⟩
    ⟨.done (fold t visiting e), frames, visiting⟩

/-- A step that makes such a call, the call itself, and what the caller does with its value. -/
theorem Returns.call {e : Located} {frame : Frame} {inner : List Place}
    (returns : Returns t inner e) (h : step t s = some ⟨.expression e, frame :: frames, inner⟩)
    (rest : Runs t frames ⟨.done (fold t inner e), frame :: frames, inner⟩ last) :
    Runs t frames s last :=
  .head ⟨h, List.suffix_cons _ _⟩ ((returns (frame :: frames)).outward.trans rest)

/-- A template goes through its substitutions from left to right, up to one without a value. -/
theorem runs_segments {substitutions : List Template.Substitution} {segments : List Span}
    (returns : ∀ x ∈ substitutions, Returns t visiting x.expr)
    (length : substitutions.length ≤ segments.length) (value : Text) (frames : List Frame) :
    Runs t frames ⟨.segments value segments substitutions, frames, visiting⟩
      ⟨.done ((substitutions.mapM fun x => fold t visiting x.expr).map fun values =>
        value ++ interleave (segments.map t.text.slice) values), frames, visiting⟩ := by
  induction segments generalizing substitutions value with
  | nil =>
    obtain rfl : substitutions = [] := by simpa using length
    exact .single (by simp [step, interleave])
  | cons s ss ih =>
    cases substitutions with
    | nil =>
      refine .next rfl ?_
      simpa [interleave] using @ih [] (by simp) (by simp) (value ++ t.text.slice s)
    | cons x xs =>
      refine (returns x (by simp)).call rfl ?_
      cases known : fold t visiting x.expr with
      | none => exact .single (by simp [step, resume, known])
      | some more =>
        have rest := @ih xs (fun y hy => returns y (by simp [hy])) (by simpa using length)
          (value ++ t.text.slice s ++ more)
        have joined : ((x :: xs).mapM fun x => fold t visiting x.expr).map (fun values =>
              value ++ interleave ((s :: ss).map t.text.slice) values) =
            (xs.mapM fun x => fold t visiting x.expr).map fun values =>
              value ++ t.text.slice s ++ more ++ interleave (ss.map t.text.slice) values := by
          rw [List.mapM_cons, known]
          cases xs.mapM fun x => fold t visiting x.expr <;> simp [interleave]
        rw [joined]
        exact .next rfl rest

/-- Every expression is folded. -/
theorem returns (t : Tree) (visiting : List Place) (e : Located) : Returns t visiting e := by
  -- along `fold`: into a part of the expression with the same stack, or into the initializer of a
  -- declarator that is not on the stack yet
  induction visiting, e using fold.induct t with
  | case1 visiting e shape =>
    intro frames
    rw [fold_of_string shape]
    exact .single (by simp [step, shape])
  | case2 visiting e shape unparsed =>
    intro frames
    rw [fold_of_template shape, unparsed]
    exact .next (step_of_template shape) (.single (by simp [step, unparsed]))
  | case3 visiting e shape parts parsed ih =>
    intro frames
    rw [fold_of_template shape, parsed]
    refine .next (step_of_template shape) (.next (step_of_parsed parsed) ?_)
    exact runs_segments ih (Template.length_substitutions_le parsed) [] frames
  | case4 visiting e left right shape ihLeft ihRight =>
    intro frames
    rw [fold_of_concat shape]
    refine ihLeft.call (step_of_concat shape) ?_
    cases fold t visiting left with
    | none => exact .single rfl
    | some a =>
      refine ihRight.call rfl ?_
      cases fold t visiting right with
      | none => exact .single rfl
      | some b => exact .single rfl
  | case5 visiting e inner shape ih =>
    intro frames
    rw [fold_of_parenthesized shape]
    exact .next (by simp [step, shape]) (ih frames)
  | case6 visiting e inner shape ih =>
    intro frames
    rw [fold_of_assertion shape]
    exact .next (by simp [step, shape]) (ih frames)
  | case7 visiting e shape unfoldable =>
    intro frames
    rw [fold_of_unfoldable shape unfoldable]
    exact .next (step_of_identifier shape) (.single (by simp [step, unfoldable]))
  | case8 visiting e shape declarator initializer resolved =>
    rename_i refused
    intro frames
    rw [fold_of_constant shape resolved, if_pos refused]
    exact .next (step_of_identifier shape) (.single (step_of_refused resolved refused))
  | case9 visiting e shape declarator initializer resolved =>
    rename_i entered ih
    intro frames
    rw [fold_of_constant shape resolved, if_neg entered]
    refine .next (step_of_identifier shape) ?_
    exact ih.call (step_of_entered resolved entered) (.single rfl)
  | case10 visiting e shape =>
    intro frames
    rw [fold_of_other shape]
    exact .single (by simp [step, shape])

/-- Whatever routine is called, it returns and leaves the stack as it was. -/
theorem exists_runs_of_isCall (call : s.control.IsCall) :
    ∃ value, Runs t s.frames s ⟨.done value, s.frames, s.visiting⟩ := by
  obtain ⟨control, frames, visiting⟩ := s
  cases control with
  | expression e => exact ⟨_, returns t visiting e frames⟩
  | template e =>
    cases parsed : Template.parts? t.text e with
    | none => exact ⟨none, .single (by simp [step, parsed])⟩
    | some parts =>
      exact ⟨_, .next (step_of_parsed parsed) (runs_segments (fun x _ => returns t visiting x.expr)
        (Template.length_substitutions_le parsed) [] frames)⟩
  | identifier e =>
    rcases step_identifier t e frames visiting with stop | ⟨d, initializer, _, _, enter⟩
    · exact ⟨none, .single stop⟩
    · exact ⟨_, (returns t (d.place :: visiting) initializer).call enter (.single rfl)⟩
  | segments value segments substitutions => exact call.elim
  | done value => exact call.elim

/-! ## The stack -/

/-- The declarators whose initializers are being folded, nearest first. -/
def following (frames : List Frame) : List Place := frames.filterMap Frame.declarator?

/-- A step leaves the stack alone, puts on a declarator that is not on it, or takes the top off when
an initializer is left. -/
theorem step_cases {next : State} (h : step t s = some next) :
    (next.visiting = s.visiting ∧ following next.frames = following s.frames) ∨
      (∃ d ∉ s.visiting, next.visiting = d :: s.visiting ∧
        next.frames = .initializer d :: s.frames) ∨
      ∃ d, s.frames = .initializer d :: next.frames ∧ next.visiting = s.visiting.tail := by
  obtain ⟨control, frames, visiting⟩ := s
  cases control with
  | expression e =>
    simp only [step] at h
    split at h <;> exact .inl (Option.some.inj h ▸ ⟨rfl, rfl⟩)
  | template e =>
    simp only [step] at h
    split at h <;> exact .inl (Option.some.inj h ▸ ⟨rfl, rfl⟩)
  | identifier e =>
    rcases step_identifier t e frames visiting with stop | ⟨d, initializer, _, fresh, enter⟩
    · obtain rfl := Option.some.inj (h.symm.trans stop)
      exact .inl ⟨rfl, rfl⟩
    · obtain rfl := Option.some.inj (h.symm.trans enter)
      exact .inr (.inl ⟨d.place, fresh, rfl, rfl⟩)
  | segments value segments substitutions =>
    cases segments with
    | nil => exact .inl (Option.some.inj h ▸ ⟨rfl, rfl⟩)
    | cons s ss => cases substitutions <;> exact .inl (Option.some.inj h ▸ ⟨rfl, rfl⟩)
  | done value =>
    cases frames with
    | nil => simp [step] at h
    | cons frame frames =>
      cases frame with
      | initializer d => exact .inr (.inr (Option.some.inj h ▸ ⟨d, rfl, rfl⟩))
      | left right => cases value <;> exact .inl (Option.some.inj h ▸ ⟨rfl, rfl⟩)
      | right a => cases value <;> exact .inl (Option.some.inj h ▸ ⟨rfl, rfl⟩)
      | substitution a ss xs => cases value <;> exact .inl (Option.some.inj h ▸ ⟨rfl, rfl⟩)

/-- The stack holds what is being followed, and nothing twice. -/
structure Balanced (s : State) : Prop where
  visiting_eq : s.visiting = following s.frames
  nodup : s.visiting.Nodup

/-- Every step keeps the stack balanced. -/
theorem balanced_step {next : State} (balanced : Balanced s) (h : step t s = some next) :
    Balanced next := by
  obtain ⟨same, nodup⟩ := balanced
  rcases step_cases h with ⟨kept, frames⟩ | ⟨d, fresh, entered, frames⟩ | ⟨d, frames, left⟩
  · exact ⟨by rw [kept, frames, same], by rwa [kept]⟩
  · refine ⟨?_, ?_⟩
    · rw [entered, frames, same]
      rfl
    · rw [entered]
      exact List.nodup_cons.2 ⟨fresh, nodup⟩
  · have top : s.visiting = d :: following next.frames := by
      rw [same, frames]
      rfl
    rw [top] at left nodup
    exact ⟨left, left ▸ (List.nodup_cons.1 nodup).2⟩

theorem balanced_of_runs (balanced : Balanced s) (run : Runs t frames s last) : Balanced last := by
  induction run with
  | refl => exact balanced
  | tail _ taken ih => exact balanced_step ih taken.1

/-! ## The whole run -/

/-- Steps lead from a state in one way only, so if one run comes to a stop, all do. -/
theorem acc_of_runs (run : Runs t frames s last) (stop : step t last = none) :
    Acc (fun next s => step t s = some next) s := by
  induction run using ReflTransGen.head_induction_on with
  | refl => exact ⟨_, fun next taken => by simp [stop] at taken⟩
  | head first _ ih =>
    refine ⟨_, fun next taken => ?_⟩
    obtain rfl := Option.some.inj (first.1.symm.trans taken)
    exact ih

/-- What holds at every moment of a run. -/
structure Disciplined (t : Tree) (s : State) : Prop extends Balanced s where
  /-- A name is given up, or its declarator is entered, which is not on the stack yet. -/
  identifier : ∀ e, s.control = .identifier e →
    step t s = some ⟨.done none, s.frames, s.visiting⟩ ∨
      ∃ declarator initializer, Binding.resolve t e = .constant declarator initializer ∧
        declarator.place ∉ s.visiting ∧
        step t s = some ⟨.expression initializer, .initializer declarator.place :: s.frames,
          declarator.place :: s.visiting⟩
  /-- A call returns, with a value or without, and leaves the stack as it was. -/
  returns : s.control.IsCall → ∃ value, Runs t s.frames s ⟨.done value, s.frames, s.visiting⟩
  /-- For an expression that is what `fold` finds with the same stack. -/
  folds : ∀ e, s.control = .expression e →
    Runs t s.frames s ⟨.done (fold t s.visiting e), s.frames, s.visiting⟩

/-- A balanced state meets all that is asked of a moment of a run. -/
theorem Balanced.disciplined (balanced : Balanced s) (t : Tree) : Disciplined t s where
  toBalanced := balanced
  identifier e here := by
    obtain ⟨control, frames, visiting⟩ := s
    obtain rfl : control = .identifier e := here
    exact step_identifier t e frames visiting
  returns := exists_runs_of_isCall
  folds e here := by
    obtain ⟨control, frames, visiting⟩ := s
    obtain rfl : control = .expression e := here
    exact Folding.returns t visiting e frames

/-- Folding ends on every tree, however declarators refer to each other, with the value that `fold`
finds and an empty stack. -/
theorem run_ends (t : Tree) (e : Located) :
    Acc (fun next s => step t s = some next) (start e) ∧
      Runs t [] (start e) ⟨.done (foldExpression t e), [], []⟩ ∧
      ∀ s, Runs t [] (start e) s → Disciplined t s := by
  have run := returns t [] e []
  refine ⟨acc_of_runs run rfl, run, fun s reached => ?_⟩
  have balanced : Balanced (start e) := ⟨rfl, List.nodup_nil⟩
  exact (balanced_of_runs balanced reached).disciplined t

/-- Two constants that refer to each other, and a name that leads to them from outside. -/
def twoCycle : Tree where
  text := "const a = b; const b = a; a;".toList
  root :=
    .mk (.named .program) none ⟨0, 28⟩ [
      .mk (.named .lexicalDeclaration) none ⟨0, 12⟩ [
        .mk (.token "const") none ⟨0, 5⟩ [],
        .mk (.named .variableDeclarator) none ⟨6, 11⟩ [
          .mk (.named .identifier) (some .name) ⟨6, 7⟩ [],
          .mk (.token "=") none ⟨8, 9⟩ [],
          .mk (.named .identifier) (some .value) ⟨10, 11⟩ []],
        .mk (.token ";") none ⟨11, 12⟩ []],
      .mk (.named .lexicalDeclaration) none ⟨13, 25⟩ [
        .mk (.token "const") none ⟨13, 18⟩ [],
        .mk (.named .variableDeclarator) none ⟨19, 24⟩ [
          .mk (.named .identifier) (some .name) ⟨19, 20⟩ [],
          .mk (.token "=") none ⟨21, 22⟩ [],
          .mk (.named .identifier) (some .value) ⟨23, 24⟩ []],
        .mk (.token ";") none ⟨24, 25⟩ []],
      .mk (.named .expressionStatement) none ⟨26, 28⟩ [
        .mk (.named .identifier) none ⟨26, 27⟩ [],
        .mk (.token ";") none ⟨27, 28⟩ []]]

def twoCycle.reference : Located := ⟨[0, 2], .mk (.named .identifier) none ⟨26, 27⟩ []⟩

theorem run_ends_twoCycle :
    Acc (fun next s => step twoCycle s = some next) (start twoCycle.reference) ∧
      Runs twoCycle [] (start twoCycle.reference) ⟨.done none, [], []⟩ := by
  have unresolved : foldExpression twoCycle twoCycle.reference = none := by
    rw [foldExpression, fold_of_constant rfl rfl, if_neg (by decide), fold_of_constant rfl rfl,
      if_neg (by decide), fold_of_constant rfl rfl, if_pos (by decide)]
  obtain ⟨ends, run, _⟩ := run_ends twoCycle twoCycle.reference
  exact ⟨ends, unresolved ▸ run⟩

end Folding

end SolidityInlay
