import Mathlib.Logic.Relation
import SolidityInlay.Proofs.Scoping

/-!
# The values of expressions

When an expression has a value, as rules on the kinds of nodes that say nothing of how the value is
found: literals have one, templates and sums have one if their operands do, and a name has the value
of the initializer it refers to. Folding finds exactly these values.

Folding refuses to enter a declaration twice on the way down. Nothing is lost by that. While it
follows the initializer `v`, every expression it meets is an operand of an operand, and so on, of
`v`. If one of them referred to `v` again, `v` would be below itself, and what is below itself has
no value, since rules are applied finitely often.

Main definitions: `Evaluates`, `OperandOf`. Main statement: `fold_computes_value`.
-/

namespace SolidityInlay

open Host Relation

/-! ## Values -/

def StandsInside (reference declarator : Located) : Prop :=
  declarator.span.start ≤ reference.span.start ∧ reference.span.start < declarator.span.stop

instance (reference declarator : Located) : Decidable (StandsInside reference declarator) :=
  inferInstanceAs (Decidable (_ ∧ _))

structure IsSum (text : Text) (e left right : Located) : Prop where
  kind : e.node.is .binaryExpression
  operator : ∃ op, e.child? .operator = some op ∧ op.textIn text = ['+']
  left : e.child? .left = some left
  right : e.child? .right = some right

structure Wraps (e inner : Located) : Prop where
  kind : e.node.is .parenthesizedExpression ∨ e.node.is .asExpression ∨
    e.node.is .satisfiesExpression
  operand : e.operand? = some inner

/-- An expression has a value, by a rule for each kind of node that can have one. -/
inductive Evaluates (t : Tree) : Located → Text → Prop
  | string {e : Located} {value : Text} : e.node.is .string →
      StringLiteral.cook (e.textIn t.text) = some value → Evaluates t e value
  | template {e : Located} {parts : Template.Parts} (value : Template.Substitution → Text) :
      e.node.is .templateString → Template.parts? t.text e = some parts →
      (∀ s ∈ parts.substitutions, Evaluates t s.expr (value s)) →
      Evaluates t e
        (interleave (parts.segments.map t.text.slice) (parts.substitutions.map value))
  | sum {e left right : Located} {a b : Text} : IsSum t.text e left right →
      Evaluates t left a → Evaluates t right b → Evaluates t e (a ++ b)
  | wrapped {e inner : Located} {value : Text} : Wraps e inner → Evaluates t inner value →
      Evaluates t e value
  | reference {e declarator initializer : Located} {value : Text} : e.node.is .identifier →
      Binding.resolve t e = .constant declarator initializer → ¬ StandsInside e declarator →
      Evaluates t initializer value → Evaluates t e value

/-- The value of one expression decides that of another. -/
inductive OperandOf (t : Tree) : Located → Located → Prop
  | substitution {e : Located} {parts : Template.Parts} {s : Template.Substitution} :
      e.node.is .templateString → Template.parts? t.text e = some parts →
      s ∈ parts.substitutions → OperandOf t s.expr e
  | left {e left right : Located} : IsSum t.text e left right → OperandOf t left e
  | right {e left right : Located} : IsSum t.text e left right → OperandOf t right e
  | inner {e inner : Located} : Wraps e inner → OperandOf t inner e
  | initializer {e declarator initializer : Located} : e.node.is .identifier →
      Binding.resolve t e = .constant declarator initializer → ¬ StandsInside e declarator →
      OperandOf t initializer e

/-! ## Shapes and kinds -/

namespace Shape

/-- What a shape says of the kind of an expression. -/
def Describes (text : Text) (e : Located) : Shape → Prop
  | string => e.node.is .string
  | template => e.node.is .templateString
  | concat left right => IsSum text e left right
  | parenthesized inner | assertion inner => Wraps e inner
  | identifier => e.node.is .identifier
  | other => True

variable {text : Text} {e : Located}

theorem describes_operand {f : Located → Shape}
    (hf : ∀ inner, e.operand? = some inner → (f inner).Describes text e) :
    ((e.operand?.map f).getD other).Describes text e := by
  cases h : e.operand? with
  | none => trivial
  | some inner => exact hf inner h

/-- A binary expression is classified by the text of its operator. -/
theorem describes_ofBinary (kind : e.node.is .binaryExpression) :
    (ofBinary text e).Describes text e := by
  unfold ofBinary
  split
  · next op left right operator hl hr =>
    split
    · next plus => exact ⟨kind, ⟨op, operator, by simpa using plus⟩, hl, hr⟩
    · trivial
  · trivial

/-- The classifier is right about the kind of an expression. -/
theorem describes_of {shape : Shape} (h : of text e = shape) : shape.Describes text e := by
  subst h
  unfold of
  split <;> rename_i kind
  · exact Scope.is_iff.2 kind
  · exact Scope.is_iff.2 kind
  · exact Scope.is_iff.2 kind
  · exact describes_operand fun inner h => ⟨.inl (Scope.is_iff.2 kind), h⟩
  · exact describes_operand fun inner h => ⟨.inr (.inl (Scope.is_iff.2 kind)), h⟩
  · exact describes_operand fun inner h => ⟨.inr (.inr (Scope.is_iff.2 kind)), h⟩
  · exact describes_ofBinary (Scope.is_iff.2 kind)
  · trivial

/-- It finds every kind that it has a shape for. -/
theorem of_string (kind : e.node.is .string) : of text e = .string := by
  simp only [of, Scope.is_iff.1 kind]

theorem of_template (kind : e.node.is .templateString) : of text e = .template := by
  simp only [of, Scope.is_iff.1 kind]

/-- A sum is classified with both its sides. -/
theorem of_sum {left right : Located} (h : IsSum text e left right) :
    of text e = .concat left right := by
  obtain ⟨op, operator, plus⟩ := h.operator
  simp only [of, Scope.is_iff.1 h.kind, ofBinary, operator, h.left, h.right, plus, beq_self_eq_true,
    if_true]

/-- What is wrapped around an expression is looked through. -/
theorem of_wraps (text : Text) {inner : Located} (h : Wraps e inner) :
    of text e = .parenthesized inner ∨ of text e = .assertion inner := by
  rcases h.kind with kind | kind | kind <;>
    simp [of, Scope.is_iff.1 kind, h.operand]

end Shape

def operands (t : Tree) (e : Located) : List Located :=
  match Shape.of t.text e with
  | .string | .other => []
  | .template =>
    match Template.parts? t.text e with
    | some parts => parts.substitutions.map Template.Substitution.expr
    | none => []
  | .concat left right => [left, right]
  | .parenthesized inner | .assertion inner => [inner]
  | .identifier =>
    match Binding.resolve t e with
    | .constant declarator initializer =>
      if StandsInside e declarator then [] else [initializer]
    | .unfoldable => []

/-- The operands by shape are those by the kinds of nodes. -/
theorem mem_operands_iff {t : Tree} {o e : Located} : o ∈ operands t e ↔ OperandOf t o e := by
  constructor
  · intro mem
    cases shape : Shape.of t.text e with
    | string => simp [operands, shape] at mem
    | other => simp [operands, shape] at mem
    | template =>
      simp only [operands, shape] at mem
      split at mem
      · next parts parsed =>
        obtain ⟨s, hs, rfl⟩ := List.mem_map.1 mem
        exact .substitution (Shape.describes_of shape) parsed hs
      · cases mem
    | concat left right =>
      simp only [operands, shape, List.mem_cons, List.not_mem_nil, or_false] at mem
      rcases mem with rfl | rfl
      · exact .left (Shape.describes_of shape)
      · exact .right (Shape.describes_of shape)
    | parenthesized inner =>
      simp only [operands, shape, List.mem_singleton] at mem
      exact mem ▸ .inner (Shape.describes_of shape)
    | assertion inner =>
      simp only [operands, shape, List.mem_singleton] at mem
      exact mem ▸ .inner (Shape.describes_of shape)
    | identifier =>
      simp only [operands, shape] at mem
      split at mem
      · next declarator initializer resolved =>
        split at mem
        · cases mem
        · next outside =>
          obtain rfl := List.mem_singleton.1 mem
          exact .initializer (Shape.describes_of shape) resolved outside
      · cases mem
  · intro h
    cases h with
    | substitution kind parsed mem =>
      simp only [operands, Shape.of_template kind, parsed]
      exact List.mem_map_of_mem mem
    | left sum => simp [operands, Shape.of_sum sum]
    | right sum => simp [operands, Shape.of_sum sum]
    | inner wraps =>
      rcases Shape.of_wraps t.text wraps with shape | shape <;> simp [operands, shape]
    | initializer kind resolved outside =>
      simp [operands, Scope.shape_of_identifier kind, resolved, outside]

section

variable {t : Tree} {e : Located} {value : Text}

/-- What holds of an expression if it holds of its operands, and they have values, holds of every
expression with a value. -/
theorem Evaluates.induction_operands {P : Located → Prop}
    (step : ∀ e, (∀ o, OperandOf t o e → (∃ a, Evaluates t o a) ∧ P o) → P e)
    (h : Evaluates t e value) : P e := by
  have listed (e : Located) (each : ∀ o ∈ operands t e, (∃ a, Evaluates t o a) ∧ P o) : P e :=
    step e fun o ho => each o (mem_operands_iff.2 ho)
  induction h with
  | string kind =>
    refine listed _ fun o mem => ?_
    simp [operands, Shape.of_string kind] at mem
  | template value kind parsed evaluates ih =>
    refine listed _ fun o mem => ?_
    simp only [operands, Shape.of_template kind, parsed, List.mem_map] at mem
    obtain ⟨s, hs, rfl⟩ := mem
    exact ⟨⟨_, evaluates s hs⟩, ih s hs⟩
  | sum isSum left right ihLeft ihRight =>
    refine listed _ fun o mem => ?_
    simp only [operands, Shape.of_sum isSum, List.mem_cons, List.not_mem_nil, or_false] at mem
    rcases mem with rfl | rfl
    · exact ⟨⟨_, left⟩, ihLeft⟩
    · exact ⟨⟨_, right⟩, ihRight⟩
  | wrapped wraps inner ih =>
    refine listed _ fun o mem => ?_
    rcases Shape.of_wraps t.text wraps with shape | shape
    all_goals
      simp only [operands, shape, List.mem_singleton] at mem
      exact mem ▸ ⟨⟨_, inner⟩, ih⟩
  | reference kind resolved outside initializer ih =>
    refine listed _ fun o mem => ?_
    simp only [operands, Scope.shape_of_identifier kind, resolved, if_neg outside,
      List.mem_singleton] at mem
    exact mem ▸ ⟨⟨_, initializer⟩, ih⟩

/-- An expression that has a value gets it from operands that have one. -/
theorem Evaluates.exists_of_operandOf (h : Evaluates t e value) {o : Located}
    (operand : OperandOf t o e) : ∃ a, Evaluates t o a := by
  have all : ∀ o, OperandOf t o e → ∃ a, Evaluates t o a :=
    h.induction_operands fun _ below o ho => (below o ho).1
  exact all o operand

/-! ## Nothing with a value is below itself -/

/-- What has a value rests on nothing that goes on for ever. -/
theorem Evaluates.acc (h : Evaluates t e value) : Acc (OperandOf t) e :=
  h.induction_operands fun e below => ⟨e, fun o ho => (below o ho).2⟩

/-- What has a value does not depend on itself. -/
theorem Evaluates.not_below_self (h : Evaluates t e value) : ¬ TransGen (OperandOf t) e e := by
  have accessible : Acc (TransGen (OperandOf t)) e := h.acc.transGen
  clear h
  induction accessible with
  | intro e _ ih => exact fun cycle => ih e cycle cycle

/-! ## Folding finds only values -/

theorem mapM_eq_some_iff {α β : Type} [Inhabited β] {f : α → Option β} {l : List α} {vs : List β} :
    l.mapM f = some vs ↔ ∃ g : α → β, (∀ a ∈ l, f a = some (g a)) ∧ vs = l.map g := by
  constructor
  · intro h
    refine ⟨fun a => (f a).getD default, ?_⟩
    induction l generalizing vs with
    | nil => simp_all
    | cons a l ih =>
      simp only [List.mapM_cons, bind, Option.bind_eq_some_iff, pure, Option.some.injEq] at h
      obtain ⟨b, hb, bs, hbs, rfl⟩ := h
      obtain ⟨each, rfl⟩ := ih hbs
      simpa [hb] using each
  · rintro ⟨g, each, rfl⟩
    induction l with
    | nil => rfl
    | cons a l ih =>
      simp [List.mapM_cons, each a (by simp), ih fun b hb => each b (by simp [hb])]

/-- Folding is sound: what it gives is the value of the expression, whatever is being followed. -/
theorem evaluates_of_fold {visiting : List Place} (h : fold t visiting e = some value) :
    Evaluates t e value := by
  induction visiting, e using fold.induct t generalizing value with
  | case1 visiting e shape =>
    rw [fold_of_string shape] at h
    exact .string (Shape.describes_of shape) h
  | case2 visiting e shape unparsed =>
    rw [fold_of_template shape, unparsed] at h
    simp at h
  | case3 visiting e shape parts parsed ih =>
    rw [fold_of_template shape, parsed, Option.bind_some, Option.map_eq_some_iff] at h
    obtain ⟨values, mapped, rfl⟩ := h
    obtain ⟨g, each, rfl⟩ := mapM_eq_some_iff.1 mapped
    exact .template g (Shape.describes_of shape) parsed fun s hs => ih s hs (each s hs)
  | case4 visiting e left right shape ihLeft ihRight =>
    rw [fold_of_concat shape] at h
    obtain ⟨a, ha, h⟩ := Option.bind_eq_some_iff.1 h
    obtain ⟨b, hb, rfl⟩ := Option.map_eq_some_iff.1 h
    exact .sum (Shape.describes_of shape) (ihLeft ha) (ihRight hb)
  | case5 visiting e inner shape ih =>
    rw [fold_of_parenthesized shape] at h
    exact .wrapped (Shape.describes_of shape) (ih h)
  | case6 visiting e inner shape ih =>
    rw [fold_of_assertion shape] at h
    exact .wrapped (Shape.describes_of shape) (ih h)
  | case7 visiting e shape unfoldable =>
    rw [fold_of_unfoldable shape unfoldable] at h
    simp at h
  | case8 visiting e shape declarator initializer resolved =>
    rename_i refused
    rw [fold_of_constant shape resolved, if_pos refused] at h
    simp at h
  | case9 visiting e shape declarator initializer resolved =>
    rename_i entered ih
    rw [fold_of_constant shape resolved, if_neg entered] at h
    exact .reference (Shape.describes_of shape) resolved
      (fun within => entered (.inr within)) (ih h)
  | case10 visiting e shape =>
    rw [fold_of_other shape] at h
    simp at h

/-! ## Folding finds all values -/

theorem child_value_of_resolve {declarator initializer : Located}
    (h : Binding.resolve t e = .constant declarator initializer) :
    declarator.child? .value = some initializer := by
  simp only [Binding.resolve] at h
  cases found : (t.enclosing e.place).findSome? (Binding.ofScope t.text (e.textIn t.text)) with
  | none => simp [found] at h
  | some b =>
    obtain ⟨scope, -, hs⟩ := List.exists_of_findSome?_eq_some found
    rw [found, Option.getD_some] at h
    exact (Scope.constant_of_ofScope (h ▸ hs)).2

/-- The expression is below every initializer that is being followed. -/
def BelowVisiting (t : Tree) (visiting : List Place) (e : Located) : Prop :=
  ∀ declarator initializer, t.Holds declarator → declarator.place ∈ visiting →
    declarator.child? .value = some initializer → ReflTransGen (OperandOf t) e initializer

namespace BelowVisiting

variable {visiting : List Place} {declarator initializer : Located}

theorem nil (t : Tree) (e : Located) : BelowVisiting t [] e := by
  intro _ _ _ visited
  simp at visited

/-- Operands of an expression below the initializers are below them as well. -/
theorem operand (below : BelowVisiting t visiting e) {o : Located} (ho : OperandOf t o e) :
    BelowVisiting t visiting o := by
  intro d v holds visited value
  exact .head ho (below d v holds visited value)

/-- So is the initializer that is followed next, which its own declarator joins. -/
theorem enter (resolved : Binding.resolve t e = .constant declarator initializer)
    (below : BelowVisiting t visiting initializer) :
    BelowVisiting t (declarator.place :: visiting) initializer := by
  intro d v holds visited value
  rcases List.mem_cons.1 visited with same | visited
  · obtain rfl := Tree.eq_of_holds holds (Binding.holds_of_resolve resolved) same
    rw [child_value_of_resolve resolved, Option.some.injEq] at value
    rw [value]
  · exact below d v holds visited value

/-- A declarator that is being followed is not the one that a name with a value refers to. -/
theorem not_visiting (below : BelowVisiting t visiting e)
    (resolved : Binding.resolve t e = .constant declarator initializer)
    (operand : OperandOf t initializer e) (evaluates : Evaluates t initializer value) :
    declarator.place ∉ visiting := by
  intro visited
  have above : ReflTransGen (OperandOf t) e initializer :=
    below declarator initializer (Binding.holds_of_resolve resolved) visited
      (child_value_of_resolve resolved)
  exact evaluates.not_below_self (TransGen.head' operand above)

end BelowVisiting

/-- Folding is complete: a value is found unless the expression is being followed already. -/
theorem Evaluates.fold_eq (h : Evaluates t e value) {visiting : List Place}
    (below : BelowVisiting t visiting e) : fold t visiting e = some value := by
  induction h generalizing visiting with
  | string kind cooked => rw [fold_of_string (Shape.of_string kind), cooked]
  | template value kind parsed _ ih =>
    have folded : ∀ s ∈ _, fold t visiting (Template.Substitution.expr s) = some (value s) :=
      fun s hs => ih s hs (below.operand (.substitution kind parsed hs))
    rw [fold_of_template (Shape.of_template kind), parsed, Option.bind_some,
      mapM_eq_some_iff.2 ⟨value, folded, rfl⟩, Option.map_some]
  | sum isSum _ _ ihLeft ihRight =>
    rw [fold_of_concat (Shape.of_sum isSum), ihLeft (below.operand (.left isSum)),
      ihRight (below.operand (.right isSum))]
    rfl
  | wrapped wraps _ ih =>
    have folded := ih (below.operand (.inner wraps))
    rcases Shape.of_wraps t.text wraps with shape | shape
    · rw [fold_of_parenthesized shape, folded]
    · rw [fold_of_assertion shape, folded]
  | @reference e declarator initializer _ kind resolved outside evaluates ih =>
    have operand : OperandOf t initializer e := .initializer kind resolved outside
    rw [fold_of_constant (Scope.shape_of_identifier kind) resolved, if_neg]
    · exact ih ((below.operand operand).enter resolved)
    · rintro (visited | within)
      · exact below.not_visiting resolved operand evaluates visited
      · exact outside within

/-- Folding finds exactly the values of expressions, however names refer to each other, and one
operand without a value leaves the whole without one. -/
theorem fold_computes_value (t : Tree) (e : Located) :
    (∀ value, foldExpression t e = some value ↔ Evaluates t e value) ∧
      ((∃ o, OperandOf t o e ∧ foldExpression t o = none) → foldExpression t e = none) := by
  have finds (e : Located) (value : Text) :
      foldExpression t e = some value ↔ Evaluates t e value :=
    ⟨evaluates_of_fold, fun h => h.fold_eq (.nil t e)⟩
  refine ⟨finds e, ?_⟩
  rintro ⟨o, operand, unresolved⟩
  cases folded : foldExpression t e with
  | none => rfl
  | some value =>
    obtain ⟨a, evaluates⟩ := ((finds e value).1 folded).exists_of_operandOf operand
    have found := (finds o a).2 evaluates
    simp [unresolved] at found

end

/-- A constant that is used twice, and a name that is not declared. -/
def sharedConstant : Tree where
  text := "const a = \"A\"; a + a + b;".toList
  root :=
    .mk (.named .program) none ⟨0, 25⟩ [
      .mk (.named .lexicalDeclaration) none ⟨0, 14⟩ [
        .mk (.token "const") none ⟨0, 5⟩ [],
        .mk (.named .variableDeclarator) none ⟨6, 13⟩ [
          .mk (.named .identifier) (some .name) ⟨6, 7⟩ [],
          .mk (.token "=") none ⟨8, 9⟩ [],
          .mk (.named .string) (some .value) ⟨10, 13⟩ []],
        .mk (.token ";") none ⟨13, 14⟩ []],
      .mk (.named .expressionStatement) none ⟨15, 25⟩ [
        .mk (.named .binaryExpression) none ⟨15, 24⟩ [
          .mk (.named .binaryExpression) (some .left) ⟨15, 20⟩ [
            .mk (.named .identifier) (some .left) ⟨15, 16⟩ [],
            .mk (.token "+") (some .operator) ⟨17, 18⟩ [],
            .mk (.named .identifier) (some .right) ⟨19, 20⟩ []],
          .mk (.token "+") (some .operator) ⟨21, 22⟩ [],
          .mk (.named .identifier) (some .right) ⟨23, 24⟩ []],
        .mk (.token ";") none ⟨24, 25⟩ []]]

def sharedConstant.nodeAt (p : Place) : Located := ⟨p, (sharedConstant.root.get? p).getD default⟩

theorem fold_computes_value_sharedConstant :
    foldExpression sharedConstant (sharedConstant.nodeAt [0, 0, 1]) = some "AA".toList ∧
      foldExpression sharedConstant (sharedConstant.nodeAt [0, 1]) = none := by
  have literal : Evaluates sharedConstant (sharedConstant.nodeAt [2, 1, 0]) ['A'] :=
    .string rfl (by decide)
  have resolved (k : Nat) (hk : k = 0 ∨ k = 2) :
      Binding.resolve sharedConstant (sharedConstant.nodeAt [k, 0, 0, 1]) =
        .constant (sharedConstant.nodeAt [1, 0]) (sharedConstant.nodeAt [2, 1, 0]) := by
    rcases hk with rfl | rfl <;> rfl
  have sum : IsSum sharedConstant.text (sharedConstant.nodeAt [0, 0, 1])
      (sharedConstant.nodeAt [0, 0, 0, 1]) (sharedConstant.nodeAt [2, 0, 0, 1]) :=
    ⟨rfl, ⟨sharedConstant.nodeAt [1, 0, 0, 1], rfl, rfl⟩, rfl, rfl⟩
  have whole : IsSum sharedConstant.text (sharedConstant.nodeAt [0, 1])
      (sharedConstant.nodeAt [0, 0, 1]) (sharedConstant.nodeAt [2, 0, 1]) :=
    ⟨rfl, ⟨sharedConstant.nodeAt [1, 0, 1], rfl, rfl⟩, rfl, rfl⟩
  have left : Evaluates sharedConstant (sharedConstant.nodeAt [0, 0, 0, 1]) ['A'] :=
    .reference rfl (resolved 0 (by simp)) (by decide) literal
  have right : Evaluates sharedConstant (sharedConstant.nodeAt [2, 0, 0, 1]) ['A'] :=
    .reference rfl (resolved 2 (by simp)) (by decide) literal
  constructor
  · exact ((fold_computes_value sharedConstant _).1 _).2 (.sum sum left right)
  · exact (fold_computes_value sharedConstant _).2
      ⟨sharedConstant.nodeAt [2, 0, 1], .right whole, fold_of_unfoldable rfl rfl⟩

end SolidityInlay
