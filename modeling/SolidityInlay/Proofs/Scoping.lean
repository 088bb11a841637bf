import SolidityInlay.Fold.Evaluate
import SolidityInlay.Host.Language
import SolidityInlay.Proofs.Walk

/-!
# Scopes and the names they bind

Which names a construct of the host language binds for what stands in it: the declarations of a
block, of the clauses of a switch and of the head of a loop, the parameters of a function and every
`var` of its body at any depth, what a catch clause catches, and the own name of a function or class
that is an expression. The nearest construct around a reference that binds its name decides what the
reference means.

Folding keeps to that, but for four ways to bind a name that it overlooks. If the nearest construct
binds the name otherwise, and not as a `const` with an initializer, the reference has no value.

Main definitions: `Scope.names`, `Scope.nearest?`, `Scope.constants`, `Scope.Overlooked`. Main
statement: `Scope.fold_eq_none_or_overlooked`.
-/

namespace SolidityInlay

open Host

namespace Scope

/-! ## Names that patterns and declarations bind -/

mutual

/-- The names a pattern binds; keys and default values bind none. -/
def boundNames (text : Text) : Node → List Text
  | .mk label _ span children =>
    if label == .named .identifier || label == .named .shorthandPropertyIdentifierPattern then
      [text.slice span]
    else if label == .named .arrayPattern || label == .named .objectPattern ||
        label == .named .restPattern then
      boundNamesIn text none children
    else if label == .named .assignmentPattern || label == .named .objectAssignmentPattern then
      boundNamesIn text (some .left) children
    else if label == .named .pairPattern then boundNamesIn text (some .value) children
    else []

/-- The names that patterns of the list bind, all of them or those in a role. -/
def boundNamesIn (text : Text) (role : Option Role) : List Node → List Text
  | [] => []
  | n :: ns =>
    (if n.isNamed && (role.isNone || n.role == role) then boundNames text n else []) ++
      boundNamesIn text role ns

end

def declaratorNames (text : Text) (declaration : Node) : List Text :=
  declaration.namedChildren.flatMap fun d =>
    if d.is .variableDeclarator then ((d.child? .name).map (boundNames text)).getD [] else []

def isFunction (n : Node) : Bool :=
  n.is .functionDeclaration || n.is .functionExpression || n.is .generatorFunction ||
    n.is .generatorFunctionDeclaration || n.is .arrowFunction || n.is .methodDefinition

/-- What no `var` inside it leaves. -/
def confinesVars (n : Node) : Bool :=
  isFunction n || n.is .classStaticBlock || n.is .internalModule || n.is .moduleDeclaration

def ownVarNames (text : Text) (n : Node) : List Text :=
  if n.is .variableDeclaration then declaratorNames text n
  else if n.is .forInStatement && n.children.any (·.label == .token "var") then
    ((n.child? .left).map (boundNames text)).getD []
  else []

mutual

/-- The names declared by `var` in a node, at any depth but not in a function inside it. -/
def varNames (text : Text) : Node → List Text
  | .mk label role span children =>
    if confinesVars (.mk label role span children) then []
    else ownVarNames text (.mk label role span children) ++ varNamesAmong text children

def varNamesAmong (text : Text) : List Node → List Text
  | [] => []
  | n :: ns => varNames text n ++ varNamesAmong text ns

end

def nameOf (text : Text) (n : Node) : List Text :=
  ((n.child? .name).map (·.textIn text)).toList

def declaresName (n : Node) : Bool :=
  n.is .functionDeclaration || n.is .generatorFunctionDeclaration || n.is .classDeclaration ||
    n.is .abstractClassDeclaration || n.is .enumDeclaration

def lexicalNames (text : Text) (declaration : Node) : List Text :=
  if declaration.is .lexicalDeclaration then declaratorNames text declaration
  else if declaresName declaration then nameOf text declaration
  else []

/-! ## Names that constructs bind -/

/-- Whether a construct is a list of statements, tokens and a tested value apart. -/
def isBlock (n : Node) : Bool :=
  n.is .program || n.is .statementBlock || n.is .classStaticBlock || n.is .switchCase ||
    n.is .switchDefault

/-- The statements whose declarations a construct binds. All clauses of a switch are one scope. -/
def statements (scope : Located) : List Located :=
  if isBlock scope.node then scope.named
  else if scope.node.is .switchBody then scope.named.flatMap Located.named
  else []

def declarations (scope : Located) : List Located :=
  (statements scope).filterMap Binding.declarationIn

def headNames (text : Text) (n : Node) : List Text :=
  if n.is .forStatement then
    match n.child? .initializer with
    | some i => if i.is .lexicalDeclaration then declaratorNames text i else []
    | none => []
  else if n.is .forInStatement &&
      n.children.any (fun c => c.label == .token "let" || c.label == .token "const") then
    ((n.child? .left).map (boundNames text)).getD []
  else if n.is .catchClause then ((n.child? .parameter).map (boundNames text)).getD []
  else []

def parameterNames (text : Text) (function : Node) : List Text :=
  ((function.child? .parameter).map (boundNames text)).getD [] ++
  ((function.child? .parameters).map fun parameters =>
    parameters.namedChildren.flatMap fun p => boundNames text ((p.child? .pattern).getD p)).getD []

def ownNames (text : Text) (n : Node) : List Text :=
  if n.is .functionExpression || n.is .generatorFunction || n.is .classExpression then
    nameOf text n
  else []

/-- The body whose `var`s a construct binds for what stands in its child `via`. -/
def varBody? (via scope : Located) : Option Located :=
  if scope.node.is .program then some scope
  else if confinesVars scope.node && via.node.is .statementBlock then some via
  else none

/-- The names a construct binds for what stands in its child `via`. Parameters are not known in the
name of a method. -/
def names (text : Text) (via scope : Located) : List Text :=
  (declarations scope).flatMap (fun d => lexicalNames text d.node) ++
  headNames text scope.node ++
  (if isFunction scope.node && via.node.role != some .name then parameterNames text scope.node
    else []) ++
  ownNames text scope.node ++
  ((varBody? via scope).map fun body => varNames text body.node).getD []

/-- The first construct of a list, innermost first, that binds the name, after the child through
which it is reached. -/
def nearestFrom (text name : Text) (via : Located) : List Located → Option (Located × Located)
  | [] => none
  | scope :: outer =>
    if name ∈ names text via scope then some (via, scope)
    else nearestFrom text name scope outer

/-- The nearest construct around a reference that binds its name. -/
def nearest? (t : Tree) (reference : Located) : Option (Located × Located) :=
  nearestFrom t.text (reference.textIn t.text) reference (t.enclosing reference.place)

/-! ## Constants -/

def constantsIn (text name : Text) (declaration : Located) : List Located :=
  if declaration.node.is .lexicalDeclaration &&
      declaration.node.children.head?.map Node.label == some (.token "const") then
    declaration.named.filter fun d => d.node.is .variableDeclarator &&
      (d.child? .name).any (fun p => p.node.is .identifier && p.textIn text == name) &&
      (d.child? .value).isSome
  else []

/-- The declarators of a construct that bind the name as a `const` with an initializer. -/
def constants (text name : Text) (scope : Located) : List Located :=
  (declarations scope).flatMap (constantsIn text name) ++
    if scope.node.is .forStatement then
      ((scope.child? .initializer).map (constantsIn text name)).getD []
    else []

/-! ## What is overlooked -/

/-- The ways to bind a name that folding does not see. -/
inductive Overlooked (text name : Text) (via scope : Located) : Prop
  /-- The own name of a function or class that is an expression. -/
  | ownName : name ∈ ownNames text scope.node → Overlooked text name via scope
  /-- A `var` that is not itself a statement of the body. -/
  | deeperVar {body : Located} : varBody? via scope = some body →
      name ∈ varNames text body.node →
      (∀ d ∈ declarations body, d.node.is .variableDeclaration →
        name ∉ declaratorNames text d.node) →
      Overlooked text name via scope
  /-- A declaration in a clause of an enclosing switch. -/
  | clause {d : Located} : scope.node.is .switchBody → d ∈ declarations scope →
      name ∈ lexicalNames text d.node → Overlooked text name via scope
  | abstractClass {d : Located} : d ∈ declarations scope →
      d.node.is .abstractClassDeclaration → name ∈ nameOf text d.node →
      Overlooked text name via scope

instance (text name : Text) (via scope : Located) : Decidable (Overlooked text name via scope) :=
  decidable_of_iff
    (name ∈ ownNames text scope.node ∨
      (∃ body ∈ varBody? via scope, name ∈ varNames text body.node ∧
        ∀ d ∈ declarations body, d.node.is .variableDeclaration →
          name ∉ declaratorNames text d.node) ∨
      (scope.node.is .switchBody ∧ ∃ d ∈ declarations scope, name ∈ lexicalNames text d.node) ∨
      ∃ d ∈ declarations scope, d.node.is .abstractClassDeclaration ∧
        name ∈ nameOf text d.node) <| by
    constructor
    · rintro (own | ⟨body, hb, bound, deeper⟩ | ⟨switch, d, hd, bound⟩ | ⟨d, hd, abstract, bound⟩)
      · exact .ownName own
      · exact .deeperVar hb bound deeper
      · exact .clause switch hd bound
      · exact .abstractClass hd abstract bound
    · intro overlooked
      cases overlooked with
      | ownName own => exact .inl own
      | deeperVar hb bound deeper => exact .inr (.inl ⟨_, hb, bound, deeper⟩)
      | clause switch hd bound => exact .inr (.inr (.inl ⟨switch, _, hd, bound⟩))
      | abstractClass hd abstract bound => exact .inr (.inr (.inr ⟨_, hd, abstract, bound⟩))

/-! ## Nodes and their places -/

theorem is_iff {n : Node} {k : Kind} : n.is k = true ↔ n.kind? = some k := by
  cases h : n.label <;> simp [Node.is, Node.kind?, h]

theorem map_node_named (l : Located) : l.named.map Located.node = l.node.namedChildren := by
  rw [Node.namedChildren, ← l.map_node_children, List.filter_map]
  rfl

theorem map_node_child? (l : Located) (r : Role) :
    (l.child? r).map Located.node = l.node.child? r := by
  rw [Node.child?, ← l.map_node_children, List.find?_map]
  rfl

theorem exists_of_mem_namedChildren {l : Located} {n : Node} (h : n ∈ l.node.namedChildren) :
    ∃ c ∈ l.named, c.node = n := by
  rw [← map_node_named] at h
  exact List.mem_map.1 h

theorem exists_of_child? {l : Located} {r : Role} {n : Node} (h : l.node.child? r = some n) :
    ∃ c, l.child? r = some c ∧ c.node = n := by
  rw [← map_node_child?] at h
  exact Option.map_eq_some_iff.1 h

/-! ## Bound names are noticed -/

section

variable {text name : Text}

/-- A name is bound by patterns if one of them, in the role if one is given, binds it. -/
theorem mem_boundNamesIn {role : Option Role} {ns : List Node} :
    name ∈ boundNamesIn text role ns ↔
      ∃ n ∈ ns, n.isNamed ∧ (role = none ∨ n.role = role) ∧ name ∈ boundNames text n := by
  induction ns with
  | nil => simp [boundNamesIn]
  | cons n ns ih =>
    rw [boundNamesIn, List.mem_append, ih]
    simp [and_assoc]

theorem bindsAny_iff {ns : List Node} :
    Binding.bindsAny text name ns = true ↔
      ∃ n ∈ ns, n.isNamed = true ∧ Binding.binds text name n = true := by
  induction ns with
  | nil => simp [Binding.bindsAny]
  | cons n ns ih => simp [Binding.bindsAny, ih]

/-- What a pattern binds it also mentions. -/
theorem binds_of_mem_boundNames {n : Node} (h : name ∈ boundNames text n) :
    Binding.binds text name n = true := by
  induction n using Node.induction_children with
  | step n ih =>
    obtain ⟨label, role, span, children⟩ := n
    rw [Binding.binds, Bool.or_eq_true, bindsAny_iff]
    have inside {r : Option Role} (h : name ∈ boundNamesIn text r children) :
        ∃ n ∈ children, n.isNamed = true ∧ Binding.binds text name n = true := by
      obtain ⟨c, hc, named, -, bound⟩ := mem_boundNamesIn.1 h
      exact ⟨c, hc, named, ih c hc bound⟩
    rw [boundNames] at h
    split at h
    · rename_i isName
      refine .inl ?_
      rw [List.mem_singleton] at h
      simp [isName, h]
    · refine .inr ?_
      split at h
      · exact inside h
      · split at h
        · exact inside h
        · split at h
          · exact inside h
          · simp at h

theorem boundNames_of_identifier {n : Node} (h : n.is .identifier = true) :
    boundNames text n = [n.textIn text] := by
  obtain ⟨label, role, span, children⟩ := n
  have label_eq : label = .named .identifier := by simpa [Node.is] using h
  rw [boundNames, label_eq, if_pos (by decide)]
  rfl

/-- A declarator whose pattern binds the name says something about it. -/
theorem isSome_ofDeclarator {d : Located} {p : Node} (constant : Bool)
    (isDeclarator : d.node.is .variableDeclarator = true) (named : d.node.child? .name = some p)
    (bound : name ∈ boundNames text p) :
    (Binding.ofDeclarator text name constant d).isSome := by
  obtain ⟨pattern, hp, rfl⟩ := exists_of_child? named
  unfold Binding.ofDeclarator
  simp only [isDeclarator, if_true, hp]
  by_cases isName : pattern.node.is .identifier = true
  · rw [boundNames_of_identifier isName, List.mem_singleton] at bound
    rw [if_pos isName, if_pos (by simp [bound, Located.textIn])]
    split <;> rfl
  · rw [if_neg isName, if_pos (binds_of_mem_boundNames bound)]
    rfl

/-- A declaration of variables that binds the name is noticed. -/
theorem isSome_ofVariables {d : Located}
    (kind : d.node.is .lexicalDeclaration = true ∨ d.node.is .variableDeclaration = true)
    (bound : name ∈ declaratorNames text d.node) : (Binding.ofVariables text name d).isSome := by
  obtain ⟨n, hn, bound⟩ := List.mem_flatMap.1 bound
  split at bound
  · rename_i isDeclarator
    obtain ⟨c, hc, rfl⟩ := exists_of_mem_namedChildren hn
    cases hp : c.node.child? .name with
    | none => simp [hp] at bound
    | some p =>
      rw [hp] at bound
      simp only [Binding.ofVariables]
      rw [if_pos (by simpa using kind), List.findSome?_isSome_iff]
      exact ⟨c, hc, isSome_ofDeclarator _ isDeclarator hp bound⟩
  · simp at bound

/-- A statement that declares the name is noticed, unless it declares an abstract class. -/
theorem isSome_ofStatement {s d : Located} (hd : Binding.declarationIn s = some d)
    (concrete : d.node.is .abstractClassDeclaration = false)
    (bound : name ∈ lexicalNames text d.node) : (Binding.ofStatement text name s).isSome := by
  rw [Binding.ofStatement, hd, Option.bind_some]
  rw [lexicalNames] at bound
  split at bound
  · rename_i lexical
    rw [if_neg (by simp [Binding.declaresName, is_iff, is_iff.1 lexical])]
    exact isSome_ofVariables (.inl lexical) bound
  · split at bound
    · rename_i declares
      have same : Binding.declaresName d.node = true := by
        simpa [declaresName, Binding.declaresName, concrete] using declares
      obtain ⟨n, hn, rfl⟩ : ∃ n, d.node.child? .name = some n ∧ n.textIn text = name := by
        simpa [nameOf] using bound
      obtain ⟨c, hc, rfl⟩ := exists_of_child? hn
      rw [if_pos same, hc]
      simp [Binding.hiddenIf, Located.textIn]
    · simp at bound

theorem isSome_ofStatement_var {s d : Located} (hd : Binding.declarationIn s = some d)
    (isVar : d.node.is .variableDeclaration = true) (bound : name ∈ declaratorNames text d.node) :
    (Binding.ofStatement text name s).isSome := by
  rw [Binding.ofStatement, hd, Option.bind_some,
    if_neg (by simp [Binding.declaresName, is_iff, is_iff.1 isVar])]
  exact isSome_ofVariables (.inr isVar) bound

/-! ## Constants are declared -/

/-- A declarator gives a constant only for its own name, with its initializer. -/
theorem constant_of_ofDeclarator {constant : Bool} {c d v : Located}
    (h : Binding.ofDeclarator text name constant c = some (.constant d v)) :
    c = d ∧ constant = true ∧ d.child? .value = some v ∧ d.node.is .variableDeclarator = true ∧
      ∃ p, d.child? .name = some p ∧ p.node.is .identifier = true ∧ p.textIn text = name := by
  unfold Binding.ofDeclarator at h
  split at h
  · split at h
    · simp at h
    · rename_i isDeclarator _ p hp
      split at h
      · rename_i isName
        split at h
        · rename_i same
          split at h
          · simp only [Option.some.injEq, Binding.constant.injEq] at h
            obtain ⟨rfl, rfl⟩ := h
            exact ⟨rfl, rfl, by assumption, isDeclarator, p, hp, isName, by simpa using same⟩
          · simp at h
        · simp at h
      · split at h <;> simp at h
  · simp at h

/-- A declaration gives a constant only if one of its declarators is one. -/
theorem constant_of_ofVariables {declaration d v : Located}
    (h : Binding.ofVariables text name declaration = some (.constant d v)) :
    d ∈ constantsIn text name declaration ∧ d.child? .value = some v := by
  simp only [Binding.ofVariables] at h
  split at h
  · obtain ⟨c, hc, h⟩ := List.exists_of_findSome?_eq_some h
    obtain ⟨rfl, isConst, value, isDeclarator, p, hp, isName, same⟩ := constant_of_ofDeclarator h
    refine ⟨?_, value⟩
    rw [constantsIn, if_pos (by simpa using isConst), List.mem_filter]
    exact ⟨hc, by simp [isDeclarator, hp, isName, same, value]⟩
  · simp at h

theorem hiddenIf_ne_constant {condition : Bool} {d v : Located} :
    Binding.hiddenIf condition ≠ some (.constant d v) := by
  unfold Binding.hiddenIf
  split <;> simp

theorem constant_of_ofStatement {s d v : Located}
    (h : Binding.ofStatement text name s = some (.constant d v)) :
    ∃ declaration, Binding.declarationIn s = some declaration ∧
      d ∈ constantsIn text name declaration ∧ d.child? .value = some v := by
  obtain ⟨declaration, hd, h⟩ := Option.bind_eq_some_iff.1 h
  refine ⟨declaration, hd, ?_⟩
  split at h
  · exact absurd h hiddenIf_ne_constant
  · exact constant_of_ofVariables h

/-! ## What folding says of one construct -/

variable {scope : Located}

/-- A list of statements says what the first of them says that says anything. -/
theorem ofScope_of_isBlock (h : isBlock scope.node = true) :
    Binding.ofScope text name scope = scope.named.findSome? (Binding.ofStatement text name) := by
  simp only [isBlock, Bool.or_eq_true, is_iff] at h
  rcases h with (((kind | kind) | kind) | kind) | kind <;> simp only [Binding.ofScope, kind]

theorem ofScope_of_forStatement (h : scope.node.is .forStatement = true) :
    Binding.ofScope text name scope =
      (scope.child? .initializer).bind (Binding.ofVariables text name) := by
  simp only [Binding.ofScope, is_iff.1 h]

/-- Only blocks and the heads of loops can give a name a value. -/
theorem ofScope_ne_constant (block : ¬ isBlock scope.node = true)
    (loop : ¬ scope.node.is .forStatement = true) {d v : Located} :
    Binding.ofScope text name scope ≠ some (.constant d v) := by
  simp only [isBlock, Bool.or_eq_true, is_iff, not_or] at block loop
  unfold Binding.ofScope
  split <;> simp_all [hiddenIf_ne_constant]

/-- The declarations of a list of statements, exports looked through. -/
theorem mem_declarations_of_isBlock (h : isBlock scope.node = true) {d : Located} :
    d ∈ declarations scope ↔ ∃ s ∈ scope.named, Binding.declarationIn s = some d := by
  rw [declarations, statements, if_pos h, List.mem_filterMap]

/-- If a construct gives the name a value, it declares it as a constant. -/
theorem constant_of_ofScope {d v : Located}
    (h : Binding.ofScope text name scope = some (.constant d v)) :
    d ∈ constants text name scope ∧ d.child? .value = some v := by
  by_cases block : isBlock scope.node = true
  · rw [ofScope_of_isBlock block] at h
    obtain ⟨s, hs, h⟩ := List.exists_of_findSome?_eq_some h
    obtain ⟨declaration, hd, mem, value⟩ := constant_of_ofStatement h
    refine ⟨List.mem_append_left _ (List.mem_flatMap.2 ⟨declaration, ?_, mem⟩), value⟩
    exact (mem_declarations_of_isBlock block).2 ⟨s, hs, hd⟩
  · by_cases loop : scope.node.is .forStatement = true
    · rw [ofScope_of_forStatement loop] at h
      obtain ⟨i, hi, h⟩ := Option.bind_eq_some_iff.1 h
      obtain ⟨mem, value⟩ := constant_of_ofVariables h
      refine ⟨List.mem_append_right _ ?_, value⟩
      rw [if_pos loop, hi]
      exact mem
    · exact absurd h (ofScope_ne_constant block loop)

theorem mem_declaratorNames_of_constantsIn {declaration d : Located}
    (h : d ∈ constantsIn text name declaration) :
    declaration.node.is .lexicalDeclaration = true ∧
      name ∈ declaratorNames text declaration.node := by
  rw [constantsIn] at h
  split at h
  · rename_i isConst
    obtain ⟨mem, h⟩ := List.mem_filter.1 h
    simp only [Bool.and_eq_true, Option.any_eq_true, beq_iff_eq] at h isConst
    obtain ⟨⟨isDeclarator, p, hp, isName, rfl⟩, -⟩ := h
    refine ⟨isConst.1, List.mem_flatMap.2 ⟨d.node, ?_, ?_⟩⟩
    · rw [← map_node_named]
      exact List.mem_map_of_mem mem
    · rw [if_pos isDeclarator, ← map_node_child?, hp]
      simp [boundNames_of_identifier isName, Located.textIn]
  · simp at h

/-- A constant is among the names its construct binds. -/
theorem mem_names_of_constants {d : Located} (h : d ∈ constants text name scope) (via : Located) :
    name ∈ names text via scope := by
  simp only [names, List.mem_append]
  rcases List.mem_append.1 h with h | h
  · obtain ⟨declaration, hd, mem⟩ := List.mem_flatMap.1 h
    obtain ⟨lexical, bound⟩ := mem_declaratorNames_of_constantsIn mem
    refine .inl (.inl (.inl (.inl (List.mem_flatMap.2 ⟨declaration, hd, ?_⟩))))
    rwa [lexicalNames, if_pos lexical]
  · refine .inl (.inl (.inl (.inr ?_)))
    split at h
    · rename_i loop
      cases hi : scope.child? .initializer with
      | none => simp [hi] at h
      | some i =>
        rw [hi] at h
        obtain ⟨lexical, bound⟩ := mem_declaratorNames_of_constantsIn h
        rw [headNames, if_pos loop, ← map_node_child?, hi]
        simpa [lexical] using bound
    · simp at h

/-! ## What folding overlooks -/

/-- A construct that declares the name and of which folding says nothing declares an abstract class,
or is a switch. -/
theorem overlooked_of_declarations (unnoticed : Binding.ofScope text name scope = none)
    {d : Located} (hd : d ∈ declarations scope) (bound : name ∈ lexicalNames text d.node)
    (via : Located) : Overlooked text name via scope := by
  by_cases block : isBlock scope.node = true
  · obtain ⟨s, hs, declared⟩ := (mem_declarations_of_isBlock block).1 hd
    rw [ofScope_of_isBlock block, List.findSome?_eq_none_iff] at unnoticed
    cases abstract : d.node.is .abstractClassDeclaration with
    | false =>
      have noticed := isSome_ofStatement declared abstract bound
      simp [unnoticed s hs] at noticed
    | true =>
      refine .abstractClass hd abstract ?_
      simpa [lexicalNames, declaresName, is_iff, is_iff.1 abstract] using bound
  · refine .clause ?_ hd bound
    cases switch : scope.node.is .switchBody with
    | true => rfl
    | false => simp [declarations, statements, block, switch] at hd

theorem any_binds_of_mem {found : Option Node}
    (bound : name ∈ (found.map (boundNames text)).getD []) :
    found.any (Binding.binds text name) = true := by
  cases found with
  | none => simp at bound
  | some n => exact binds_of_mem_boundNames bound

/-- The names in the head of a loop or of a catch clause are noticed. -/
theorem isSome_ofScope_of_headNames (bound : name ∈ headNames text scope.node) :
    (Binding.ofScope text name scope).isSome := by
  rw [headNames] at bound
  split at bound
  · rename_i loop
    rw [ofScope_of_forStatement loop]
    cases hi : scope.node.child? .initializer with
    | none => simp [hi] at bound
    | some i =>
      simp only [hi] at bound
      split at bound
      · rename_i lexical
        obtain ⟨c, hc, rfl⟩ := exists_of_child? hi
        rw [hc]
        exact isSome_ofVariables (.inl lexical) bound
      · simp at bound
  · split at bound
    · rename_i loop
      rw [Bool.and_eq_true, is_iff] at loop
      simp [Binding.ofScope, loop.1, Binding.hiddenIf, any_binds_of_mem bound]
    · split at bound
      · rename_i clause
        simp [Binding.ofScope, is_iff.1 clause, Binding.hiddenIf, any_binds_of_mem bound]
      · simp at bound

theorem bindsParameter_of_mem {function : Node} (bound : name ∈ parameterNames text function) :
    Binding.bindsParameter text name function = true := by
  rw [Binding.bindsParameter, Bool.or_eq_true]
  rcases List.mem_append.1 bound with bound | bound
  · exact .inl (any_binds_of_mem bound)
  · refine .inr ?_
    cases hp : function.child? .parameters with
    | none => simp [hp] at bound
    | some parameters =>
      rw [hp] at bound
      obtain ⟨p, mem, bound⟩ := List.mem_flatMap.1 bound
      exact List.any_eq_true.2 ⟨p, mem, binds_of_mem_boundNames bound⟩

theorem isSome_ofScope_of_parameterNames (function : isFunction scope.node = true)
    (bound : name ∈ parameterNames text scope.node) :
    (Binding.ofScope text name scope).isSome := by
  simp only [isFunction, Bool.or_eq_true, is_iff] at function
  rcases function with ((((kind | kind) | kind) | kind) | kind) | kind <;>
    simp [Binding.ofScope, kind, Binding.hiddenIf, bindsParameter_of_mem bound]

/-- A `var` that is a statement of the body is noticed there. -/
theorem isSome_ofScope_of_var {body d : Located} (block : isBlock body.node = true)
    (hd : d ∈ declarations body) (isVar : d.node.is .variableDeclaration = true)
    (bound : name ∈ declaratorNames text d.node) :
    (Binding.ofScope text name body).isSome := by
  obtain ⟨s, hs, declared⟩ := (mem_declarations_of_isBlock block).1 hd
  rw [ofScope_of_isBlock block, List.findSome?_isSome_iff]
  exact ⟨s, hs, isSome_ofStatement_var declared isVar bound⟩

/-- Variables are bound by the construct itself or by what the reference is in. -/
theorem varBody?_cases {via body : Located} (h : varBody? via scope = some body) :
    isBlock body.node = true ∧ (body = scope ∨ body = via) := by
  rw [varBody?] at h
  split at h
  · rename_i isProgram
    obtain rfl := Option.some.inj h
    exact ⟨by simp [isBlock, isProgram], .inl rfl⟩
  · split at h
    · rename_i confined
      obtain rfl := Option.some.inj h
      exact ⟨by simp [isBlock, (Bool.and_eq_true_iff.1 confined).2], .inr rfl⟩
    · simp at h

/-- If a construct binds the name, and neither it nor the child through which it is reached is
noticed to, then it is one of the ways that are overlooked. -/
theorem overlooked_of_names {via : Located} (bound : name ∈ names text via scope)
    (unnoticed : Binding.ofScope text name scope = none)
    (below : isBlock via.node = true → Binding.ofScope text name via = none) :
    Overlooked text name via scope := by
  simp only [names, List.mem_append] at bound
  rcases bound with (((bound | bound) | bound) | bound) | bound
  · obtain ⟨d, hd, bound⟩ := List.mem_flatMap.1 bound
    exact overlooked_of_declarations unnoticed hd bound via
  · have noticed := isSome_ofScope_of_headNames bound
    simp [unnoticed] at noticed
  · split at bound
    · rename_i function
      have noticed := isSome_ofScope_of_parameterNames (Bool.and_eq_true_iff.1 function).1 bound
      simp [unnoticed] at noticed
    · simp at bound
  · exact .ownName bound
  · cases hb : varBody? via scope with
    | none => simp [hb] at bound
    | some body =>
      rw [hb] at bound
      refine .deeperVar hb bound fun d hd isVar direct => ?_
      obtain ⟨block, same⟩ := varBody?_cases hb
      have noticed := isSome_ofScope_of_var block hd isVar direct
      rcases same with rfl | rfl
      · simp [unnoticed] at noticed
      · simp [below block] at noticed

end

/-! ## The nearest construct -/

/-- Where the search for the nearest construct ends: none before it binds the name, and it is
reached through one of them or from where the search began. -/
theorem exists_of_nearestFrom {text name : Text} {via via' scope : Located} {chain : List Located}
    (h : nearestFrom text name via chain = some (via', scope)) :
    name ∈ names text via' scope ∧ ∃ inner outer, chain = inner ++ scope :: outer ∧
      (∀ s ∈ inner, ∃ v, name ∉ names text v s) ∧ (via' = via ∨ via' ∈ inner) := by
  induction chain generalizing via with
  | nil => simp [nearestFrom] at h
  | cons s rest ih =>
    rw [nearestFrom] at h
    split at h
    · rename_i bound
      simp only [Option.some.injEq, Prod.mk.injEq] at h
      obtain ⟨rfl, rfl⟩ := h
      exact ⟨bound, [], rest, rfl, by simp, .inl rfl⟩
    · rename_i free
      obtain ⟨bound, inner, outer, rfl, unbound, reached⟩ := ih h
      refine ⟨bound, s :: inner, outer, rfl, ?_, .inr ?_⟩
      · rintro x (_ | ⟨_, hx⟩)
        · exact ⟨via, free⟩
        · exact unbound x hx
      · rcases reached with rfl | reached
        · exact List.mem_cons_self
        · exact List.mem_cons_of_mem _ reached

/-- What stands after a construct in the list of those around a place is what stands around it. -/
theorem eq_enclosing_of_append {t : Tree} {p : Place} {inner outer : List Located}
    {scope : Located} (h : t.enclosing p = inner ++ scope :: outer) :
    outer = t.enclosing scope.place := by
  induction p generalizing inner with
  | nil => simp [Tree.enclosing] at h
  | cons i above ih =>
    rw [Tree.enclosing] at h
    split at h
    · cases inner with
      | nil =>
        simp only [List.nil_append, List.cons.injEq] at h
        obtain ⟨rfl, rfl⟩ := h
        rfl
      | cons s inner => exact ih (List.cons.inj h).2
    · exact ih h

/-- Up to a construct that declares no constant of the name, folding finds nothing or a binding
without a value. -/
theorem findSome?_ofScope_eq {text name : Text} {inner : List Located}
    (unbound : ∀ s ∈ inner, ∃ v, name ∉ names text v s) :
    inner.findSome? (Binding.ofScope text name) = none ∨
      inner.findSome? (Binding.ofScope text name) = some .unfoldable := by
  cases found : inner.findSome? (Binding.ofScope text name) with
  | none => exact .inl rfl
  | some b =>
    cases b with
    | unfoldable => exact .inr rfl
    | constant d v =>
      obtain ⟨s, hs, h⟩ := List.exists_of_findSome?_eq_some found
      obtain ⟨v, free⟩ := unbound s hs
      exact absurd (mem_names_of_constants (constant_of_ofScope h).1 v) free

/-- What a reference is bound to, if the nearest construct that binds its name does not bind it as a
constant: to nothing with a value, or, if that construct is overlooked, to what the name means
outside it. -/
theorem resolve_eq_of_nearest? {t : Tree} {n via scope : Located}
    (isName : n.node.is .identifier = true) (nearest : nearest? t n = some (via, scope))
    (noConstant : constants t.text (n.textIn t.text) scope = []) :
    Binding.resolve t n = .unfoldable ∨
      Overlooked t.text (n.textIn t.text) via scope ∧
        Binding.resolve t n = ((t.enclosing scope.place).findSome?
          (Binding.ofScope t.text (n.textIn t.text))).getD .unfoldable := by
  obtain ⟨bound, inner, outer, split, unbound, reached⟩ := exists_of_nearestFrom nearest
  simp only [Binding.resolve, split, List.findSome?_append, List.findSome?_cons]
  rcases findSome?_ofScope_eq unbound with skipped | hidden
  · rw [skipped]
    cases here : Binding.ofScope t.text (n.textIn t.text) scope with
    | none =>
      refine .inr ⟨overlooked_of_names bound here fun block => ?_, ?_⟩
      · rcases reached with rfl | reached
        · simp [isBlock, is_iff, is_iff.1 isName] at block
        · exact List.findSome?_eq_none_iff.1 skipped via reached
      · rw [eq_enclosing_of_append split]
        rfl
    | some b =>
      cases b with
      | unfoldable => exact .inl rfl
      | constant d v =>
        have mem := (constant_of_ofScope here).1
        simp [noConstant] at mem
  · rw [hidden]
    exact .inl rfl

theorem shape_of_identifier {text : Text} {n : Located} (h : n.node.is .identifier = true) :
    Shape.of text n = .identifier := by
  simp only [Shape.of, is_iff.1 h]

/-- Folding does not look through the nearest construct that binds a name, unless it overlooks it.
It then takes the name for what it means outside that construct, where there is an outside. -/
theorem fold_eq_none_or_overlooked {t : Tree} {n via scope : Located}
    (isName : n.node.is .identifier = true) (nearest : nearest? t n = some (via, scope))
    (noConstant : constants t.text (n.textIn t.text) scope = []) :
    foldExpression t n = none ∨
      scope.place ≠ [] ∧ Overlooked t.text (n.textIn t.text) via scope ∧
        Binding.resolve t n = ((t.enclosing scope.place).findSome?
          (Binding.ofScope t.text (n.textIn t.text))).getD .unfoldable := by
  have shape : Shape.of t.text n = .identifier := shape_of_identifier isName
  rcases resolve_eq_of_nearest? isName nearest noConstant with hidden | ⟨overlooked, outside⟩
  · exact .inl (fold_of_unfoldable shape hidden)
  · by_cases outermost : scope.place = []
    · refine .inl (fold_of_unfoldable shape ?_)
      rw [outside, outermost, Tree.enclosing, List.findSome?_nil, Option.getD_none]
    · exact .inr ⟨outermost, overlooked, outside⟩

/-- A parameter hides the constant outside. -/
def hiddenByParameter : Tree :=
  Language.typescript.parse "const x = \"o\"; function f(x) \x7b return x; \x7d"

/-- Whether the reference at a place meets the conditions above, and whether it is overlooked that
it does. -/
def isHidden (t : Tree) (p : Place) (overlooked : Bool) : Bool :=
  match t.root.get? p with
  | none => false
  | some n => n.is .identifier && (nearest? t ⟨p, n⟩).any fun found =>
      (constants t.text (n.textIn t.text) found.2).isEmpty &&
        decide (Overlooked t.text (n.textIn t.text) found.1 found.2) == overlooked

theorem exists_of_isHidden {t : Tree} {p : Place} {overlooked : Bool}
    (h : isHidden t p overlooked = true) :
    ∃ n via scope, t.Holds n ∧ n.place = p ∧ n.node.is .identifier = true ∧
      nearest? t n = some (via, scope) ∧ constants t.text (n.textIn t.text) scope = [] ∧
      (Overlooked t.text (n.textIn t.text) via scope ↔ overlooked = true) := by
  unfold isHidden at h
  split at h
  · simp at h
  · rename_i n hn
    simp only [Bool.and_eq_true, Option.any_eq_true, List.isEmpty_iff, beq_iff_eq] at h
    obtain ⟨isName, ⟨via, scope⟩, nearest, noConstant, rfl⟩ := h
    exact ⟨⟨p, n⟩, via, scope, hn, rfl, isName, nearest, noConstant, by simp [Located.textIn]⟩

theorem fold_hiddenByParameter :
    ∃ n via scope, hiddenByParameter.Holds n ∧ n.node.is .identifier = true ∧
      nearest? hiddenByParameter n = some (via, scope) ∧
      constants hiddenByParameter.text (n.textIn hiddenByParameter.text) scope = [] ∧
      foldExpression hiddenByParameter n = none := by
  have hidden : isHidden hiddenByParameter [1, 1, 3, 1] false = true := by decide +kernel
  obtain ⟨n, via, scope, holds, -, isName, nearest, noConstant, noticed⟩ :=
    exists_of_isHidden hidden
  refine ⟨n, via, scope, holds, isName, nearest, noConstant, ?_⟩
  rcases fold_eq_none_or_overlooked isName nearest noConstant with none | ⟨-, overlooked, -⟩
  · exact none
  · simp [noticed] at overlooked

def literal? (t : Tree) (p : Place) : Option Text :=
  (t.root.get? p).bind fun n =>
    match Binding.resolve t ⟨p, n⟩ with
    | .unfoldable => none
    | .constant d v =>
      if v.node.is .string ∧ ¬ (d.span.start ≤ n.span.start ∧ n.span.start < d.span.stop) then
        StringLiteral.cook (v.textIn t.text)
      else none

/-- A reference whose computed value is a literal is folded to it. -/
theorem fold_of_literal? {t : Tree} {n : Located} (holds : t.Holds n)
    (isName : n.node.is .identifier = true) {value : Text} (h : literal? t n.place = some value) :
    foldExpression t n = some value := by
  rw [literal?, holds, Option.bind_some] at h
  cases hb : Binding.resolve t n with
  | unfoldable => simp [hb] at h
  | constant d v =>
    simp only [hb] at h
    split at h
    · rename_i plain
      have isString : Shape.of t.text v = .string := by simp only [Shape.of, is_iff.1 plain.1]
      rw [foldExpression, fold_of_constant (shape_of_identifier isName) hb, if_neg,
        fold_of_string isString, h]
      rintro (visited | within)
      · simp at visited
      · exact plain.2 within
    · simp at h

/-- A text with a reference that has the value `o`, although the nearest construct that binds its
name gives it no constant. -/
def LooksThrough (source : String) : Prop :=
  ∃ n via scope, (Language.typescript.parse source).Holds n ∧ n.node.is .identifier = true ∧
    nearest? (Language.typescript.parse source) n = some (via, scope) ∧
    constants (Language.typescript.parse source).text
      (n.textIn (Language.typescript.parse source).text) scope = [] ∧
    foldExpression (Language.typescript.parse source) n = some ['o']

/-- A text looks through a binding if the computed tests say so at a place. -/
theorem LooksThrough.of_place {source : String} (p : Place)
    (tested : isHidden (Language.typescript.parse source) p true = true ∧
      literal? (Language.typescript.parse source) p = some ['o']) : LooksThrough source := by
  obtain ⟨n, via, scope, holds, rfl, isName, nearest, noConstant, -⟩ := exists_of_isHidden tested.1
  exact ⟨n, via, scope, holds, isName, nearest, noConstant,
    fold_of_literal? holds isName tested.2⟩

/-- A `var` of an inner block, a declaration in another clause, the own name of a function or class
and an abstract class are looked through. -/
theorem looksThrough_overlooked :
    LooksThrough "const x = \"o\"; function f() \x7b if (a) \x7b var x; \x7d x; \x7d" ∧
    LooksThrough
      "const x = \"o\"; function f() \x7b switch (a) \x7b case 0: let x; case 1: x; \x7d \x7d" ∧
    LooksThrough "const x = \"o\"; (function x() \x7b x; \x7d);" ∧
    LooksThrough "const x = \"o\"; (class x \x7b y = x; \x7d);" ∧
    LooksThrough "const x = \"o\"; \x7b abstract class x \x7b\x7d x; \x7d" := by
  refine ⟨.of_place [0, 2, 3, 1] ?_, .of_place [0, 3, 2, 2, 1, 3, 1] ?_,
    .of_place [0, 1, 3, 1, 0, 1] ?_, .of_place [2, 1, 2, 1, 0, 1] ?_, .of_place [0, 2, 1] ?_⟩
  all_goals decide +kernel

end Scope

end SolidityInlay
