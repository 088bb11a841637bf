import SolidityInlay.Proofs.Grammar

/-!
# The tree of a host file

Every construct of the host grammar lays its nodes over the text, so the tree of a file is laid over
it, whatever the text. An instance follows the definition of its construct; where the definition
looks ahead and branches, so does the instance.

Main statements: `Host.laidOver_parse`, `Host.faithful_parse`.
-/

namespace SolidityInlay.Host

namespace Grammar

set_option synthInstance.maxSize 4000

variable {text : Text} {lo : Nat} {here : Reached text lo}

/-! ## Tokens -/

section Tokens

variable {kind : Kind} [Checked (isPlain (.named kind))] {w op : String}

instance : LaysAt here (keyword w) := by unfold keyword; infer_instance
instance : LaysAt here (anyWord kind) := by unfold anyWord; infer_instance
instance : LaysAt here (wordAs kind w) := by unfold wordAs; infer_instance
instance : LaysAt here (nameAs kind) := by unfold nameAs; infer_instance
instance : LaysAt here identifier := by unfold identifier; infer_instance
instance : LaysAt here privateName := by unfold privateName; infer_instance
instance : LaysAt here (token op) := by unfold token; infer_instance
instance : LaysAt here (mark op) := by unfold mark; infer_instance
instance : LaysAt here (adjacentMark op) := by unfold adjacentMark; infer_instance
instance : LaysAt here openBrace := by unfold openBrace; infer_instance
instance : LaysAt here closeBrace := by unfold closeBrace; infer_instance
instance : LaysAt here semicolon := by unfold semicolon; infer_instance
instance : LaysAt here numberLiteral := by unfold numberLiteral; infer_instance
instance : LaysAt here escape := by unfold escape; infer_instance
instance {quote : Char} : LaysAt here (quoted quote) := by unfold quoted; infer_instance
instance : LaysAt here stringLiteral := by unfold stringLiteral; infer_instance
instance : LaysAt here regexLiteral := by unfold regexLiteral; infer_instance

instance {substitution : Parser Items} [Lays text substitution] :
    LaysAt here (templatePieces substitution) := by
  unfold templatePieces
  infer_instance

end Tokens

/-! ## Constructs

The rules inside a construct are assumed to lay their nodes. -/

variable {g : Rules} [∀ rule, Lays text (g rule)] {mode : Mode}
variable {kind : Kind} [Checked (isPlain (.named kind))]
variable {p : Parser Items} [Lays text p]
variable {found : Items} [Laid text lo here.input.pos found]

instance : LaysAt here (innerExpression g) := by unfold innerExpression; infer_instance
instance : LaysAt here (commaList p) := by unfold commaList; infer_instance
instance : LaysAt here (commaList1 p) := by unfold commaList1; infer_instance
instance {w : String} : LaysAt here (modifier w) := by unfold modifier; infer_instance
instance : LaysAt here (propertyName g) := by unfold propertyName; infer_instance

/-! ### Types and patterns -/

instance : LaysAt here (typeMark g) := by unfold typeMark; infer_instance
instance : LaysAt here (typeArguments g) := by unfold typeArguments; infer_instance
instance : LaysAt here (typeParameter g) := by unfold typeParameter; infer_instance
instance : LaysAt here (typeParameters g) := by unfold typeParameters; infer_instance
instance : LaysAt here (initializer g mode) := by unfold initializer; infer_instance
instance : LaysAt here (withDefault g kind p) := by unfold withDefault; infer_instance
instance : LaysAt here (arrayPattern g) := by unfold arrayPattern; infer_instance
instance : LaysAt here (objectPattern g) := by unfold objectPattern; infer_instance
instance : LaysAt here (bindingTarget g) := by unfold bindingTarget; infer_instance
instance : LaysAt here (patternBody g) := by unfold patternBody; infer_instance
instance : LaysAt here accessibility := by unfold accessibility; infer_instance
instance : LaysAt here overrideModifier := by unfold overrideModifier; infer_instance

instance : LaysAt here (spread g) := by unfold spread; infer_instance
instance : LaysAt here (callArguments g) := by unfold callArguments; infer_instance

instance : LaysAt here (decorator g) := by
  unfold decorator
  extract_lets access parenthesized
  have step {lo : Nat} (next : Reached text lo) (found : Found next) :
      LaysAt next (access found.items) := by
    refine laysOperatorAhead (h := fun op => ?_)
    split <;> infer_instance
  infer_instance

instance : LaysAt here (parameter g) := by unfold parameter; infer_instance
instance : LaysAt here (formalParameters g) := by unfold formalParameters; infer_instance
instance : LaysAt here (typePredicate g) := by unfold typePredicate; infer_instance
instance : LaysAt here asserts.ensureNoBreak := by unfold asserts.ensureNoBreak; infer_instance
instance : LaysAt here (asserts g) := by unfold asserts; infer_instance
instance : LaysAt here (returnMark g) := by unfold returnMark; infer_instance
instance {result : Bool} : LaysAt here (callSignature g result) := by
  unfold callSignature
  infer_instance
instance : LaysAt here (indexSignature g) := by unfold indexSignature; infer_instance
instance {w : String} : LaysAt here (memberModifiers.wordModifier w) := by
  unfold memberModifiers.wordModifier
  infer_instance
instance : LaysAt here memberModifiers := by unfold memberModifiers; infer_instance
instance : LaysAt here (methodSignature g kind) := by unfold methodSignature; infer_instance
instance : LaysAt here (propertySignature g) := by unfold propertySignature; infer_instance
instance : LaysAt here (typeMember g) := by unfold typeMember; infer_instance
instance : LaysAt here (memberBlock g kind) := by unfold memberBlock; infer_instance

instance : LaysAt here (typeReference g) := by
  unfold typeReference
  extract_lets qualify
  have step {lo : Nat} (next : Reached text lo) (found : Found next) :
      LaysAt next (qualify found.items) := by
    have left : Laid text lo next.input.pos (rename (fun n =>
        if n.is .typeIdentifier then n.relabel .identifier
        else if n.is .nestedTypeIdentifier then n.relabel .nestedIdentifier else n)
        found.items) := by
      refine found.laid.relabel fun n => ?_
      split
      · exact .inr ⟨_, rfl, rfl⟩
      · split
        · exact .inr ⟨_, rfl, rfl⟩
        · exact .inl rfl
    infer_instance
  infer_instance

instance : LaysAt here (typeQuery g) := by
  unfold typeQuery
  extract_lets access first
  have step {lo : Nat} (next : Reached text lo) (found : Found next) :
      LaysAt next (access found.items) := by
    refine laysOperatorAhead (h := fun op => ?_)
    split <;> infer_instance
  infer_instance

instance : LaysAt here (templateLiteralType g) := by unfold templateLiteralType; infer_instance
instance : LaysAt here (tupleMember g) := by unfold tupleMember; infer_instance

instance : LaysAt here (atomicType g) := by
  unfold atomicType
  refine laysAhead (h := fun next => laysIte (r := ?_))
  split <;> infer_instance

instance : LaysAt here (primaryTypeBody g) := by unfold primaryTypeBody; infer_instance
instance {op : String} : LaysAt here (typeChain op kind p) := by unfold typeChain; infer_instance
instance : LaysAt here (functionType g) := by unfold functionType; infer_instance
instance : LaysAt here (typeBody g) := by unfold typeBody; infer_instance

/-! ### Expressions -/


theorem adjacentMark_eq_some {op : String} {next : Input} {items : Items}
    (run : adjacentMark op here.input = some (items, next)) :
    items = [.mk (.token op) none ⟨here.input.pos, next.pos⟩ []] ∧
      op.toList <+: here.input.rest ∧ here.input.pos < next.pos ∧ next.IsRest text := by
  obtain ⟨nonzero, rfl, rfl⟩ := adjacent_eq_some run
  have marked : op.toList <+: here.input.rest := by
    by_contra other
    simp [other] at nonzero
  have left : here.input.rest ≠ [] := by
    intro ended
    rw [ended, List.prefix_nil, String.toList_eq_nil_iff] at marked
    simp [marked] at nonzero
  exact ⟨rfl, marked, Input.lt_skip nonzero left, here.isRest.skip _⟩

/-- A token stands behind the gap, and its text is what the input has there. -/
theorem token_eq_some (here : Reached text lo) {op : String} {next : Input} {items : Items}
    (run : token op here.input = some (items, next)) :
    ∃ (mark : Reached text lo) (comments : Items),
      items = comments ++ [.mk (.token op) none ⟨mark.input.pos, next.pos⟩ []] ∧
      Laid text lo mark.input.pos comments ∧ mark.input.pos < next.pos ∧ next.IsRest text := by
  obtain ⟨nonzero, rfl, rfl⟩ := lexeme_eq_some run
  obtain ⟨mark, same, comments⟩ := here.gap
  rw [← same] at nonzero ⊢
  have left : mark.input.rest ≠ [] := by
    intro ended
    have empty : operatorAt [] = "" := by decide
    by_cases same : "" = op
    · simp [← same] at nonzero
    · simp [ended, empty, same] at nonzero
  exact ⟨mark, _, rfl, comments, Input.lt_skip nonzero left, mark.isRest.skip _⟩

/-- A substitution begins with its opening mark and ends with its brace, which are not empty. -/
theorem delimited_of_seq {items comments rest : Items} {first : Node} {last : Input}
    (run : seq [adjacentMark "$\x7b", p, closeBrace] here.input = some (items, last))
    (split : splitComments items = (comments, first :: rest)) {label : Label} :
    Delimited text (.mk label none
      ⟨first.span.start, ((first :: rest).getLast (by simp)).span.stop⟩ (first :: rest)) := by
  obtain ⟨_, opened, _, opening, behind, rfl⟩ := seq_cons_eq_some run
  obtain ⟨inner, _, _, expression, closing, rfl⟩ := seq_cons_eq_some behind
  obtain ⟨_, closed, _, closing, ended, rfl⟩ := seq_cons_eq_some closing
  cases ended
  obtain ⟨rfl, marked, nonempty, isRest⟩ := adjacentMark_eq_some opening
  have lays : LaysAt isRest.reached p := inferInstance
  obtain ⟨read, rfl, laid⟩ := lays.answers expression
  obtain ⟨brace, between, rfl, laidBetween, closes, lastRest⟩ :=
    token_eq_some read.isRest.reached closing
  have inside := laid.append laidBetween read.from_le brace.from_le
  have ends : first = .mk (.token "$\x7b") none ⟨here.input.pos, opened.pos⟩ [] ∧
      rest = (inner ++ between) ++
        [.mk (.token "\x7d") none ⟨brace.input.pos, last.pos⟩ []] := by
    simp [splitComments, List.span_eq_takeWhile_dropWhile, Node.is] at split
    obtain ⟨_, rfl, rfl⟩ := split
    simp
  obtain ⟨rfl, rfl⟩ := ends
  rw [List.getLast_cons (by simp), List.getLast_concat]
  have through : opened.pos ≤ brace.input.pos := Nat.le_trans read.from_le brace.from_le
  refine ⟨?_, fun e mem named => ?_⟩
  · have lt : here.input.pos < last.pos := by omega
    have dollar : here.input.rest.head? = some '$' := by
      obtain ⟨behind, rest⟩ := marked
      simp [← rest]
    exact (here.isRest.head?_slice lastRest.isBoundary lt).trans dollar
  · -- the marks are no constructs, so whatever is one lies between them
    have between : e ∈ inner ++ between := by
      simp only [Node.children_mk, List.mem_cons, List.mem_append, List.not_mem_nil,
        or_false] at mem
      rcases mem with rfl | mem | rfl
      · cases named
      · exact List.mem_append.mpr mem
      · cases named
    have := inside.inside e between
    simp only [Node.span_mk]
    omega

instance : LaysAt here (templateSubstitution g) where
  answers run := by
    obtain ⟨⟨items, last⟩, all, run⟩ := Option.bind_eq_some_iff.mp run
    cases run
    have whole : LaysAt here (seq [adjacentMark "$\x7b", g (.expressions .inner), closeBrace]) :=
      inferInstance
    obtain ⟨after, rfl, laid⟩ := whole.answers all
    exact ⟨after, rfl, laid.gather fun _ _ _ _ split => delimited_of_seq all split⟩

instance : LaysAt here (templateString g) := by unfold templateString; infer_instance
instance : LaysAt here (arrayLiteral g) := by unfold arrayLiteral; infer_instance
instance : LaysAt here (methodDefinition g) := by unfold methodDefinition; infer_instance
instance : LaysAt here (objectLiteral g) := by unfold objectLiteral; infer_instance
instance : LaysAt here (parenthesized g) := by unfold parenthesized; infer_instance
instance : LaysAt here asyncKeyword := by unfold asyncKeyword; infer_instance
instance : LaysAt here (functionExpression g) := by unfold functionExpression; infer_instance
instance : LaysAt here (arrowBody g mode) := by unfold arrowBody; infer_instance
instance : LaysAt here (arrowFunction g mode) := by unfold arrowFunction; infer_instance
instance : LaysAt here (classHeritage g) := by unfold classHeritage; infer_instance
instance : LaysAt here (fieldDefinition g) := by unfold fieldDefinition; infer_instance
instance : LaysAt here (classMember g) := by unfold classMember; infer_instance
instance : LaysAt here (classBody g) := by unfold classBody; infer_instance
instance : LaysAt here (classTail g p) := by unfold classTail; infer_instance
instance : LaysAt here className := by unfold className; infer_instance
instance : LaysAt here (classExpression g) := by unfold classExpression; infer_instance
instance : LaysAt here endsInstantiation := by unfold endsInstantiation; infer_instance
instance : LaysAt here memberName := by unfold memberName; infer_instance

instance : LaysAt here (access g found) := by
  unfold access
  refine laysOperatorAhead (h := fun op => ?_)
  split <;> infer_instance

instance : LaysAt here (newExpression.newOperand g mode) := by
  unfold newExpression.newOperand
  infer_instance

instance : LaysAt here (newExpression g mode) := by
  unfold newExpression
  extract_lets calleeAccess callee
  have step {lo : Nat} (next : Reached text lo) (found : Found next) :
      LaysAt next (calleeAccess found.items) := by
    refine laysOperatorAhead (h := fun op => ?_)
    split <;> infer_instance
  infer_instance

instance : LaysAt here (nameOrArrow g mode) := by unfold nameOrArrow; infer_instance

instance : LaysAt here (primary g mode) := by
  unfold primary
  refine laysAhead (h := fun next => laysIte (r := laysIte (l := ?_)))
  split <;> infer_instance

instance : LaysAt here (operandBody g mode) := by unfold operandBody; infer_instance
instance : LaysAt here (withUpdate mode found) := by unfold withUpdate; infer_instance

instance : LaysAt here (loosePostfix g mode found) := by
  unfold loosePostfix
  refine laysLineBreakAhead (h := fun broken => ?_)
  split
  · infer_instance
  · refine laysAhead (h := fun next => ?_)
    split <;> infer_instance

instance {dialect : Dialect} : LaysAt here (unaryBody g dialect mode) := by
  unfold unaryBody
  refine laysAhead (h := fun next =>
    laysIte (r := laysIte (r := laysIte (r := laysIte (r := ?_)))))
  dsimp only
  split <;> infer_instance

instance {level : Nat} {loose : Bool} : LaysAt here (binaryBody g mode level loose) := by
  unfold binaryBody
  infer_instance
instance : LaysAt here (conditional g mode found) := by unfold conditional; infer_instance
instance : LaysAt here (yieldExpression g mode) := by unfold yieldExpression; infer_instance
instance : LaysAt here (usingAssignment g mode) := by unfold usingAssignment; infer_instance
instance : LaysAt here (expressionBody g mode) := by unfold expressionBody; infer_instance
instance : LaysAt here (expressionsBody g mode) := by unfold expressionsBody; infer_instance

/-! ### Elements -/

instance : LaysAt here tagName := by unfold tagName; infer_instance
instance : LaysAt here attributeString := by unfold attributeString; infer_instance
instance : LaysAt here (embeddedExpression g) := by unfold embeddedExpression; infer_instance
instance : LaysAt here (tagAttribute g) := by unfold tagAttribute; infer_instance
instance : LaysAt here characterReference := by unfold characterReference; infer_instance
instance : LaysAt here elementText := by unfold elementText; infer_instance
instance : LaysAt here (elementChildren g) := by unfold elementChildren; infer_instance
instance : LaysAt here (elementBody g) := by unfold elementBody; infer_instance

/-! ### Statements -/

instance : LaysAt here (declarator g mode) := by unfold declarator; infer_instance
instance : LaysAt here (declarators g mode) := by unfold declarators; infer_instance
instance : LaysAt here (declaredVariables g mode p) := by unfold declaredVariables; infer_instance
instance : LaysAt here (functionDeclaration g) := by unfold functionDeclaration; infer_instance
instance : LaysAt here (classDeclaration g) := by unfold classDeclaration; infer_instance
instance : LaysAt here (typeAlias g) := by unfold typeAlias; infer_instance
instance : LaysAt here (interfaceDeclaration g) := by unfold interfaceDeclaration; infer_instance
instance : LaysAt here (enumDeclaration g) := by unfold enumDeclaration; infer_instance
instance : LaysAt here dottedName := by unfold dottedName; infer_instance
instance : LaysAt here (moduleTail g) := by unfold moduleTail; infer_instance
instance : LaysAt here (moduleDeclaration g) := by unfold moduleDeclaration; infer_instance
instance : LaysAt here (namespaceStatement g) := by unfold namespaceStatement; infer_instance
instance : LaysAt here (ambientDeclaration g p) := by unfold ambientDeclaration; infer_instance
instance : LaysAt here importAlias := by unfold importAlias; infer_instance
instance : LaysAt here (declaration g) := by unfold declaration; infer_instance
instance : LaysAt here (moduleExportName kind) := by unfold moduleExportName; infer_instance
instance : LaysAt here (specifier kind) := by unfold specifier; infer_instance
instance : LaysAt here fromClause := by unfold fromClause; infer_instance
instance : LaysAt here (importAttribute g) := by unfold importAttribute; infer_instance
instance : LaysAt here importClause := by unfold importClause; infer_instance
instance : LaysAt here (importStatement g) := by unfold importStatement; infer_instance
instance : LaysAt here (exportStatement g) := by unfold exportStatement; infer_instance
instance : LaysAt here (ifStatement g) := by unfold ifStatement; infer_instance
instance : LaysAt here (forTarget g) := by unfold forTarget; infer_instance
instance : LaysAt here (forInStatement g) := by unfold forInStatement; infer_instance
instance : LaysAt here (forStatement g) := by unfold forStatement; infer_instance
instance : LaysAt here (switchStatement g) := by unfold switchStatement; infer_instance
instance : LaysAt here (tryStatement g) := by unfold tryStatement; infer_instance
instance {w : String} : LaysAt here (jump kind w) := by unfold jump; infer_instance
instance {w : String} : LaysAt here (withOperand g kind w) := by unfold withOperand; infer_instance
instance : LaysAt here (expressionStatement g) := by unfold expressionStatement; infer_instance
instance : LaysAt here (labeledStatement g) := by unfold labeledStatement; infer_instance

instance : LaysAt here (statementBody g) := by
  unfold statementBody
  refine laysAhead (h := fun next => laysIte (l := ?_) (r := ?_))
  · split <;> infer_instance
  · split <;> infer_instance

instance : LaysAt here (blockBody g) := by unfold blockBody; infer_instance
instance : LaysAt here strayToken := by unfold strayToken; infer_instance
instance : LaysAt here hashBangLine := by unfold hashBangLine; infer_instance
instance : LaysAt here (programItems g) := by unfold programItems; infer_instance

/-! ## Files -/

/-- The rules lay their nodes at every depth: by induction, each step uses the rules below it. -/
theorem lays_rules (text : Text) (dialect : Dialect) (depth : Nat) (rule : Rule) :
    Lays text (rules dialect depth rule) := by
  induction depth generalizing rule with
  | zero =>
    intro lo here
    exact ⟨fun run => by cases run⟩
  | succ depth ih =>
    intro lo here
    have body : LaysAt here (rule.body dialect (rules dialect depth)) := by
      cases rule <;> (unfold Rule.body; infer_instance)
    exact ⟨body.answers⟩

end Grammar

open Grammar

/-- The root fits around the items of a file, from the first of them to the end of the text. -/
theorem fits_program {text : Text} {items : Items} (laid : Laid text 0 text.size items) :
    Fits text (.mk (.named .program) none
      ⟨(items.head?.map fun n => n.span.start).getD text.size, text.size⟩ items) := by
  have whole : text.IsBoundary text.size := ⟨text, [], by simp, rfl⟩
  cases items with
  | nil => exact .leaf (by simp) (Nat.le_refl _) whole whole
  | cons first rest =>
    have fits := laid.fits first List.mem_cons_self
    refine .intro ⟨?_, fun n mem => ?_, laid.apart⟩ fits.isBoundary_start whole (by simp) laid.fits
    · exact Nat.le_trans fits.encloses.ordered (laid.inside first List.mem_cons_self).2
    · exact ⟨(laid.within_ends mem).1, (laid.inside n mem).2⟩

/-- The tree of a host file is laid over its text. -/
theorem laidOver_parse (dialect : Dialect) (text : Text) : (parse dialect text).LaidOver := by
  have lays : LaysAt (.ofText text) (programItems (rules dialect (depthFor text))) := by
    have rules := lays_rules text dialect (depthFor text)
    infer_instance
  apply Tree.laidOver_of_fits
  unfold parse
  apply fits_program
  generalize result : (programItems (rules dialect (depthFor text)) (Input.ofText text)).getD
    ([], Input.ofText text) = read
  obtain ⟨items, rest⟩ := read
  obtain ⟨after, rfl, laid⟩ : ∃ after : Reached text 0, after.input = rest ∧
      Laid text 0 rest.pos items := by
    cases answer : programItems (rules dialect (depthFor text)) (Input.ofText text) with
    | none =>
      rw [answer] at result
      cases result
      exact ⟨.ofText text, rfl, .nil⟩
    | some read =>
      rw [answer] at result
      cases result
      exact lays.answers answer
  obtain ⟨last, same, comments⟩ := after.isRest.reached.gap
  have ended : last.input.pos ≤ text.size := last.isRest.isBoundary.le_size
  exact (laid.append comments (Nat.zero_le _) last.from_le).mono (Nat.le_refl _) ended

/-- The program's own parser is faithful. -/
theorem faithful_parse : Parser.Faithful Language.parse where
  text _ _ := rfl
  laidOver language text := laidOver_parse language.dialect text.toList

end SolidityInlay.Host
