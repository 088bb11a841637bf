import SolidityInlay.Declarations.Render
import SolidityInlay.Proofs.Json

/-!
# The text of a value determines it

JSON text and the types of the declaration file lay values out alike. They differ in the blank after
a mark, the word before an array and the text of the empty object. In such a layout a text that
begins with a value determines the value and where it ends, unless digits go on behind it.

Main definitions: `Json.Value.Integral`, `Json.Unambiguous`, `Json.Layout`. Main statements:
`Json.Layout.unambiguous_text`, `Json.compact_array_inj`, `Json.literalType_append_inj`.
-/

namespace SolidityInlay.Json

inductive Value.Integral : Value → Prop
  | null : Integral .null
  | bool (b : Bool) : Integral (.bool b)
  | integer (n : Int) : Integral (.int n)
  | string (s : String) : Integral (.string s)
  | array {items : List Value} : (∀ v ∈ items, Integral v) → Integral (.array items)
  | object {fields : List (String × Value)} : (∀ f ∈ fields, Integral f.2) →
      Integral (.object fields)

/-! ## Unambiguous texts -/

section

variable {α : Type}

/-- A text that begins with what is written for `a` begins with it only, and goes on in one way. -/
def Unambiguous (write : α → Text) (Valid : α → Prop) (a : α) : Prop :=
  ∀ b rest rest', Valid b → EndsNumber rest → EndsNumber rest' →
    write a ++ rest = write b ++ rest' → a = b ∧ rest = rest'

/-- A text that ends a list: no number goes on into it, and no further part. -/
def EndsList (close : Text) : Prop :=
  ∀ rest, EndsNumber (close ++ rest) ∧ (close ++ rest).head? ≠ some ','

def further (gap : Text) (write : α → Text) (as : List α) : Text :=
  as.flatMap fun a => ',' :: gap ++ write a

variable {gap close : Text} {write : α → Text} {Valid : α → Prop}

/-- No number goes on into what follows an item of a list. -/
theorem EndsList.endsNumber_further (ends : EndsList close) (as : List α) (rest : Text) :
    EndsNumber (further gap write as ++ (close ++ rest)) := by
  cases as with
  | nil => exact (ends rest).1
  | cons a as => exact endsNumber_cons _ (by decide)

/-- Parts are told apart one after another, up to the text that ends them. -/
theorem EndsList.further_inj (ends : EndsList close) {as bs : List α}
    (unambiguous : ∀ a ∈ as, Unambiguous write Valid a) (valid : ∀ b ∈ bs, Valid b)
    {rest rest' : Text}
    (h : further gap write as ++ (close ++ rest) = further gap write bs ++ (close ++ rest')) :
    as = bs ∧ rest = rest' := by
  have comma (b : α) (bs : List α) (rest : Text) :
      (further gap write (b :: bs) ++ (close ++ rest)).head? = some ',' := rfl
  induction as generalizing bs with
  | nil =>
    cases bs with
    | nil => exact ⟨rfl, List.append_cancel_left h⟩
    | cons b bs => exact absurd ((congrArg List.head? h).trans (comma b bs rest')) (ends rest).2
  | cons a as ih =>
    cases bs with
    | nil =>
      exact absurd ((congrArg List.head? h).symm.trans (comma a as rest)) (ends rest').2
    | cons b bs =>
      simp only [further, List.flatMap_cons, List.cons_append, List.append_assoc, List.cons.injEq,
        true_and, List.append_cancel_left_eq] at h
      obtain ⟨rfl, tail⟩ := unambiguous a (by simp) b _ _ (valid b (by simp))
        (ends.endsNumber_further as rest) (ends.endsNumber_further bs rest') h
      obtain ⟨rfl, rfl⟩ := ih (fun c hc => unambiguous c (by simp [hc]))
        (fun c hc => valid c (by simp [hc])) tail
      exact ⟨rfl, rfl⟩

end

theorem quoteText_append (s rest : Text) :
    quoteText s ++ rest = '"' :: (s.flatMap escapeChar ++ '"' :: rest) := by
  simp [quoteText]

/-- A quoted string ends at its closing quote. -/
theorem quoteText_append_inj {s t : String} {rest rest' : Text}
    (h : quoteText s.toList ++ rest = quoteText t.toList ++ rest') : s = t ∧ rest = rest' := by
  rw [quoteText_append, quoteText_append, List.cons.injEq] at h
  have read := readString_escaped t.toList rest'
  rw [← h.2, readString_escaped] at read
  simpa using read

/-- An integer ends where its digits do. -/
theorem integerText_append_inj {n m : Int} {rest rest' : Text} (ends : EndsNumber rest)
    (ends' : EndsNumber rest') (h : integerText n ++ rest = integerText m ++ rest') :
    n = m ∧ rest = rest' := by
  have read := readNumberText_integerText m ends'
  rw [← h, readNumberText_integerText n ends] at read
  simp only [Option.some.injEq, Prod.mk.injEq, NumberText.mk.injEq, decide_eq_decide,
    and_true] at read
  obtain ⟨⟨sign, digits⟩, rest⟩ := read
  have size := congrArg natOfDigits digits
  rw [natOfDigits_toDigits, natOfDigits_toDigits] at size
  exact ⟨by omega, rest⟩

/-! ## Layouts -/

/-- The kinds of values that the first character of their text tells apart. -/
inductive Shape where
  | null
  | bool (b : Bool)
  | number
  | string
  | array
  | object

def Value.shape : Value → Shape
  | .null => .null
  | .bool b => .bool b
  | .number _ => .number
  | .string _ => .string
  | .array _ => .array
  | .object _ => .object

/-- The kind of value whose text begins with a character, in any of the layouts below. -/
def Shape.ofChar? (c : Char) : Option Shape :=
  match c with
  | 'n' => some .null
  | 't' => some (.bool true)
  | 'f' => some (.bool false)
  | '"' => some .string
  | '[' | 'r' => some .array
  | '{' | 'R' => some .object
  | _ => if c == '-' || c.isDigit then some .number else none

def Shape.of? (text : Text) : Option Shape := text.head?.bind ofChar?

theorem shape_integerText (n : Int) (rest : Text) :
    Shape.of? (integerText n ++ rest) = some .number := by
  obtain ⟨d, ds, hd, digit⟩ := exists_toDigits_cons n.natAbs
  have number : Shape.ofChar? d = some .number := by
    unfold Shape.ofChar?
    split <;> simp_all
  by_cases negative : n < 0
  · simp [integerText, negative, Shape.of?, Shape.ofChar?]
  · simp [integerText, negative, hd, Shape.of?, number]

def fieldText (gap : Text) (text : Value → Text) (f : String × Value) : Text :=
  quoteText f.1.toList ++ ':' :: (gap ++ text f.2)

/-- A way to write values: the marks it chooses, and the text it gives. -/
structure Layout where
  /-- What follows commas, colons and opening braces, and comes before closing ones. -/
  gap : Text
  /-- What comes before the bracket of an array. -/
  word : Text
  emptyObject : Text
  text : Value → Text
  gap_blank : ∀ c ∈ gap, c = ' '
  shape_word : ∀ rest, Shape.of? (word ++ '[' :: rest) = some .array
  shape_emptyObject : ∀ rest, Shape.of? (emptyObject ++ rest) = some .object
  emptyObject_ne : ∀ rest rest', emptyObject ++ rest ≠ '{' :: (gap ++ '"' :: rest')
  text_null : text .null = "null".toList
  text_bool : ∀ b, text (.bool b) = (if b then "true" else "false").toList
  text_int : ∀ n, text (.int n) = integerText n
  text_string : ∀ s, text (.string s) = quoteText s.toList
  text_array_nil : text (.array []) = word ++ ['[', ']']
  text_array_cons : ∀ v vs, text (.array (v :: vs)) =
    word ++ '[' :: (text v ++ (further gap text vs ++ [']']))
  text_object_nil : text (.object []) = emptyObject
  text_object_cons : ∀ f fs, text (.object (f :: fs)) =
    '{' :: (gap ++ (fieldText gap text f ++
      (further gap (fieldText gap text) fs ++ (gap ++ ['}']))))

namespace Layout

variable (l : Layout)

theorem endsList_bracket : EndsList [']'] := fun _ => ⟨endsNumber_cons _ (by decide), by simp⟩

theorem endsList_brace : EndsList (l.gap ++ ['}']) := by
  intro rest
  cases hgap : l.gap with
  | nil => exact ⟨endsNumber_cons _ (by decide), by simp⟩
  | cons c cs =>
    obtain rfl : c = ' ' := l.gap_blank c (by simp [hgap])
    exact ⟨endsNumber_cons _ (by decide), by simp⟩

/-- The first character of a text tells the kind of its value. -/
theorem shape_text {v : Value} (h : v.Integral) (rest : Text) :
    Shape.of? (l.text v ++ rest) = some v.shape := by
  cases h with
  | null => rw [l.text_null]; rfl
  | bool b => cases b <;> (rw [l.text_bool]; rfl)
  | integer n => rw [l.text_int]; exact shape_integerText n rest
  | string s => rw [l.text_string, quoteText_append]; rfl
  | @array items _ =>
    cases items with
    | nil => rw [l.text_array_nil, List.append_assoc]; exact l.shape_word _
    | cons v vs => rw [l.text_array_cons, List.append_assoc]; exact l.shape_word _
  | @object fields _ =>
    cases fields with
    | nil => rw [l.text_object_nil]; exact l.shape_emptyObject rest
    | cons f fs => rw [l.text_object_cons]; rfl

variable {l} {v w : Value} {rest rest' : Text}

/-- Values with the same text are of one kind. -/
theorem shape_eq (hv : v.Integral) (hw : w.Integral) (h : l.text v ++ rest = l.text w ++ rest') :
    v.shape = w.shape := by
  have shape := l.shape_text hv rest
  rw [h, l.shape_text hw rest', Option.some.injEq] at shape
  exact shape.symm

/-- What closes an array begins no value. -/
theorem bracket_ne (hv : v.Integral) : ']' :: rest ≠ l.text v ++ rest' := by
  intro eq
  have shape := l.shape_text hv rest'
  rw [← eq] at shape
  cases shape

/-- Arrays with the same text have the same items. -/
theorem array_inj {vs ws : List Value} (unambiguous : ∀ v ∈ vs, Unambiguous l.text Value.Integral v)
    (valid : ∀ v ∈ vs, v.Integral) (valid' : ∀ w ∈ ws, w.Integral)
    (h : l.text (.array vs) ++ rest = l.text (.array ws) ++ rest') : vs = ws ∧ rest = rest' := by
  cases vs with
  | nil =>
    cases ws with
    | nil => exact ⟨rfl, List.append_cancel_left h⟩
    | cons w ws =>
      simp only [l.text_array_nil, l.text_array_cons, List.append_assoc, List.cons_append,
        List.nil_append, List.append_cancel_left_eq, List.cons.injEq, true_and] at h
      exact absurd h (bracket_ne (valid' w (by simp)))
  | cons v vs =>
    cases ws with
    | nil =>
      simp only [l.text_array_nil, l.text_array_cons, List.append_assoc, List.cons_append,
        List.nil_append, List.append_cancel_left_eq, List.cons.injEq, true_and] at h
      exact absurd h.symm (bracket_ne (valid v (by simp)))
    | cons w ws =>
      simp only [l.text_array_cons, List.append_assoc, List.cons_append,
        List.append_cancel_left_eq, List.cons.injEq, true_and] at h
      obtain ⟨rfl, tail⟩ := unambiguous v (by simp) w _ _ (valid' w (by simp))
        (endsList_bracket.endsNumber_further vs rest) (endsList_bracket.endsNumber_further ws rest')
        h
      obtain ⟨rfl, rfl⟩ := endsList_bracket.further_inj
        (fun u hu => unambiguous u (by simp [hu])) (fun u hu => valid' u (by simp [hu])) tail
      exact ⟨rfl, rfl⟩

/-- A field is told by its text if its value is: the quotes end the name. -/
theorem unambiguous_field {f : String × Value} (h : Unambiguous l.text Value.Integral f.2) :
    Unambiguous (fieldText l.gap l.text) (fun f => f.2.Integral) f := by
  intro g rest rest' valid ends ends' eq
  simp only [fieldText, List.append_assoc, List.cons_append] at eq
  obtain ⟨key, eq⟩ := quoteText_append_inj eq
  simp only [List.cons.injEq, true_and, List.append_cancel_left_eq] at eq
  obtain ⟨value, same⟩ := h g.2 rest rest' valid ends ends' eq
  exact ⟨Prod.ext key value, same⟩

/-- An object without fields is told from one with a field. -/
theorem object_nil_ne (f : String × Value) (fs : List (String × Value)) :
    l.text (.object []) ++ rest ≠ l.text (.object (f :: fs)) ++ rest' := by
  rw [l.text_object_nil, l.text_object_cons]
  simp only [fieldText, List.cons_append, List.append_assoc, quoteText_append]
  exact l.emptyObject_ne _ _

/-- Objects with the same text have the same fields in the same order. -/
theorem object_inj {fs gs : List (String × Value)}
    (unambiguous : ∀ f ∈ fs, Unambiguous l.text Value.Integral f.2)
    (valid : ∀ g ∈ gs, g.2.Integral)
    (h : l.text (.object fs) ++ rest = l.text (.object gs) ++ rest') : fs = gs ∧ rest = rest' := by
  have fields : ∀ f ∈ fs, Unambiguous (fieldText l.gap l.text) (fun f => f.2.Integral) f :=
    fun f hf => unambiguous_field (unambiguous f hf)
  cases fs with
  | nil =>
    cases gs with
    | nil => exact ⟨rfl, List.append_cancel_left h⟩
    | cons g gs => exact absurd h (object_nil_ne g gs)
  | cons f fs =>
    cases gs with
    | nil => exact absurd h.symm (object_nil_ne f fs)
    | cons g gs =>
      have ends := l.endsList_brace
      have text (f fs rest) : l.text (.object (f :: fs)) ++ rest = '{' :: (l.gap ++
          (fieldText l.gap l.text f ++
            (further l.gap (fieldText l.gap l.text) fs ++ (l.gap ++ ['}'] ++ rest)))) := by
        simp [l.text_object_cons]
      simp only [text, List.cons.injEq, true_and, List.append_cancel_left_eq] at h
      obtain ⟨rfl, tail⟩ := fields f (by simp) g _ _ (valid g (by simp))
        (ends.endsNumber_further fs rest) (ends.endsNumber_further gs rest') h
      obtain ⟨rfl, rfl⟩ := ends.further_inj (fun e he => fields e (by simp [he]))
        (fun e he => valid e (by simp [he])) tail
      exact ⟨rfl, rfl⟩

/-- In a layout the text of a value is read in one way. -/
theorem unambiguous_text (h : v.Integral) : Unambiguous l.text Value.Integral v := by
  induction h with
  | null =>
    intro w rest rest' hw _ _ eq
    have shape := shape_eq .null hw eq
    cases hw <;> cases shape
    exact ⟨rfl, List.append_cancel_left eq⟩
  | bool b =>
    intro w rest rest' hw _ _ eq
    have shape := shape_eq (.bool b) hw eq
    cases hw <;> cases shape
    exact ⟨rfl, List.append_cancel_left eq⟩
  | integer n =>
    intro w rest rest' hw ends ends' eq
    have shape := shape_eq (.integer n) hw eq
    cases hw <;> cases shape
    rw [l.text_int, l.text_int] at eq
    obtain ⟨rfl, same⟩ := integerText_append_inj ends ends' eq
    exact ⟨rfl, same⟩
  | string s =>
    intro w rest rest' hw _ _ eq
    have shape := shape_eq (.string s) hw eq
    cases hw <;> cases shape
    rw [l.text_string, l.text_string] at eq
    obtain ⟨rfl, same⟩ := quoteText_append_inj eq
    exact ⟨rfl, same⟩
  | array valid unambiguous =>
    intro w rest rest' hw _ _ eq
    have shape := shape_eq (.array valid) hw eq
    cases hw <;> cases shape
    rename_i valid'
    obtain ⟨rfl, same⟩ := array_inj unambiguous valid valid' eq
    exact ⟨rfl, same⟩
  | object valid unambiguous =>
    intro w rest rest' hw _ _ eq
    have shape := shape_eq (.object valid) hw eq
    cases hw <;> cases shape
    rename_i valid'
    obtain ⟨rfl, same⟩ := object_inj unambiguous valid' eq
    exact ⟨rfl, same⟩

end Layout

/-! ## JSON text and literal types -/

theorem renderItems_cons (v : Value) (vs : List Value) :
    renderItems (v :: vs) = v.render ++ further [] Value.render vs := by
  induction vs generalizing v with
  | nil => simp [renderItems, further]
  | cons w vs ih =>
    rw [renderItems, ih w]
    · simp [further]
    · simp

theorem renderFields_cons (f : String × Value) (fs : List (String × Value)) :
    renderFields (f :: fs) =
      fieldText [] Value.render f ++ further [] (fieldText [] Value.render) fs := by
  induction fs generalizing f with
  | nil => simp [renderFields, further, fieldText]
  | cons g fs ih =>
    rw [renderFields, ih g]
    · simp [further, fieldText]
    · simp

def Layout.compact : Layout where
  gap := []
  word := []
  emptyObject := ['{', '}']
  text := Value.render
  gap_blank := by simp
  shape_word _ := rfl
  shape_emptyObject _ := rfl
  emptyObject_ne := by simp
  text_null := by rw [Value.render]
  text_bool b := by cases b <;> rw [Value.render] <;> rfl
  text_int _ := by rw [render_int]
  text_string _ := by rw [Value.render]
  text_array_nil := by simp [Value.render, renderItems]
  text_array_cons v vs := by simp [Value.render, renderItems_cons]
  text_object_nil := by simp [Value.render, renderFields]
  text_object_cons f fs := by simp [Value.render, renderFields_cons]

theorem literalItems_eq (vs : List Value) : literalItems vs = further [' '] literalType vs := by
  induction vs with
  | nil => rw [literalItems]; rfl
  | cons v vs ih => rw [literalItems, ih]; simp [further]

theorem literalField_eq (f : String × Value) :
    literalField f.1 f.2 = fieldText [' '] literalType f := by
  rw [literalField]
  simp [fieldText]

theorem literalFields_eq (fs : List (String × Value)) :
    literalFields fs = further [' '] (fieldText [' '] literalType) fs := by
  induction fs with
  | nil => rw [literalFields]; rfl
  | cons f fs ih => rw [literalFields, ih, literalField_eq]; simp [further]

def Layout.literal : Layout where
  gap := [' ']
  word := "readonly ".toList
  emptyObject := "Record<string, never>".toList
  text := literalType
  gap_blank := by simp
  shape_word _ := rfl
  shape_emptyObject _ := rfl
  emptyObject_ne := by simp
  text_null := by rw [literalType]
  text_bool b := by cases b <;> rw [literalType] <;> rfl
  text_int _ := by rw [Value.int, literalType]; rfl
  text_string _ := by rw [literalType]
  text_array_nil := by rw [literalType]; rfl
  text_array_cons v vs := by rw [literalType, literalItems_eq]; simp
  text_object_nil := by rw [literalType]
  text_object_cons f fs := by rw [literalType, literalFields_eq, literalField_eq]; simp

/-- Arrays of integral values with the same compact text are the same. -/
theorem compact_array_inj {vs ws : List Value} (hv : ∀ v ∈ vs, v.Integral)
    (hw : ∀ w ∈ ws, w.Integral) (h : (Value.array vs).compact = (Value.array ws).compact) :
    vs = ws := by
  have unambiguous := Layout.unambiguous_text (l := .compact) (.array hv)
  have texts := congrArg (· ++ []) (String.ofList_injective h)
  exact Value.array.inj (unambiguous _ _ _ (.array hw) endsNumber_nil endsNumber_nil texts).1

/-- The literal type at the front of a text determines the integral values of the array. -/
theorem literalType_append_inj {vs ws : List Value} (hv : ∀ v ∈ vs, v.Integral)
    (hw : ∀ w ∈ ws, w.Integral) {rest rest' : Text} (ends : EndsNumber rest)
    (ends' : EndsNumber rest')
    (h : literalType (.array vs) ++ rest = literalType (.array ws) ++ rest') :
    vs = ws ∧ rest = rest' := by
  have unambiguous := Layout.unambiguous_text (l := .literal) (.array hv)
  obtain ⟨same, tail⟩ := unambiguous _ _ _ (.array hw) ends ends' h
  exact ⟨Value.array.inj same, tail⟩

end SolidityInlay.Json
