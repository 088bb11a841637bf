import Mathlib.Algebra.Order.Ring.Int
import Mathlib.Data.List.TakeDrop
import SolidityInlay.Json.Record
import SolidityInlay.Json.Printer
import SolidityInlay.Proofs.NameMap

/-!
# Printing and reading JSON

A printed string holds no control character. A value without doubles whose integers fit into 64 bits
and whose objects are sorted is read back from its compact text, up to the nesting allowed.

Main definitions: `Json.Value.Plain`. Main statements: `Json.readForm_render`,
`Json.Value.Plain.value?_form`.
-/

namespace SolidityInlay.Json

/-! ## Strings -/

theorem toNat_hexDigitChar {n : Nat} (h : n < 16) : 0x20 ≤ (hexDigitChar n).toNat := by
  revert n
  decide

/-- What is written for a character holds no control character. -/
theorem le_toNat_of_mem_escapeChar {c d : Char} (h : d ∈ escapeChar c) : 0x20 ≤ d.toNat := by
  fun_cases escapeChar c
  case case8 small _ _ _ _ _ _ _ =>
    have high := toNat_hexDigitChar (n := c.toNat / 16) (by omega)
    have low := toNat_hexDigitChar (n := c.toNat % 16) (by omega)
    simp only [escapeChar, if_pos small, List.mem_cons, List.not_mem_nil, or_false] at h
    rcases h with rfl | rfl | rfl | rfl | rfl | rfl <;> first | decide | assumption
  case case9 large _ _ _ _ _ _ _ =>
    simp only [escapeChar, if_neg large, List.mem_singleton] at h
    exact h ▸ Nat.le_of_not_lt large
  all_goals
    simp only [escapeChar, List.mem_cons, List.not_mem_nil, or_false] at h
    rcases h with rfl | rfl <;> decide

/-- A quoted string has no control characters. -/
theorem le_toNat_of_mem_quoteText {s : Text} {d : Char} (h : d ∈ quoteText s) : 0x20 ≤ d.toNat := by
  simp only [quoteText, List.cons_append, List.mem_cons, List.mem_append, List.mem_flatMap,
    List.not_mem_nil, or_false] at h
  rcases h with rfl | ⟨c, _, h⟩ | rfl
  · decide
  · exact le_toNat_of_mem_escapeChar h
  · decide

theorem hexDigit?_hexDigitChar {n : Nat} (h : n < 16) : hexDigit? (hexDigitChar n) = some n := by
  revert n
  decide

theorem joinPieces_unit {n : Nat} (h : n < 0xD800) (pieces : List StringPiece) :
    joinPieces (.unit n :: pieces) = (joinPieces pieces).map (Char.ofNat n :: ·) := by
  have plain : ¬ (0xD800 ≤ n ∧ n < 0xDC00) ∧ ¬ (0xDC00 ≤ n ∧ n < 0xE000) ∧
      ¬ (0xD800 ≤ n ∧ n < 0xE000) := by omega
  obtain ⟨high, low, half⟩ := plain
  rcases pieces with _ | ⟨⟨c⟩ | ⟨m⟩, rest⟩
  · simp only [joinPieces, if_neg half, Option.map_some]
  · simp only [joinPieces, if_neg half]
  · simp only [joinPieces, if_neg high, if_neg low]

theorem readPieces_short {e c : Char} (h : jsonEscape? e = some c) (rest : Text) :
    readPieces ('\\' :: e :: rest) = (readPieces rest).map fun p => (.char c :: p.1, p.2) := by
  have notUnit : e ≠ 'u' := by
    rintro rfl
    simp [jsonEscape?] at h
  rw [readPieces]
  · simp only [h, Option.bind_eq_bind, Option.bind_some]
    cases readPieces rest <;> rfl
  · exact fun _ _ _ _ _ he => absurd he notUnit

theorem readPieces_unit {a b c d : Char} {n : Nat} (h : hexUnit? a b c d = some n) (rest : Text) :
    readPieces ('\\' :: 'u' :: a :: b :: c :: d :: rest) =
      (readPieces rest).map fun p => (.unit n :: p.1, p.2) := by
  simp only [readPieces, h, Option.bind_eq_bind, Option.bind_some]
  cases readPieces rest <;> rfl

/-- What is written for a character is read as one piece, which stands for the character. -/
theorem exists_piece (c : Char) :
    ∃ piece, (∀ rest, readPieces (escapeChar c ++ rest) =
        (readPieces rest).map fun p => (piece :: p.1, p.2)) ∧
      ∀ pieces, joinPieces (piece :: pieces) = (joinPieces pieces).map (c :: ·) := by
  fun_cases escapeChar c
  case case8 small _ _ _ _ _ _ _ =>
    have high := hexDigit?_hexDigitChar (n := c.toNat / 16) (by omega)
    have low := hexDigit?_hexDigitChar (n := c.toNat % 16) (by omega)
    have zero : hexDigit? '0' = some 0 := by decide
    have unit : hexUnit? '0' '0' (hexDigitChar (c.toNat / 16)) (hexDigitChar (c.toNat % 16)) =
        some c.toNat := by
      simp only [hexUnit?, high, low, zero, Option.bind_eq_bind, Option.bind_some]
      congr 1
      omega
    rw [if_pos small]
    refine ⟨.unit c.toNat, fun rest => readPieces_unit unit rest, fun pieces => ?_⟩
    rw [joinPieces_unit (by omega), Char.ofNat_toNat]
  case case9 large quote backslash _ _ _ _ _ =>
    rw [if_neg large]
    exact ⟨.char c, fun rest => readPieces_char quote backslash large rest, fun _ => rfl⟩
  all_goals exact ⟨.char _, fun rest => readPieces_short rfl rest, fun _ => rfl⟩

/-- A quoted string is read back. -/
theorem readString_escaped (s rest : Text) :
    readString (s.flatMap escapeChar ++ '"' :: rest) = some (some (String.ofList s), rest) := by
  have pieces : ∃ ps, readPieces (s.flatMap escapeChar ++ '"' :: rest) = some (ps, rest) ∧
      joinPieces ps = some s := by
    induction s with
    | nil => exact ⟨[], by simp [readPieces], rfl⟩
    | cons c s ih =>
      obtain ⟨ps, read, join⟩ := ih
      obtain ⟨piece, readPiece, joinPiece⟩ := exists_piece c
      refine ⟨piece :: ps, ?_, ?_⟩
      · rw [List.flatMap_cons, List.append_assoc, readPiece, read]
        rfl
      · rw [joinPiece, join]
        rfl
  obtain ⟨ps, read, join⟩ := pieces
  simp [readString, read, join]

/-! ## Integers -/

def EndsNumber (rest : Text) : Prop :=
  ∀ c ∈ rest.head?, c.isDigit = false ∧ c ≠ '.' ∧ c ≠ 'e' ∧ c ≠ 'E'

theorem endsNumber_nil : EndsNumber [] := by
  simp [EndsNumber]

theorem endsNumber_cons {c : Char} (rest : Text)
    (h : c.isDigit = false ∧ c ≠ '.' ∧ c ≠ 'e' ∧ c ≠ 'E') : EndsNumber (c :: rest) := by
  simpa [EndsNumber] using h

/-- Only zero is written with a zero in front. -/
theorem head?_toDigits {n : Nat} (h : 0 < n) : (Nat.toDigits 10 n).head? ≠ some '0' := by
  induction n using Nat.strongRecOn with
  | ind n ih =>
    by_cases small : n < 10
    · rw [Nat.toDigits_of_lt_base small]
      have : ∀ m < 10, 0 < m → Nat.digitChar m ≠ '0' := by decide
      simpa using this n small h
    · rw [Nat.toDigits_of_base_le (by decide) (by omega), List.head?_append_of_ne_nil _
        Nat.toDigits_ne_nil]
      exact ih (n / 10) (by omega) (by omega)

theorem eq_nil_of_toDigits {n : Nat} {ds : Text} (h : Nat.toDigits 10 n = '0' :: ds) : ds = [] := by
  rcases Nat.eq_zero_or_pos n with rfl | pos
  · simpa [eq_comm] using h
  · exact absurd (by rw [h]; rfl) (head?_toDigits pos)

/-- All digits are taken, up to where the number ends. -/
theorem takeDigits_append {digits rest : Text} (h : ∀ c ∈ digits, c.isDigit = true)
    (ends : EndsNumber rest) : takeDigits (digits ++ rest) = (digits, rest) := by
  have stop : rest.takeWhile Char.isDigit = [] ∧ rest.dropWhile Char.isDigit = rest := by
    cases rest with
    | nil => simp
    | cons c rest =>
      have := (ends c (by simp)).1
      simp [this]
  rw [takeDigits, List.span_eq_takeWhile_dropWhile, List.takeWhile_append_of_pos h,
    List.dropWhile_append_of_pos h, stop.1, stop.2, List.append_nil]

/-- Decimal digits are read as a whole number: they have no leading zero. -/
theorem readWhole_toDigits (n : Nat) {rest : Text} (ends : EndsNumber rest) :
    readWhole (Nat.toDigits 10 n ++ rest) = some (Nat.toDigits 10 n, rest) := by
  have digits : ∀ c ∈ Nat.toDigits 10 n, c.isDigit = true := fun c hc =>
    Nat.isDigit_of_mem_toDigits (by decide) (by decide) hc
  rw [readWhole, takeDigits_append digits ends]
  split
  · rename_i h
    exact absurd (Prod.mk.inj h).1 Nat.toDigits_ne_nil
  · rename_i h
    exact absurd (eq_nil_of_toDigits (Prod.mk.inj h).1) (by simp)
  · rename_i h
    obtain ⟨rfl, rfl⟩ := Prod.mk.inj h
    rfl

theorem natOfDigits_toDigits (n : Nat) : natOfDigits (Nat.toDigits 10 n) = n := by
  have digits := Nat.ofDigitChars_ten_toDigits (n := n)
  rwa [Nat.ofDigitChars_eq_foldl] at digits

theorem exists_toDigits_cons (n : Nat) :
    ∃ d ds, Nat.toDigits 10 n = d :: ds ∧ d.isDigit = true := by
  obtain ⟨d, ds, h⟩ := List.exists_cons_of_ne_nil (Nat.toDigits_ne_nil (n := n) (b := 10))
  refine ⟨d, ds, h, Nat.isDigit_of_mem_toDigits (b := 10) (n := n) (by decide) (by decide) ?_⟩
  simp [h]

theorem ne_of_isDigit {c d : Char} (hc : c.isDigit = true) (hd : d.isDigit = false) : c ≠ d := by
  rintro rfl
  simp [hc] at hd

/-- Nothing follows the whole part. -/
theorem readFraction_eq_none {rest : Text} (ends : EndsNumber rest) :
    readFraction rest = some (none, rest) := by
  unfold readFraction
  split
  · exact absurd rfl (ends '.' (by simp)).2.1
  · rfl

theorem readExponent_eq_none {rest : Text} (ends : EndsNumber rest) :
    readExponent rest = some (none, rest) := by
  cases rest with
  | nil => rfl
  | cons c rest =>
    have := ends c (by simp)
    simp [readExponent, this]

/-- An integer is read from its text, without a fraction and an exponent. -/
theorem readNumberText_integerText (n : Int) {rest : Text} (ends : EndsNumber rest) :
    readNumberText (integerText n ++ rest) =
      some (⟨decide (n < 0), Nat.toDigits 10 n.natAbs, none, none⟩, rest) := by
  have whole := readWhole_toDigits n.natAbs ends
  by_cases h : n < 0
  · simp [readNumberText, integerText, h, whole, readFraction_eq_none ends,
      readExponent_eq_none ends]
  · obtain ⟨d, ds, hd, digit⟩ := exists_toDigits_cons n.natAbs
    have plus : d ≠ '-' := ne_of_isDigit digit (by decide)
    rw [integerText, if_neg h, readNumberText]
    · simp [h, whole, readFraction_eq_none ends, readExponent_eq_none ends]
    · intro more minus
      rw [hd] at minus
      exact absurd (List.cons.inj minus).1 plus

/-- Integers of 64 bits, with or without sign, keep their value. -/
theorem value?_integer {n : Int} (low : -2 ^ 63 ≤ n) (high : n < 2 ^ 64) :
    NumberText.value? ⟨decide (n < 0), Nat.toDigits 10 n.natAbs, none, none⟩ =
      some (.integer n) := by
  simp only [NumberText.value?, natOfDigits_toDigits]
  by_cases h : n < 0
  · have nonzero : 0 < n.natAbs := by omega
    have bound : n.natAbs ≤ Nat.pow 2 63 := by
      have pow : Nat.pow 2 63 = 2 ^ 63 := rfl
      omega
    have value : -(n.natAbs : Int) = n := by omega
    simp only [h, nonzero, bound, value, decide_true]
    rfl
  · have bound : n.natAbs < UInt64.size := by
      have size : UInt64.size = 2 ^ 64 := rfl
      omega
    have value : (n.natAbs : Int) = n := by omega
    simp only [h, bound, value, decide_true, decide_false]
    rfl

/-! ## Values -/

/-- A value without doubles that nests at most so deep: integers fit into 64 bits, with or without
sign, and the fields of objects are sorted. -/
inductive Value.Plain : Nat → Value → Prop
  | null {depth : Nat} : Plain depth .null
  | bool {depth : Nat} (b : Bool) : Plain depth (.bool b)
  | integer {depth : Nat} {n : Int} : -2 ^ 63 ≤ n → n < 2 ^ 64 → Plain depth (.int n)
  | string {depth : Nat} (s : String) : Plain depth (.string s)
  | array {depth : Nat} {items : List Value} : (∀ v ∈ items, Plain depth v) →
      Plain (depth + 1) (.array items)
  | object {depth : Nat} {fields : List (String × Value)} : SortedByName fields →
      (∀ f ∈ fields, Plain depth f.2) → Plain (depth + 1) (.object fields)

/-- The value is read back from the front of a text. -/
def Value.ReadsBack (v : Value) : Prop :=
  ∀ fuel rest, 2 * v.render.length ≤ fuel → EndsNumber rest →
    readFormAt fuel (v.render ++ rest) = some (v.form, rest)

theorem skipBlanks_cons {c : Char} (h : isJsonBlank c = false) (cs : Text) :
    skipBlanks (c :: cs) = c :: cs := by
  simp [skipBlanks, h]

theorem render_int (n : Int) : (Value.int n).render = integerText n := rfl

/-- An integer begins with a minus or a digit, hence with no blank. -/
theorem exists_integerText_cons (n : Int) :
    ∃ c cs, integerText n = c :: cs ∧ isJsonBlank c = false ∧
      ∀ d, (d != '-' && !d.isDigit) = true → c ≠ d := by
  have start : ∃ c cs, integerText n = c :: cs ∧
      ∀ d, (d != '-' && !d.isDigit) = true → c ≠ d := by
    obtain ⟨d, ds, hd, digit⟩ := exists_toDigits_cons n.natAbs
    by_cases h : n < 0
    · refine ⟨'-', d :: ds, by simp [integerText, h, hd], ?_⟩
      rintro _ h rfl
      simp at h
    · refine ⟨d, ds, by simp [integerText, h, hd], ?_⟩
      rintro _ h rfl
      simp [digit] at h
  obtain ⟨c, cs, hc, differs⟩ := start
  refine ⟨c, cs, hc, ?_, differs⟩
  simp [isJsonBlank, differs ' ' (by decide), differs '\n' (by decide), differs '\t' (by decide),
    differs '\r' (by decide)]

/-- The text of a value begins with what no blank or bracket does. -/
theorem Value.Plain.exists_render_cons {depth : Nat} {v : Value} (h : v.Plain depth) :
    ∃ c cs, v.render = c :: cs ∧ isJsonBlank c = false ∧ c ≠ ']' := by
  cases h with
  | null => exact ⟨_, _, rfl, by decide, by decide⟩
  | bool b => cases b <;> exact ⟨_, _, rfl, by decide, by decide⟩
  | integer low high =>
    obtain ⟨c, cs, hc, blank, differs⟩ := exists_integerText_cons _
    exact ⟨c, cs, (render_int _).trans hc, blank, differs _ (by decide)⟩
  | string s => exact ⟨_, _, by rw [render_string, quoteText]; rfl, by decide, by decide⟩
  | array => exact ⟨_, _, by rw [render]; rfl, by decide, by decide⟩
  | object => exact ⟨_, _, by rw [render]; rfl, by decide, by decide⟩

/-- Integers of 64 bits are read back. -/
theorem readsBack_integer {n : Int} (low : -2 ^ 63 ≤ n) (high : n < 2 ^ 64) :
    (Value.int n).ReadsBack := by
  intro fuel rest hf ends
  have text := readNumberText_integerText n ends
  obtain ⟨c, cs, hc, blank, differs⟩ := exists_integerText_cons n
  have render : (Value.int n).render = c :: cs := (render_int n).trans hc
  obtain ⟨fuel, rfl⟩ : ∃ k, fuel = k + 1 := ⟨fuel - 1, by simp [render] at hf; omega⟩
  rw [render, List.cons_append, readFormAt, skipBlanks_cons blank]
  rw [hc, List.cons_append] at text
  split
  case h_7 =>
    rw [text]
    simp [value?_integer low high, Value.int, Value.form]
  all_goals
    rename_i h
    exact absurd (List.cons.inj h).1 (differs _ (by decide))

/-- Strings are read back, whatever characters are in them. -/
theorem readsBack_string (s : String) : (Value.string s).ReadsBack := by
  intro fuel rest hf _
  have size : 0 < (Value.string s).render.length := by simp [quoteText]
  obtain ⟨fuel, rfl⟩ : ∃ k, fuel = k + 1 := ⟨fuel - 1, by omega⟩
  have quoted : (Value.string s).render ++ rest =
      '"' :: (s.toList.flatMap escapeChar ++ '"' :: rest) := by
    simp [quoteText]
  rw [quoted, readFormAt_string, readString_escaped]
  simp [Value.form]

theorem exists_renderItems_cons {depth : Nat} {v : Value} (h : v.Plain depth) (items : List Value) :
    ∃ c cs, renderItems (v :: items) = c :: cs ∧ isJsonBlank c = false ∧ c ≠ ']' := by
  obtain ⟨c, cs, hc, blank, bracket⟩ := h.exists_render_cons
  cases items with
  | nil => exact ⟨c, cs, by rw [renderItems, hc], blank, bracket⟩
  | cons w items => exact ⟨c, _, by rw [renderItems, hc, List.cons_append]; simp, blank, bracket⟩

theorem exists_renderFields_cons (k : String) (v : Value) (fields : List (String × Value)) :
    ∃ cs, renderFields ((k, v) :: fields) = '"' :: cs := by
  cases fields <;> exact ⟨_, by simp only [renderFields, quoteText, List.cons_append]; rfl⟩

/-- Items that are read back one by one are read back in a list. -/
theorem readItems_render {v : Value} {items : List Value}
    (reads : ∀ w ∈ v :: items, w.ReadsBack) (fuel : Nat)
    (hf : 2 * (renderItems (v :: items)).length + 1 ≤ fuel) (rest : Text) :
    readItems fuel (renderItems (v :: items) ++ ']' :: rest) =
      some (itemForms (v :: items), rest) := by
  obtain ⟨fuel, rfl⟩ : ∃ k, fuel = k + 1 := ⟨fuel - 1, by omega⟩
  have first := reads v (by simp)
  induction items generalizing v fuel with
  | nil =>
    have ends : EndsNumber (']' :: rest) := endsNumber_cons rest (by decide)
    simp only [renderItems] at hf ⊢
    rw [readItems, first fuel _ (by omega) ends]
    simp [skipBlanks_cons (c := ']') (by decide), itemForms]
  | cons w items ih =>
    have ends (more : Text) : EndsNumber (',' :: more) := endsNumber_cons more (by decide)
    simp only [renderItems, List.length_append, List.length_cons] at hf
    obtain ⟨fuel, rfl⟩ : ∃ k, fuel = k + 1 := ⟨fuel - 1, by omega⟩
    have tail := ih (fun u hu => reads u (List.mem_cons_of_mem _ hu)) fuel (by omega)
      (reads w (by simp))
    simp only [renderItems, List.append_assoc, List.cons_append]
    rw [readItems, first (fuel + 1) _ (by omega) (ends _)]
    simp [skipBlanks_cons (c := ',') (by decide), tail, itemForms]

/-- Fields whose values are read back one by one are read back in an object. -/
theorem readFields_render {k : String} {v : Value} {fields : List (String × Value)}
    (reads : ∀ f ∈ (k, v) :: fields, f.2.ReadsBack) (fuel : Nat)
    (hf : 2 * (renderFields ((k, v) :: fields)).length + 1 ≤ fuel) (rest : Text) :
    readFields fuel (renderFields ((k, v) :: fields) ++ '}' :: rest) =
      some (fieldForms ((k, v) :: fields), rest) := by
  obtain ⟨fuel, rfl⟩ : ∃ n, fuel = n + 1 := ⟨fuel - 1, by omega⟩
  have first : v.ReadsBack := reads (k, v) (by simp)
  induction fields generalizing k v fuel with
  | nil =>
    have ends : EndsNumber ('}' :: rest) := endsNumber_cons rest (by decide)
    simp only [renderFields, List.length_append, List.length_cons] at hf
    simp only [renderFields, quoteText, List.cons_append, List.append_assoc, List.nil_append]
    rw [readFields, skipBlanks_cons (by decide)]
    simp [readString_escaped, skipBlanks_cons (c := ':') (by decide), first fuel _ (by omega) ends,
      skipBlanks_cons (c := '}') (by decide), fieldForms]
  | cons f fields ih =>
    obtain ⟨k', v'⟩ := f
    have ends (more : Text) : EndsNumber (',' :: more) := endsNumber_cons more (by decide)
    simp only [renderFields, List.length_append, List.length_cons] at hf
    obtain ⟨fuel, rfl⟩ : ∃ n, fuel = n + 1 := ⟨fuel - 1, by omega⟩
    have tail := ih (fun u hu => reads u (List.mem_cons_of_mem _ hu)) fuel (by omega)
      (reads (k', v') (by simp))
    simp only [renderFields, quoteText, List.cons_append, List.append_assoc, List.nil_append]
    rw [readFields, skipBlanks_cons (by decide)]
    simp [readString_escaped, skipBlanks_cons (c := ':') (by decide),
      first (fuel + 1) _ (by omega) (ends _), skipBlanks_cons (c := ',') (by decide), tail,
      fieldForms]

/-- A plain value is read back from the front of a text that does not go on a number. -/
theorem Value.Plain.readsBack {depth : Nat} {v : Value} (h : v.Plain depth) : v.ReadsBack := by
  induction h with
  | null =>
    intro fuel rest hf _
    obtain ⟨fuel, rfl⟩ : ∃ k, fuel = k + 1 := ⟨fuel - 1, by simp [render] at hf; omega⟩
    rfl
  | bool b =>
    intro fuel rest hf _
    cases b <;>
    · obtain ⟨fuel, rfl⟩ : ∃ k, fuel = k + 1 := ⟨fuel - 1, by simp [render] at hf; omega⟩
      rfl
  | integer low high => exact readsBack_integer low high
  | string s => exact readsBack_string s
  | @array depth items plain reads =>
    intro fuel rest hf _
    simp only [render, List.length_append, List.length_cons] at hf
    obtain ⟨fuel, rfl⟩ : ∃ k, fuel = k + 1 := ⟨fuel - 1, by omega⟩
    simp only [render, List.cons_append, List.append_assoc, List.nil_append, form]
    rw [readFormAt, skipBlanks_cons (by decide)]
    cases items with
    | nil => simp [renderItems, skipBlanks_cons (c := ']') (by decide), itemForms]
    | cons v items =>
      obtain ⟨c, cs, hc, blank, bracket⟩ := exists_renderItems_cons (plain v (by simp)) items
      have items := readItems_render reads fuel (by omega) rest
      rw [hc, List.cons_append] at items
      simp only [hc, List.cons_append, skipBlanks_cons blank]
      split
      · rename_i h
        exact absurd (List.cons.inj h).1 bracket
      · rw [items]
        rfl
  | @object depth fields sorted plain reads =>
    intro fuel rest hf _
    simp only [render, List.length_append, List.length_cons] at hf
    obtain ⟨fuel, rfl⟩ : ∃ k, fuel = k + 1 := ⟨fuel - 1, by omega⟩
    simp only [render, List.cons_append, List.append_assoc, List.nil_append, form]
    rw [readFormAt, skipBlanks_cons (by decide)]
    cases fields with
    | nil => simp [renderFields, skipBlanks_cons (c := '}') (by decide), fieldForms]
    | cons f fields =>
      obtain ⟨k, v⟩ := f
      obtain ⟨cs, hc⟩ := exists_renderFields_cons k v fields
      have fields := readFields_render reads fuel (by omega) rest
      rw [hc, List.cons_append] at fields
      simp only [hc, List.cons_append, skipBlanks_cons (c := '"') (by decide), fields]
      rfl

/-- The text of a plain value is its form. -/
theorem readForm_render {depth : Nat} {v : Value} (h : v.Plain depth) :
    readForm v.render = some v.form := by
  have front := h.readsBack (2 * v.render.length + 2) [] (by omega) endsNumber_nil
  rw [List.append_nil] at front
  rw [readForm, front]
  rfl

/-! ## Forms -/

/-- Undoing a description of each item gives the items back. -/
theorem mapM_map_eq_some {α β : Type} {describe : α → β} {make : β → Option α} {items : List α}
    (h : ∀ a ∈ items, make (describe a) = some a) :
    (items.map describe).mapM make = some items := by
  induction items with
  | nil => rfl
  | cons a items ih => simp [List.mapM_cons, h a (by simp), ih fun b hb => h b (by simp [hb])]

theorem itemForms_eq_map (items : List Value) : itemForms items = items.map Value.form := by
  induction items with
  | nil => rfl
  | cons v items ih => simp [itemForms, ih]

theorem formValues_itemForms {depth : Nat} {items : List Value}
    (h : ∀ v ∈ items, v.form.value? depth = some v) :
    formValues depth (itemForms items) = some items := by
  induction items with
  | nil => rfl
  | cons v items ih =>
    simp [itemForms, formValues, h v (by simp), ih fun w hw => h w (by simp [hw])]

theorem formFields_fieldForms {depth : Nat} {fields : List (String × Value)}
    (h : ∀ f ∈ fields, f.2.form.value? depth = some f.2) :
    formFields depth (fieldForms fields) = some fields := by
  induction fields with
  | nil => rfl
  | cons f fields ih =>
    obtain ⟨k, v⟩ := f
    have first : v.form.value? depth = some v := h (k, v) (by simp)
    simp [fieldForms, formFields, first, ih fun g hg => h g (by simp [hg])]

/-- The form of a plain value has it as its value. -/
theorem Value.Plain.value?_form {depth : Nat} {v : Value} (h : v.Plain depth) :
    v.form.value? (depth + 1) = some v := by
  induction h with
  | null => simp [form, Form.value?]
  | bool b => simp [form, Form.value?]
  | integer low high => simp [int, form, Form.value?]
  | string s => simp [form, Form.value?]
  | array _ values => simp [form, Form.value?, formValues_itemForms values]
  | @object depth fields sorted _ values =>
    have ordered : SortedByName ([] ++ fields) := by simpa using sorted
    have deeper : ¬ depth + 1 + 1 ≤ 1 := by omega
    rw [form, Form.value?, if_neg deeper, Nat.add_sub_cancel, formFields_fieldForms values,
      Option.map_some, ofFields, foldl_insertSorted ordered, List.nil_append]

end SolidityInlay.Json
