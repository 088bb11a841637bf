import SolidityInlay.Fold.StringLiteral
import SolidityInlay.Proofs.Json

/-!
# Spellings of a string

A string can be written between quotes in many ways: each character as itself or by one of its
escapes, with a line broken after a backslash anywhere between two characters. The value of a quoted
literal is the string it was written for, whatever spelling was chosen for each character.

Main definitions: `StringLiteral.SpellsChar`, `StringLiteral.Spells`. Main statements:
`StringLiteral.unescape_of_spells`, `StringLiteral.cook_of_spells`.
-/

namespace SolidityInlay.StringLiteral

/-! ## Numbers in base 16 -/

def IsHexDigit (d : Char) (v : Nat) : Prop :=
  v < 16 ∧ (d = Nat.digitChar v ∨ d = (Nat.digitChar v).toUpper)

inductive HexDigits : Text → Nat → Prop
  | nil : HexDigits [] 0
  | snoc {digits : Text} {n : Nat} {d : Char} {v : Nat} :
      HexDigits digits n → IsHexDigit d v → HexDigits (digits ++ [d]) (16 * n + v)

theorem IsHexDigit.hexDigit?_eq {d : Char} {v : Nat} (h : IsHexDigit d v) :
    hexDigit? d = some v := by
  obtain ⟨small, rfl | rfl⟩ := h
  all_goals
    revert v
    decide

instance (d : Char) (v : Nat) : Decidable (IsHexDigit d v) := inferInstanceAs (Decidable (_ ∧ _))

/-- A character that is read as a digit is one, in lower or upper case. -/
theorem isHexDigit_of_hexDigit? {d : Char} {v : Nat} (h : hexDigit? d = some v) :
    IsHexDigit d v := by
  have digits : ∀ n < 103, ∀ v ∈ hexDigit? (Char.ofNat n), IsHexDigit (Char.ofNat n) v := by decide
  have bound : d.toNat < 103 := by
    unfold hexDigit? at h
    split_ifs at h with decimal lower upper
    · exact Nat.lt_of_le_of_lt decimal.2 (by decide)
    · exact Nat.lt_of_le_of_lt lower.2 (by decide)
    · exact Nat.lt_of_le_of_lt upper.2 (by decide)
  have digit := digits d.toNat bound
  rw [Char.ofNat_toNat] at digit
  exact digit v h

theorem IsHexDigit.toLower_eq {d : Char} {v : Nat} (h : IsHexDigit d v) :
    d.toLower = Nat.digitChar v := by
  obtain ⟨small, rfl | rfl⟩ := h
  all_goals
    revert v
    decide

theorem IsHexDigit.toNat_lt {d : Char} {v : Nat} (h : IsHexDigit d v) : d.toNat < 0x80 := by
  obtain ⟨small, rfl | rfl⟩ := h
  all_goals
    revert v
    decide

/-- Every digit has its value, and the number is what the values fold to. -/
theorem HexDigits.exists_values {digits : Text} {n : Nat} (h : HexDigits digits n) :
    ∃ values, digits.mapM hexDigit? = some values ∧
      values.foldl (fun n d => 16 * n + d) 0 = n := by
  induction h with
  | nil => exact ⟨[], rfl, rfl⟩
  | @snoc digits n d v _ digit ih =>
    obtain ⟨values, read, folded⟩ := ih
    refine ⟨values ++ [v], ?_, by simp [folded]⟩
    simp [List.mapM_append, read, digit.hexDigit?_eq]

theorem HexDigits.hexDigit?_of_mem {digits : Text} {n : Nat} (h : HexDigits digits n) {d : Char}
    (mem : d ∈ digits) : ∃ v, hexDigit? d = some v := by
  induction h with
  | nil => simp at mem
  | @snoc digits n e v _ digit ih =>
    rcases List.mem_append.mp mem with front | last
    · exact ih front
    · obtain rfl : d = e := by simpa using last
      exact ⟨v, digit.hexDigit?_eq⟩

theorem charOf?_toNat (c : Char) : charOf? c.toNat = some c := by
  have valid : c.toNat < 0xD800 ∨ (0xDFFF < c.toNat ∧ c.toNat < 0x110000) := c.valid
  rw [charOf?, if_pos valid, Char.ofNat_toNat]

/-- Digits that spell the code point of a character are read as the character. -/
theorem HexDigits.hexChar?_eq {digits : Text} {c : Char} (h : HexDigits digits c.toNat)
    (some : digits ≠ []) : hexChar? digits = .some c := by
  obtain ⟨values, read, folded⟩ := h.exists_values
  have unsigned : ∀ rest, digits ≠ '+' :: rest := by
    rintro rest rfl
    obtain ⟨v, digit⟩ := h.hexDigit?_of_mem List.mem_cons_self
    simp [hexDigit?] at digit
  have fits : c.toNat < UInt32.size := c.val.toNat_lt
  have number : hexNumber? digits = .some c.toNat := by
    unfold hexNumber?
    split
    · exact absurd rfl (unsigned _)
    · simp [some, read, folded, fits]
  rw [hexChar?, number, Option.bind_some, charOf?_toNat]

/-! ## Spellings -/

def shortEscapes : List (Char × Char) :=
  [('n', '\n'), ('r', '\r'), ('t', '\t'), ('b', '\x08'), ('f', '\x0c'), ('v', '\x0b')]

/-- The characters that a backslash gives another meaning: the letters of escapes, the digits and
the line breaks. -/
def IsSpecial (c : Char) : Prop :=
  c ∈ ['n', 'r', 't', 'b', 'f', 'v', 'x', 'u', '\n', '\r'] ∨ c.isDigit = true

/-- The ways to write one character between two quotes, with what is written behind it. -/
inductive SpellsChar (quote : Char) (behind : Text) : Char → Text → Prop
  | itself {c : Char} : c ≠ '\\' → c ≠ quote → c ≠ '\n' → c ≠ '\r' → SpellsChar quote behind c [c]
  | short {e c : Char} : (e, c) ∈ shortEscapes → SpellsChar quote behind c ['\\', e]
  | null : (∀ d ∈ behind.head?, d.isDigit = false) → SpellsChar quote behind '\x00' ['\\', '0']
  | byte {c : Char} {digits : Text} : digits.length = 2 → HexDigits digits c.toNat →
      SpellsChar quote behind c ('\\' :: 'x' :: digits)
  | unit {c : Char} {digits : Text} : digits.length = 4 → HexDigits digits c.toNat →
      SpellsChar quote behind c ('\\' :: 'u' :: digits)
  | codePoint {c : Char} {digits : Text} : digits ≠ [] → HexDigits digits c.toNat →
      SpellsChar quote behind c ('\\' :: 'u' :: '{' :: digits ++ ['}'])
  | escaped {c : Char} : ¬ IsSpecial c → SpellsChar quote behind c ['\\', c]

/-- The ways to write a string between two quotes: a spelling of each character, and a line broken
after a backslash anywhere between them. -/
inductive Spells (quote : Char) : Text → Text → Prop
  | nil : Spells quote [] []
  | char {c : Char} {piece value body : Text} : SpellsChar quote body c piece →
      Spells quote value body → Spells quote (c :: value) (piece ++ body)
  | continued {lineBreak value body : Text} : lineBreak ∈ [['\n'], ['\r'], ['\r', '\n']] →
      Spells quote value body → Spells quote value ('\\' :: lineBreak ++ body)

/-! ## Reading one spelling -/

theorem unescape_letter {e : Char} (h : e ∉ ['x', 'u', '\n', '\r', '0']) (digit : e.isDigit = false)
    (body : Text) :
    unescape ('\\' :: e :: body) = (unescape body).map ((simpleEscape? e).getD e :: ·) := by
  rw [unescape] <;> grind

/-- A zero is the null character unless a digit follows. -/
theorem unescape_null {body : Text} (h : ∀ d ∈ body.head?, d.isDigit = false) :
    unescape ('\\' :: '0' :: body) = (unescape body).map ('\x00' :: ·) := by
  have undigited : body.head?.any Char.isDigit = false := by
    cases front : body.head? with
    | none => rfl
    | some d => exact h d (by simp [front])
  simp [unescape, undigited]

theorem unescape_byte {digits : Text} {c : Char} (two : digits.length = 2)
    (h : HexDigits digits c.toNat) (body : Text) :
    unescape ('\\' :: 'x' :: digits ++ body) = (unescape body).map (c :: ·) := by
  have read := h.hexChar?_eq (by rintro rfl; simp at two)
  obtain ⟨a, b, rfl⟩ := List.length_eq_two.mp two
  simp [unescape, read]

theorem unescape_unit {digits : Text} {c : Char} (four : digits.length = 4)
    (h : HexDigits digits c.toNat) (body : Text) :
    unescape ('\\' :: 'u' :: digits ++ body) = (unescape body).map (c :: ·) := by
  have read := h.hexChar?_eq (by rintro rfl; simp at four)
  match digits, four with
  | [a, b, c', d], _ =>
    -- four digits do not open with a brace, so these are not the digits of a code point
    have unbraced : a ≠ '{' := by
      rintro rfl
      obtain ⟨v, digit⟩ := h.hexDigit?_of_mem List.mem_cons_self
      simp [hexDigit?] at digit
    simp only [List.cons_append, List.nil_append]
    rw [unescape]
    · simp [read]
    · exact unbraced

/-- Digits are collected up to the closing brace. -/
theorem unescapeBraced_append {digits : Text} (h : '}' ∉ digits) (seen body : Text) :
    unescapeBraced seen (digits ++ body) = unescapeBraced (digits.reverse ++ seen) body := by
  induction digits generalizing seen with
  | nil => rfl
  | cons d digits ih =>
    rw [List.mem_cons, not_or] at h
    rw [List.cons_append, unescapeBraced, ih h.2]
    · simp
    · exact fun brace => h.1 brace.symm

/-- Digits between braces are read as the character they spell. -/
theorem unescape_codePoint {digits : Text} {c : Char} (some : digits ≠ [])
    (h : HexDigits digits c.toNat) (body : Text) :
    unescape ('\\' :: 'u' :: '{' :: digits ++ ['}'] ++ body) = (unescape body).map (c :: ·) := by
  have unbraced : '}' ∉ digits := by
    intro mem
    obtain ⟨v, digit⟩ := h.hexDigit?_of_mem mem
    simp [hexDigit?] at digit
  have read := h.hexChar?_eq some
  simp only [List.cons_append, List.append_assoc, unescape]
  rw [unescapeBraced_append unbraced]
  simp [unescapeBraced, read]

/-- A spelling of a character is read as the character, whatever is written behind it. -/
theorem SpellsChar.unescape_append {quote c : Char} {piece body : Text}
    (h : SpellsChar quote body c piece) :
    unescape (piece ++ body) = (unescape body).map (c :: ·) := by
  cases h with
  | itself backslash => exact unescape_itself backslash body
  | @short e _ mem =>
    simp only [shortEscapes, List.mem_cons, Prod.mk.injEq, List.not_mem_nil, or_false] at mem
    rcases mem with ⟨rfl, rfl⟩ | ⟨rfl, rfl⟩ | ⟨rfl, rfl⟩ | ⟨rfl, rfl⟩ | ⟨rfl, rfl⟩ | ⟨rfl, rfl⟩
    all_goals exact unescape_letter (by decide) (by decide) body
  | null undigited => exact unescape_null undigited
  | byte two digits => exact unescape_byte two digits body
  | unit four digits => exact unescape_unit four digits body
  | codePoint some digits => exact unescape_codePoint some digits body
  | escaped plain =>
    rw [IsSpecial, not_or, Bool.not_eq_true] at plain
    obtain ⟨letter, digit⟩ := plain
    have single : simpleEscape? c = none := by
      unfold simpleEscape?
      grind
    have zero : c ≠ '0' := by
      rintro rfl
      simp at digit
    have rest : c ∉ ['x', 'u', '\n', '\r', '0'] := by grind
    rw [List.cons_append, List.singleton_append, unescape_letter rest digit, single,
      Option.getD_none]

/-! ## Reading a string -/

/-- A spelling does not begin with a line feed, so a carriage return that a line is broken by is not
joined with what is written behind it. -/
theorem Spells.head?_ne_lineFeed {quote : Char} {value body : Text} (h : Spells quote value body) :
    body.head? ≠ some '\n' := by
  cases h with
  | nil => simp
  | continued => simp
  | char piece => cases piece <;> simp_all

/-- A line broken after a backslash adds nothing. -/
theorem unescape_continued {lineBreak body : Text}
    (h : lineBreak ∈ [['\n'], ['\r'], ['\r', '\n']]) (plain : body.head? ≠ some '\n') :
    unescape ('\\' :: lineBreak ++ body) = unescape body := by
  simp only [List.mem_cons, List.not_mem_nil, or_false] at h
  rcases h with rfl | rfl | rfl
  · simp [unescape]
  · rw [List.cons_append, List.singleton_append, unescape]
    rintro rest rfl
    simp at plain
  · simp [unescape]

/-- Whatever spells a value is read as it. -/
theorem unescape_of_spells {quote : Char} {value body : Text} (h : Spells quote value body) :
    unescape body = some value := by
  induction h with
  | nil => simp [unescape]
  | char piece _ ih => rw [piece.unescape_append, ih, Option.map_some]
  | continued lineBreak rest ih => rw [unescape_continued lineBreak rest.head?_ne_lineFeed, ih]

/-! ## JSON quoting -/

theorem hexDigits_control {n : Nat} (small : n < 0x20) :
    HexDigits ['0', '0', Json.hexDigitChar (n / 16), Json.hexDigitChar (n % 16)] n := by
  have zero : IsHexDigit '0' 0 := ⟨by decide, .inl rfl⟩
  have high : IsHexDigit (Json.hexDigitChar (n / 16)) (n / 16) := ⟨by omega, .inl rfl⟩
  have low : IsHexDigit (Json.hexDigitChar (n % 16)) (n % 16) := ⟨by omega, .inl rfl⟩
  have digits := (((HexDigits.nil.snoc zero).snoc zero).snoc high).snoc low
  have number : 16 * (16 * (16 * (16 * 0 + 0) + 0) + n / 16) + n % 16 = n := by omega
  rwa [number] at digits

/-- What is written for a character of a JSON string is one of its spellings. -/
theorem spellsChar_escapeChar (c : Char) (behind : Text) :
    SpellsChar '"' behind c (Json.escapeChar c) := by
  fun_cases Json.escapeChar c
  case case1 => exact .escaped (by simp [IsSpecial])
  case case2 => exact .escaped (by simp [IsSpecial])
  case case8 small _ _ _ _ _ _ _ =>
    rw [if_pos small]
    exact .unit rfl (hexDigits_control small)
  case case9 large quote backslash _ _ lineFeed _ carriageReturn =>
    rw [if_neg large]
    exact .itself backslash quote lineFeed carriageReturn
  all_goals exact .short (by simp [shortEscapes])

/-- A string escaped as in JSON is a spelling of it. -/
theorem spells_escaped (s : Text) : Spells '"' s (s.flatMap Json.escapeChar) := by
  induction s with
  | nil => exact .nil
  | cons c s ih => exact .char (spellsChar_escapeChar c _) ih

/-! ## Literals -/

/-- A literal in quotes of either kind has the value of the text between them. -/
theorem cook_quoted {quote : Char} (h : quote = '"' ∨ quote = '\'') (body : Text) :
    cook (quote :: body ++ [quote]) = unescape body := by
  have quoted : (quote == '"' || quote == '\'') = true := by simpa using h
  simp [cook, quoted]

/-- The value of a quoted literal is the string it spells, between quotes of either kind and for
every choice of spellings. A string in JSON quotes is such a literal. -/
theorem cook_of_spells :
    (∀ (quote : Char) (value body : Text), quote = '"' ∨ quote = '\'' → Spells quote value body →
      cook (quote :: body ++ [quote]) = some value) ∧
    ∀ s : String, cook (Json.quote s).toList = some s.toList := by
  refine ⟨?_, ?_⟩
  · intro quote value body quoted spelled
    rw [cook_quoted quoted, unescape_of_spells spelled]
  · intro s
    rw [Json.quote, String.toList_ofList, Json.quoteText, cook_quoted (.inl rfl),
      unescape_of_spells (spells_escaped s.toList)]

/-- A byte in upper case, a null before a broken line, an escaped quote and a code point with
leading zeros. -/
theorem cook_of_spells_mixed :
    Spells '\'' ['J', '\x00', '\'', 'é'] (['\\', 'x', '4', 'A'] ++ (['\\', '0'] ++
      ('\\' :: ['\r', '\n'] ++ (['\\', '\''] ++
        ('\\' :: 'u' :: '{' :: ['0', '0', 'e', '9'] ++ ['}'] ++ []))))) ∧
    cook ("'\\x4A\\0\\\r\n\\'\\u\x7b00e9\x7d'".toList) = some ['J', '\x00', '\'', 'é'] := by
  have zero : IsHexDigit '0' 0 := ⟨by decide, .inl rfl⟩
  have four : IsHexDigit '4' 4 := ⟨by decide, .inl rfl⟩
  have nine : IsHexDigit '9' 9 := ⟨by decide, .inl rfl⟩
  have ten : IsHexDigit 'A' 10 := ⟨by decide, .inr rfl⟩
  have fourteen : IsHexDigit 'e' 14 := ⟨by decide, .inl rfl⟩
  have upper : HexDigits ['4', 'A'] 'J'.toNat := (HexDigits.nil.snoc four).snoc ten
  have lower : HexDigits ['0', '0', 'e', '9'] 'é'.toNat :=
    (((HexDigits.nil.snoc zero).snoc zero).snoc fourteen).snoc nine
  have quote : Spells '\'' ['\'', 'é'] (['\\', '\''] ++ (_ ++ [])) :=
    .char (.escaped (by simp [IsSpecial])) (.char (.codePoint (by simp) lower) .nil)
  have broken : Spells '\'' ['\'', 'é'] ('\\' :: ['\r', '\n'] ++ _) :=
    .continued (by simp) quote
  have spelled := Spells.char (.byte rfl upper) (.char (.null (by simp)) broken)
  exact ⟨spelled, cook_of_spells.1 _ _ _ (.inr rfl) spelled⟩

end SolidityInlay.StringLiteral
