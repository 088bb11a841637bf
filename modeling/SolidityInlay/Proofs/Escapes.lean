import Mathlib.Data.List.Induction
import SolidityInlay.Proofs.StringGrammar

/-!
# Escapes that are read

The reader of string literals keeps to the grammar except in a few places: it takes a plus sign
among hexadecimal digits, a code point whose closing brace is missing at the end, and an escaped
line or paragraph separator as the separator. These lapses are described exactly: between quotes
that delimit it, a text is read as what the grammar and the lapses make of it.

Main definitions: `StringLiteral.isDelimited`, `StringLiteral.Lapse`, `StringLiteral.Taken`. Main
statements: `StringLiteral.unescape_eq_some_iff`, `StringLiteral.cook_regular_or_lapse`.
-/

namespace SolidityInlay.StringLiteral

/-! ## What the reader takes -/

/-- No quote and no line break stands in a text but after a backslash. -/
def isDelimited (quote : Char) : Text → Bool
  | [] => true
  | '\\' :: '\r' :: '\n' :: rest => isDelimited quote rest
  | '\\' :: _ :: rest => isDelimited quote rest
  | c :: rest => c != quote && c != '\n' && c != '\r' && isDelimited quote rest

def signs : List Text := [[], ['+']]

/-- What is taken for a character after a backslash against the grammar. -/
inductive Lapse : Text → Text → Char → Prop
  | signedByte {behind digits : Text} {c : Char} : digits.length = 1 → HexDigits digits c.toNat →
      Lapse behind ('x' :: '+' :: digits) c
  | signedUnit {behind digits : Text} {c : Char} : digits.length = 3 → HexDigits digits c.toNat →
      Lapse behind ('u' :: '+' :: digits) c
  | signedCodePoint {behind digits : Text} {c : Char} : digits ≠ [] → HexDigits digits c.toNat →
      Lapse behind ('u' :: '{' :: '+' :: digits ++ ['}']) c
  | unclosed {sign digits : Text} {c : Char} : sign ∈ signs → digits ≠ [] →
      HexDigits digits c.toNat → Lapse [] ('u' :: '{' :: sign ++ digits) c
  | separator {behind : Text} {c : Char} : c ∈ separators → Lapse behind [c] c

/-- What the reader takes after a backslash: the escapes of the grammar that stand for characters,
other than separators, and the lapses. -/
inductive Taken (behind : Text) : Text → List Nat → Prop
  | regular {e s : Text} : Escape behind e (units s) → (∀ c ∈ separators, e ≠ [c]) →
      Taken behind e (units s)
  | lapse {e : Text} {c : Char} : Lapse behind e c → Taken behind e (units [c])

/-- After a grammatical beginning the text between the quotes has a lapse. -/
def HasLapse (quote : Char) (body : Text) : Prop :=
  ∃ front e behind c, body = front ++ '\\' :: (e ++ behind) ∧ WellFormed quote front ∧
    Lapse behind e c

/-! ## Digits that are read -/

/-- Digits that are read make up the number that their values fold to. -/
theorem hexDigits_of_mapM {digits : Text} {values : List Nat}
    (h : digits.mapM hexDigit? = some values) :
    HexDigits digits (values.foldl (fun n d => 16 * n + d) 0) := by
  induction digits using List.reverseRecOn generalizing values with
  | nil =>
    obtain rfl : values = [] := by simpa using h.symm
    exact .nil
  | append_singleton digits d ih =>
    rw [List.mapM_append] at h
    obtain ⟨front, read, h⟩ := Option.bind_eq_some_iff.1 h
    obtain ⟨v, digit, rfl⟩ : ∃ v, hexDigit? d = some v ∧ front ++ [v] = values := by
      simpa [Option.bind_eq_some_iff] using h
    rw [List.foldl_append]
    exact (ih read).snoc (isHexDigit_of_hexDigit? digit)

theorem toNat_of_charOf? {n : Nat} {c : Char} (h : charOf? n = some c) : c.toNat = n := by
  unfold charOf? at h
  split_ifs at h with valid
  have char : Char.ofNat n = Char.ofNatAux n valid := dif_pos valid
  rw [← Option.some.inj h, char]
  rfl

/-- What is read as a character is its code point, perhaps after a plus sign. -/
theorem exists_of_hexChar? {text : Text} {c : Char} (h : hexChar? text = some c) :
    ∃ sign digits, sign ∈ signs ∧ text = sign ++ digits ∧ digits ≠ [] ∧
      HexDigits digits c.toNat := by
  obtain ⟨n, number, char⟩ := Option.bind_eq_some_iff.1 h
  unfold hexNumber? at number
  extract_lets digits at number
  obtain ⟨sign, hsign, split⟩ : ∃ sign ∈ signs, text = sign ++ digits := by
    unfold digits
    split
    · exact ⟨['+'], by simp [signs], rfl⟩
    · exact ⟨[], by simp [signs], rfl⟩
  split_ifs at number with empty
  obtain ⟨values, read, number⟩ := Option.bind_eq_some_iff.1 number
  extract_lets m at number
  split_ifs at number
  refine ⟨sign, digits, hsign, split, by simpa using empty, ?_⟩
  rw [toNat_of_charOf? char, ← Option.some.inj number]
  exact hexDigits_of_mapM read

/-! ## One step of the reader -/

/-- The digits of a byte or a unit are those of the grammar, or one less after a plus sign. -/
theorem hexDigits_or_signed {text : Text} {c : Char} (h : hexChar? text = some c) :
    HexDigits text c.toNat ∨ ∃ digits, text = '+' :: digits ∧ HexDigits digits c.toNat := by
  obtain ⟨sign, digits, hsign, rfl, -, number⟩ := exists_of_hexChar? h
  rcases List.mem_pair.1 hsign with rfl | rfl
  · exact .inl number
  · exact .inr ⟨digits, rfl, number⟩

/-- At most four digits spell a character of one unit. -/
theorem HexDigits.units_eq {digits : Text} {c : Char} (h : HexDigits digits c.toNat)
    (size : digits.length ≤ 4) : units [c] = [c.toNat] := by
  have bound : c.toNat < 16 ^ 4 :=
    Nat.lt_of_lt_of_le h.lt_pow (Nat.pow_le_pow_right (by decide) size)
  rw [units_singleton, unitsOf_of_lt bound]

/-- Whatever two characters the reader turns into a byte are an escape or a lapse. -/
theorem taken_byte {a b c : Char} (behind : Text) (h : hexChar? [a, b] = some c) :
    Taken behind ['x', a, b] (units [c]) := by
  rcases hexDigits_or_signed h with number | ⟨digits, text, number⟩
  · refine .regular ?_ (by simp)
    rw [number.units_eq (by simp)]
    exact .byte rfl number
  · obtain ⟨rfl, rfl⟩ := List.cons.inj text
    exact .lapse (.signedByte rfl number)

theorem taken_unit {a b c d e : Char} (behind : Text) (h : hexChar? [a, b, c, d] = some e) :
    Taken behind ['u', a, b, c, d] (units [e]) := by
  rcases hexDigits_or_signed h with number | ⟨digits, text, number⟩
  · refine .regular ?_ (by simp)
    rw [number.units_eq (by simp)]
    exact .unit rfl number
  · obtain ⟨rfl, rfl⟩ := List.cons.inj text
    exact .lapse (.signedUnit rfl number)

theorem taken_codePoint {text : Text} {c : Char} (behind : Text) (h : hexChar? text = some c) :
    Taken behind ('u' :: '{' :: text ++ ['}']) (units [c]) := by
  obtain ⟨sign, digits, hsign, rfl, some, number⟩ := exists_of_hexChar? h
  rcases List.mem_pair.1 hsign with rfl | rfl
  · refine .regular ?_ (by simp)
    rw [units_singleton]
    exact .codePoint some number (toNat_le_lastCodePoint c)
  · exact .lapse (.signedCodePoint some number)

/-- Digits whose brace is not closed before the end are a lapse. -/
theorem taken_unclosed {text : Text} {c : Char} (h : hexChar? text = some c) :
    Taken [] ('u' :: '{' :: text) (units [c]) := by
  obtain ⟨sign, digits, hsign, rfl, some, number⟩ := exists_of_hexChar? h
  exact .lapse (.unclosed hsign some number)

/-- Any other character after a backslash stands for its short escape or for itself. -/
theorem taken_letter {c : Char} (behind : Text) (h : c ∉ ['x', 'u', '\n', '\r', '0'])
    (digit : c.isDigit = false) : Taken behind [c] (units [(simpleEscape? c).getD c]) := by
  by_cases separator : c ∈ separators
  · have single : simpleEscape? c = none := by
      rcases List.mem_pair.1 separator with rfl | rfl <;> rfl
    rw [single]
    exact .lapse (.separator separator)
  · refine .regular ?_ fun d hd eq => separator (List.singleton_inj.1 eq ▸ hd)
    rw [units_singleton]
    cases short : simpleEscape? c with
    | some d =>
      have listed : (c, d) ∈ shortEscapes ∧ d.toNat < 0x10000 := by
        unfold simpleEscape? at short
        split at short <;> cases short <;> decide
      rw [Option.getD_some, unitsOf_of_lt listed.2]
      exact .short listed.1
    | none =>
      have plain : ¬ IsSpecial c := by
        unfold IsSpecial
        unfold simpleEscape? at short
        grind
      exact .identity plain separator

/-- Digits are read up to the closing brace or the end. -/
theorem exists_of_unescapeBraced {seen cs s : Text} (h : unescapeBraced seen cs = some s) :
    ∃ digits behind c value, hexChar? (seen.reverse ++ digits) = some c ∧
      (cs = digits ++ '}' :: behind ∨ cs = digits ∧ behind = []) ∧
      unescape behind = some value ∧ s = c :: value := by
  induction cs generalizing seen with
  | nil =>
    rw [unescapeBraced] at h
    obtain ⟨c, read, rfl⟩ := Option.map_eq_some_iff.1 h
    exact ⟨[], [], c, [], by simpa using read, .inr ⟨rfl, rfl⟩, by simp [unescape], rfl⟩
  | cons d cs ih =>
    by_cases brace : d = '}'
    · subst brace
      rw [unescapeBraced] at h
      obtain ⟨c, read, h⟩ := Option.bind_eq_some_iff.1 h
      obtain ⟨value, rest, rfl⟩ := Option.map_eq_some_iff.1 h
      exact ⟨[], cs, c, value, by simpa using read, .inl rfl, rest, rfl⟩
    · rw [unescapeBraced] at h
      · obtain ⟨digits, behind, c, value, read, split, rest, rfl⟩ := ih h
        refine ⟨d :: digits, behind, c, value, by simpa using read, ?_, rest, rfl⟩
        rcases split with rfl | ⟨rfl, rfl⟩
        · exact .inl rfl
        · exact .inr ⟨rfl, rfl⟩
      · exact brace

/-- What is read after a backslash is something taken, and then what is behind it. -/
theorem exists_taken_of_unescape {rest s : Text} (h : unescape ('\\' :: rest) = some s) :
    ∃ e behind front value, rest = e ++ behind ∧ Taken behind e (units front) ∧
      unescape behind = some value ∧ s = front ++ value := by
  generalize eq : '\\' :: rest = body at h
  unfold unescape at h
  split at h <;> cases eq
  case h_2 a b behind =>
    obtain ⟨c, read, h⟩ := Option.bind_eq_some_iff.1 h
    obtain ⟨value, rest, rfl⟩ := Option.map_eq_some_iff.1 h
    exact ⟨['x', a, b], behind, [c], value, rfl, taken_byte behind read, rest, rfl⟩
  case h_3 => cases h
  case h_4 cs =>
    obtain ⟨digits, behind, c, value, read, rfl | ⟨rfl, rfl⟩, rest, rfl⟩ :=
      exists_of_unescapeBraced h
    · exact ⟨_, behind, [c], value, by simp, taken_codePoint behind read, rest, rfl⟩
    · exact ⟨_, [], [c], value, by simp, taken_unclosed read, rest, rfl⟩
  case h_5 a b c d behind _ =>
    obtain ⟨e, read, h⟩ := Option.bind_eq_some_iff.1 h
    obtain ⟨value, rest, rfl⟩ := Option.map_eq_some_iff.1 h
    exact ⟨['u', a, b, c, d], behind, [e], value, rfl, taken_unit behind read, rest, rfl⟩
  case h_6 => cases h
  case h_7 behind =>
    have taken : Taken behind ['\n'] (units []) :=
      .regular (.continuation (.inl rfl) (by simp)) (by simp [separators])
    exact ⟨['\n'], behind, [], s, rfl, taken, h, rfl⟩
  case h_8 behind =>
    exact ⟨['\r', '\n'], behind, [], s, rfl, .regular .continuationPair (by simp), h, rfl⟩
  case h_9 behind alone =>
    have unfed : behind.head? ≠ some '\n' := by
      intro front
      exact alone _ (List.eq_cons_of_mem_head? front)
    have taken : Taken behind ['\r'] (units []) :=
      .regular (.continuation (.inr (.inl rfl)) fun _ => unfed) (by simp [separators])
    exact ⟨['\r'], behind, [], s, rfl, taken, h, rfl⟩
  case h_10 behind =>
    split_ifs at h with undigited
    obtain ⟨value, rest, rfl⟩ := Option.map_eq_some_iff.1 h
    have taken : Taken behind ['0'] (units ['\x00']) :=
      .regular (.null (by simpa [Option.any_eq_false] using undigited)) (by simp [separators])
    exact ⟨['0'], behind, ['\x00'], value, rfl, taken, rest, rfl⟩
  case h_11 c behind _ x _ _ u lineFeed _ carriageReturn zero =>
    split_ifs at h with digit
    obtain ⟨value, rest, rfl⟩ := Option.map_eq_some_iff.1 h
    have letter : c ∉ ['x', 'u', '\n', '\r', '0'] := by
      simpa using ⟨x, u, lineFeed, carriageReturn, zero⟩
    exact ⟨[c], behind, _, value, rfl, taken_letter behind letter (by simpa using digit), rest, rfl⟩
  case h_12 => cases h
  case h_13 letter alone =>
    cases rest with
    | nil => exact (alone rfl rfl).elim
    | cons c rest => exact (letter c rest rfl rfl).elim

/-! ## What is taken is read -/

/-- A sign in front of digits does not keep them from being read. -/
theorem HexDigits.hexChar?_signed {sign digits : Text} {c : Char} (h : HexDigits digits c.toNat)
    (some : digits ≠ []) (signed : sign ∈ signs) : hexChar? (sign ++ digits) = .some c := by
  have unsigned := h.hexChar?_eq some
  rcases List.mem_pair.1 signed with rfl | rfl
  · exact unsigned
  · have same : hexNumber? ('+' :: digits) = hexNumber? digits := by
      cases digits with
      | nil => exact absurd rfl some
      | cons d digits =>
        have plain : d ≠ '+' := by
          rintro rfl
          exact h.not_mem (by decide) List.mem_cons_self
        simp [hexNumber?, plain]
    rw [← unsigned, hexChar?, hexChar?, ← same]
    rfl

theorem unescape_braced {text : Text} {c : Char} (unbraced : '}' ∉ text)
    (h : hexChar? text = some c) (behind : Text) :
    unescape ('\\' :: 'u' :: '{' :: text ++ '}' :: behind) = (unescape behind).map (c :: ·) := by
  rw [List.cons_append, List.cons_append, List.cons_append, unescape,
    unescapeBraced_append unbraced]
  simp [unescapeBraced, h]

/-- The end of the text closes a brace. -/
theorem unescape_unclosed {text : Text} {c : Char} (unbraced : '}' ∉ text)
    (h : hexChar? text = some c) : unescape ('\\' :: 'u' :: '{' :: text) = some [c] := by
  have read := unescapeBraced_append unbraced [] []
  rw [List.append_nil] at read
  rw [unescape, read]
  simp [unescapeBraced, h]

/-- The reader accepts every lapse. -/
theorem Lapse.unescape_append {behind e : Text} {c : Char} (h : Lapse behind e c) :
    unescape ('\\' :: (e ++ behind)) = (unescape behind).map (c :: ·) := by
  have plus : ['+'] ∈ signs := by simp [signs]
  cases h with
  | @signedByte _ digits _ one number =>
    obtain ⟨d, rfl⟩ := List.length_eq_one_iff.1 one
    have read : hexChar? ['+', d] = some c := number.hexChar?_signed (by simp) plus
    simp [unescape, read]
  | @signedUnit _ digits _ three number =>
    obtain ⟨x, y, z, rfl⟩ := List.length_eq_three.1 three
    have read : hexChar? ['+', x, y, z] = some c := number.hexChar?_signed (by simp) plus
    simp [unescape, read]
  | @signedCodePoint _ digits _ some number =>
    have unbraced : '}' ∉ '+' :: digits := by
      simpa using number.not_mem (c := '}') (by decide)
    simpa using unescape_braced unbraced (number.hexChar?_signed some plus) behind
  | @unclosed sign digits _ signed some number =>
    have unbraced : '}' ∉ sign ++ digits := by
      have rest := number.not_mem (c := '}') (by decide)
      rcases List.mem_pair.1 signed with rfl | rfl <;> simpa using rest
    simpa [unescape] using unescape_unclosed unbraced (number.hexChar?_signed some signed)
  | separator mem =>
    rcases List.mem_pair.1 mem with rfl | rfl
    all_goals exact unescape_letter (by decide) (by decide) behind

/-- An escape that stands for a character is one of its spellings, and any other breaks a line. -/
theorem Escape.spells {behind e s : Text} (h : Escape behind e (units s))
    (plain : ∀ c ∈ separators, e ≠ [c]) :
    (∃ c, s = [c] ∧ SpellsChar '"' behind c ('\\' :: e)) ∨
      s = [] ∧ unescape ('\\' :: (e ++ behind)) = unescape behind := by
  generalize value : units s = v at h
  cases h with
  | @short e c mem =>
    have small : ∀ p ∈ shortEscapes, p.2.toNat < 0x10000 := by decide
    obtain ⟨d, rfl, same⟩ := exists_char_of_unit (small _ mem) value
    obtain rfl := Char.toNat_inj.1 same
    exact .inl ⟨_, rfl, .short mem⟩
  | @identity c special _ =>
    obtain ⟨d, rfl, same⟩ := exists_char_of_units (toNat_le_lastCodePoint c) value
    obtain rfl := Char.toNat_inj.1 same
    exact .inl ⟨_, rfl, .escaped special⟩
  | null undigited =>
    obtain rfl : s = ['\x00'] := units_injective value
    exact .inl ⟨_, rfl, .null undigited⟩
  | @byte digits n two number =>
    have small : n < 16 ^ 2 := two ▸ number.lt_pow
    obtain ⟨c, rfl, rfl⟩ := exists_char_of_unit (by omega) value
    exact .inl ⟨_, rfl, .byte two number⟩
  | @unit digits n four number =>
    have small : n < 16 ^ 4 := four ▸ number.lt_pow
    obtain ⟨c, rfl, rfl⟩ := exists_char_of_unit small value
    exact .inl ⟨_, rfl, .unit four number⟩
  | codePoint some number bound =>
    obtain ⟨c, rfl, rfl⟩ := exists_char_of_units bound value
    exact .inl ⟨_, rfl, .codePoint some number⟩
  | continuation lineBreak alone =>
    obtain rfl : s = [] := units_injective value
    refine .inr ⟨rfl, ?_⟩
    rcases lineBreak with rfl | rfl | separator
    · simp [unescape]
    · rw [List.singleton_append, unescape]
      rintro rest rfl
      exact alone rfl rfl
    · exact absurd rfl (plain _ separator)
  | continuationPair => exact .inr ⟨units_injective value, by simp [unescape]⟩

/-- The reader follows the grammar at every escape that is no separator. -/
theorem Escape.unescape_append {behind e s : Text} (h : Escape behind e (units s))
    (plain : ∀ c ∈ separators, e ≠ [c]) :
    unescape ('\\' :: (e ++ behind)) = (unescape behind).map (s ++ ·) := by
  rcases h.spells plain with ⟨c, rfl, spelled⟩ | ⟨rfl, read⟩
  · exact spelled.unescape_append
  · rw [read]
    simp

/-- A text made of what the reader takes is read as the characters it stands for. -/
theorem exists_of_body_taken {quote : Char} {body : Text} {value : List Nat}
    (h : Body Taken quote body value) : ∃ s, value = units s ∧ unescape body = some s := by
  induction h with
  | nil => exact ⟨[], rfl, by simp [unescape]⟩
  | @char c _ _ backslash _ _ _ _ ih =>
    obtain ⟨s, rfl, read⟩ := ih
    exact ⟨c :: s, rfl, by rw [unescape_itself backslash, read, Option.map_some]⟩
  | escape taken _ ih =>
    obtain ⟨s, rfl, read⟩ := ih
    rcases taken with ⟨escape, plain⟩ | lapse
    · refine ⟨_ ++ s, (units_append _ s).symm, ?_⟩
      rw [escape.unescape_append plain, read, Option.map_some]
    · refine ⟨[_] ++ s, (units_append _ s).symm, ?_⟩
      rw [lapse.unescape_append, read, Option.map_some]
      rfl

/-! ## Whole bodies -/

theorem isDelimited_escape {quote c : Char} {rest : Text}
    (alone : c = '\r' → rest.head? ≠ some '\n') :
    isDelimited quote ('\\' :: c :: rest) = isDelimited quote rest := by
  rw [isDelimited]
  rintro more rfl rfl
  exact alone rfl rfl

theorem isDelimited_cons {quote c : Char} {rest : Text} (backslash : c ≠ '\\') :
    isDelimited quote (c :: rest) = true ↔
      c ≠ quote ∧ c ≠ '\n' ∧ c ≠ '\r' ∧ isDelimited quote rest = true := by
  rw [isDelimited]
  · simp [and_assoc]
  all_goals
    intros
    contradiction

theorem isDelimited_of_append {quote : Char} {front behind : Text} (plain : '\\' ∉ front)
    (h : isDelimited quote (front ++ behind) = true) : isDelimited quote behind = true := by
  induction front with
  | nil => exact h
  | cons c front ih =>
    rw [List.mem_cons, not_or] at plain
    exact ih plain.2 ((isDelimited_cons (Ne.symm plain.1)).1 h).2.2.2

/-- After the character behind the backslash there is no other backslash in what is taken, and a
carriage return does not part from a line feed. -/
theorem Taken.shape {behind e : Text} {v : List Nat} (h : Taken behind e v) :
    e = ['\r', '\n'] ∨ ∃ c tail, e = c :: tail ∧ '\\' ∉ tail ∧
      (c = '\r' → (tail ++ behind).head? ≠ some '\n') := by
  have backslash : hexDigit? '\\' = none := by decide
  rcases h with ⟨escape, _⟩ | lapse
  · generalize units _ = v at escape
    cases escape with
    | @short e c mem =>
      have letters : ∀ p ∈ shortEscapes, p.1 ≠ '\r' := by decide
      exact .inr ⟨e, [], rfl, by simp, fun eq => absurd eq (letters _ mem)⟩
    | @identity c special _ =>
      exact .inr ⟨c, [], rfl, by simp, fun eq => absurd (eq ▸ by simp [IsSpecial]) special⟩
    | null _ => exact .inr ⟨'0', [], rfl, by simp, by simp⟩
    | byte _ number => exact .inr ⟨'x', _, rfl, number.not_mem backslash, by simp⟩
    | unit _ number => exact .inr ⟨'u', _, rfl, number.not_mem backslash, by simp⟩
    | codePoint _ number _ =>
      exact .inr ⟨'u', _, rfl, by simpa using number.not_mem backslash, by simp⟩
    | @continuation c _ alone => exact .inr ⟨c, [], rfl, by simp, alone⟩
    | continuationPair => exact .inl rfl
  · right
    cases lapse with
    | signedByte _ number => exact ⟨'x', _, rfl, by simpa using number.not_mem backslash, by simp⟩
    | signedUnit _ number => exact ⟨'u', _, rfl, by simpa using number.not_mem backslash, by simp⟩
    | signedCodePoint _ number =>
      exact ⟨'u', _, rfl, by simpa using number.not_mem backslash, by simp⟩
    | unclosed signed _ number =>
      refine ⟨'u', _, rfl, ?_, by simp⟩
      rcases List.mem_pair.1 signed with rfl | rfl <;> simpa using number.not_mem backslash
    | separator mem =>
      have separators : ∀ c ∈ separators, c ≠ '\r' := by simp [separators]
      exact ⟨_, [], rfl, by simp, fun eq => absurd eq (separators _ mem)⟩

/-- Taking an escape off leaves a delimited text. -/
theorem Taken.isDelimited_behind {quote : Char} {behind e : Text} {v : List Nat}
    (h : Taken behind e v) (delimited : isDelimited quote ('\\' :: (e ++ behind)) = true) :
    isDelimited quote behind = true := by
  rcases h.shape with rfl | ⟨c, tail, rfl, plain, alone⟩
  · simpa [isDelimited] using delimited
  · rw [List.cons_append, isDelimited_escape alone] at delimited
    exact isDelimited_of_append plain delimited

/-- A delimited text that can be read is made of what the reader takes. -/
theorem body_taken_of_unescape {quote : Char} {body s : Text}
    (delimited : isDelimited quote body = true) (h : unescape body = some s) :
    Body Taken quote body (units s) := by
  -- what is taken is shorter than the body, but no part of it that the list shows
  induction size : body.length using Nat.strongRecOn generalizing body s with
  | ind n ih =>
    subst size
    cases body with
    | nil =>
      obtain rfl : s = [] := by simpa [unescape, eq_comm] using h
      exact .nil
    | cons c rest =>
      by_cases backslash : c = '\\'
      · subst backslash
        obtain ⟨e, behind, front, value, rfl, taken, read, rfl⟩ := exists_taken_of_unescape h
        have shorter : behind.length < ('\\' :: (e ++ behind)).length := by
          simp only [List.length_cons, List.length_append]
          omega
        rw [units_append]
        exact .escape taken (ih _ shorter (taken.isDelimited_behind delimited) read rfl)
      · rw [unescape_itself backslash] at h
        obtain ⟨value, read, rfl⟩ := Option.map_eq_some_iff.1 h
        obtain ⟨quoted, lineFeed, carriageReturn, inner⟩ := (isDelimited_cons backslash).1 delimited
        exact .char backslash quoted lineFeed carriageReturn (ih _ (by simp) inner read rfl)

/-- The reader reads exactly the texts made of what it takes. -/
theorem unescape_eq_some_iff {quote : Char} {body : Text}
    (delimited : isDelimited quote body = true) (s : Text) :
    unescape body = some s ↔ Body Taken quote body (units s) := by
  constructor
  · exact body_taken_of_unescape delimited
  · intro h
    obtain ⟨t, same, read⟩ := exists_of_body_taken h
    rw [read, units_injective same]

/-! ## The first lapse -/

/-- An escape needs to know no more than what comes next. -/
theorem Escape.of_append {front behind e : Text} {v : List Nat} (h : Escape (front ++ behind) e v) :
    Escape front e v := by
  have next (d : Char) (h : d ∈ front.head?) : d ∈ (front ++ behind).head? := by
    rw [List.head?_append, Option.mem_def, h, Option.some_or]
  cases h with
  | short mem => exact .short mem
  | identity special separator => exact .identity special separator
  | null undigited => exact .null fun d hd => undigited d (next d hd)
  | byte two number => exact .byte two number
  | unit four number => exact .unit four number
  | codePoint some number bound => exact .codePoint some number bound
  | continuation lineBreak alone =>
    exact .continuation lineBreak fun eq feed => alone eq (next _ feed)
  | continuationPair => exact .continuationPair

/-- A text that is read is grammatical or has a lapse, at the first place where it is not. -/
theorem Body.regular_or_lapse {quote : Char} {body : Text} {value : List Nat}
    (h : Body Taken quote body value) :
    Body Escape quote body value ∨ HasLapse quote body := by
  induction h with
  | nil => exact .inl .nil
  | @char c body value backslash quoted lineFeed carriageReturn _ ih =>
    rcases ih with regular | ⟨front, e, behind, d, rfl, ⟨v, wellFormed⟩, lapse⟩
    · exact .inl (.char backslash quoted lineFeed carriageReturn regular)
    · exact .inr ⟨c :: front, e, behind, d, rfl,
        ⟨_, .char backslash quoted lineFeed carriageReturn wellFormed⟩, lapse⟩
  | @escape e body v value taken _ ih =>
    rcases taken with ⟨escape, _⟩ | lapse
    · rcases ih with regular | ⟨front, e', behind, d, rfl, ⟨w, wellFormed⟩, lapse⟩
      · exact .inl (.escape escape regular)
      · exact .inr ⟨'\\' :: (e ++ front), e', behind, d, by simp,
          ⟨_, .escape escape.of_append wellFormed⟩, lapse⟩
    · exact .inr ⟨[], e, body, _, rfl, ⟨[], .nil⟩, lapse⟩

/-! ## Literals -/

/-- Every lapse but that of a separator is against the grammar. -/
theorem Lapse.not_wellFormed {behind e : Text} {c : Char} (h : Lapse behind e c) (long : e ≠ [c])
    (quote : Char) : ¬ WellFormed quote ('\\' :: (e ++ behind)) := by
  intro wellFormed
  obtain ⟨e', b, v, same, escape⟩ := wellFormed.exists_escape
  obtain ⟨d, tail, rfl, announced⟩ := escape.announces
  have brace : hexDigit? '{' = none := by decide
  have plus : hexDigit? '+' = none := by decide
  cases h with
  | signedByte _ _ =>
    obtain ⟨rfl, rest⟩ := List.cons.inj same
    obtain ⟨two, n, number, -⟩ : tail.length = 2 ∧ _ := announced
    exact number.append_ne_cons (by grind) plus rest.symm
  | signedUnit _ _ =>
    obtain ⟨rfl, rest⟩ := List.cons.inj same
    obtain ⟨four, n, number, -⟩ | ⟨digits, n, rfl, -⟩ : (tail.length = 4 ∧ _) ∨ _ := announced
    · exact number.append_ne_cons (by grind) plus rest.symm
    · cases rest
  | @signedCodePoint _ digits _ _ _ =>
    obtain ⟨rfl, rest⟩ := List.cons.inj same
    obtain ⟨four, n, number, -⟩ | ⟨digits', n, rfl, number, -⟩ :
      (tail.length = 4 ∧ _) ∨ _ := announced
    · exact number.append_ne_cons (by grind) brace rest.symm
    · have inner : '+' :: (digits ++ '}' :: behind) = digits' ++ '}' :: b := by simpa using same
      cases digits' with
      | nil => cases inner
      | cons d digits' => exact number.append_ne_cons (by simp) plus inner.symm
  | @unclosed sign digits _ signed _ number =>
    obtain ⟨rfl, rest⟩ := List.cons.inj same
    obtain ⟨four, n, number, -⟩ | ⟨digits', n, rfl, -⟩ : (tail.length = 4 ∧ _) ∨ _ := announced
    · exact number.append_ne_cons (by grind) brace rest.symm
    · -- there is no brace among the digits to close them with
      have closed : '}' ∈ '{' :: (sign ++ digits) ++ [] := by
        rw [show '{' :: (sign ++ digits) ++ [] = _ from rest]
        simp
      have unbraced := number.not_mem (c := '}') (by decide)
      rcases List.mem_pair.1 signed with rfl | rfl <;> simp [unbraced] at closed
  | separator _ => exact long rfl

/-- A delimited literal is read as what the reader takes, no more and no less. Without a lapse that
is the one value the grammar gives it, and a literal that the grammar gives none has none. -/
theorem cook_regular_or_lapse {quote : Char} {body : Text} (quoted : quote = '"' ∨ quote = '\'')
    (delimited : isDelimited quote body = true) :
    (∀ s, cook (quote :: body ++ [quote]) = some s ↔ Body Taken quote body (units s)) ∧
    (∀ s, cook (quote :: body ++ [quote]) = some s →
      (Body Escape quote body (units s) ∧ ∀ v, Body Escape quote body v → v = units s) ∨
        HasLapse quote body) ∧
    (¬ WellFormed quote body → ¬ HasLapse quote body →
      cook (quote :: body ++ [quote]) = none) := by
  have reads (s : Text) := unescape_eq_some_iff delimited s
  rw [cook_quoted quoted]
  refine ⟨reads, ?_, ?_⟩
  · intro s read
    rcases ((reads s).1 read).regular_or_lapse with regular | lapse
    · exact .inl ⟨regular, fun v other => other.unique regular⟩
    · exact .inr lapse
  · intro malformed regular
    rw [Option.eq_none_iff_forall_ne_some]
    intro s read
    rcases ((reads s).1 read).regular_or_lapse with value | lapse
    · exact malformed ⟨_, value⟩
    · exact regular lapse

/-- A continued line, an escape of the grammar and a code point that is left open. -/
theorem cook_regular_or_lapse_mixed :
    isDelimited '"' "\\\r\n\\x41\\u\x7b42".toList = true ∧
    Body Taken '"' "\\\r\n\\x41\\u\x7b42".toList [0x41, 0x42] := by
  have delimited : isDelimited '"' "\\\r\n\\x41\\u\x7b42".toList = true := by decide
  have read : cook ('"' :: "\\\r\n\\x41\\u\x7b42".toList ++ ['"']) = some ['A', 'B'] := by decide
  exact ⟨delimited, ((cook_regular_or_lapse (.inl rfl) delimited).1 _).1 read⟩

/-- Literals with a value that the grammar does not give them. -/
theorem cook_lapses :
    (cook "\"\\x+1\"".toList = some ['\x01'] ∧ ¬ WellFormed '"' "\\x+1".toList) ∧
    (cook "\"\\u+041\"".toList = some ['A'] ∧ ¬ WellFormed '"' "\\u+041".toList) ∧
    (cook "\"\\u\x7b+41\x7d\"".toList = some ['A'] ∧ ¬ WellFormed '"' "\\u\x7b+41\x7d".toList) ∧
    (cook "\"\\u\x7b41\"".toList = some ['A'] ∧ ¬ WellFormed '"' "\\u\x7b41".toList) ∧
    cook "\"\\\u2028\"".toList = some ['\u2028'] ∧ Body Escape '"' "\\\u2028".toList [] := by
  have zero : IsHexDigit '0' 0 := by decide
  have one : IsHexDigit '1' 1 := by decide
  have four : IsHexDigit '4' 4 := by decide
  have letter : HexDigits ['4', '1'] 'A'.toNat := (HexDigits.nil.snoc four).snoc one
  have padded : HexDigits ['0', '4', '1'] 'A'.toNat :=
    ((HexDigits.nil.snoc zero).snoc four).snoc one
  have control : HexDigits ['1'] '\x01'.toNat := HexDigits.nil.snoc one
  have byte : Lapse [] ['x', '+', '1'] '\x01' := .signedByte rfl control
  have unit : Lapse [] ['u', '+', '0', '4', '1'] 'A' := .signedUnit rfl padded
  have codePoint : Lapse [] ['u', '{', '+', '4', '1', '}'] 'A' := .signedCodePoint (by simp) letter
  have unclosed : Lapse [] ['u', '{', '4', '1'] 'A' :=
    @Lapse.unclosed [] _ _ (by simp [signs]) (by simp) letter
  have separator : Escape [] ['\u2028'] [] :=
    .continuation (.inr (.inr (by simp [separators]))) (by simp)
  exact ⟨⟨by decide, byte.not_wellFormed (by simp) _⟩, ⟨by decide, unit.not_wellFormed (by simp) _⟩,
    ⟨by decide, codePoint.not_wellFormed (by simp) _⟩,
    ⟨by decide, unclosed.not_wellFormed (by simp) _⟩, by decide, .escape separator .nil⟩

end SolidityInlay.StringLiteral
