import SolidityInlay.Proofs.Spelling

/-!
# The grammar of string literals

What stands between the quotes of a string literal in strict code is made of plain characters and of
escapes, and stands for units of UTF-16. Two halves of a surrogate pair may be written as two units,
and one half alone as well. The grammar is unambiguous: a text has one value at most.

Main definitions: `StringLiteral.Escape`, `StringLiteral.Body`, `StringLiteral.WellFormed`. Main
statement: `StringLiteral.Body.unique`.
-/

namespace SolidityInlay.StringLiteral

/-! ## Units -/

def unitsOf (n : Nat) : List Nat :=
  if n < 0x10000 then [n] else [0xD800 + (n - 0x10000) / 0x400, 0xDC00 + (n - 0x10000) % 0x400]

def units (s : Text) : List Nat := s.flatMap fun c => unitsOf c.toNat

theorem unitsOf_of_lt {n : Nat} (h : n < 0x10000) : unitsOf n = [n] := if_pos h

theorem units_singleton (c : Char) : units [c] = unitsOf c.toNat := by
  simp [units]

theorem units_append (s t : Text) : units (s ++ t) = units s ++ units t := by
  simp [units]

theorem units_cons_ne_nil (c : Char) (s : Text) : units (c :: s) ≠ [] := by
  simp only [units, List.flatMap_cons, unitsOf]
  split <;> simp

/-- The units of a character end where it does. -/
theorem unitsOf_append_inj {c d : Char} {v w : List Nat}
    (h : unitsOf c.toNat ++ v = unitsOf d.toNat ++ w) : c = d ∧ v = w := by
  have first : c.toNat < 0xD800 ∨ (0xDFFF < c.toNat ∧ c.toNat < 0x110000) := c.valid
  have second : d.toNat < 0xD800 ∨ (0xDFFF < d.toNat ∧ d.toNat < 0x110000) := d.valid
  unfold unitsOf at h
  split_ifs at h
  all_goals
    simp only [List.cons_append, List.nil_append, List.cons.injEq] at h
    exact ⟨Char.toNat_inj.1 (by omega), by grind⟩

theorem units_injective {s t : Text} (h : units s = units t) : s = t := by
  induction s generalizing t with
  | nil =>
    cases t with
    | nil => rfl
    | cons d t => exact absurd h.symm (units_cons_ne_nil d t)
  | cons c s ih =>
    cases t with
    | nil => exact absurd h (units_cons_ne_nil c s)
    | cons d t =>
      obtain ⟨rfl, rest⟩ := unitsOf_append_inj h
      rw [ih rest]

/-- The only text with the units of a code point is its character. -/
theorem exists_char_of_units {s : Text} {n : Nat} (bound : n ≤ 0x10FFFF) (h : units s = unitsOf n) :
    ∃ c : Char, s = [c] ∧ c.toNat = n := by
  cases s with
  | nil =>
    unfold unitsOf at h
    split at h <;> simp [units] at h
  | cons c t =>
    have valid : c.toNat < 0xD800 ∨ (0xDFFF < c.toNat ∧ c.toNat < 0x110000) := c.valid
    have parts : c.toNat = n ∧ units t = [] := by
      replace h : unitsOf c.toNat ++ units t = unitsOf n := h
      unfold unitsOf at h
      split_ifs at h <;>
        simp only [List.cons_append, List.nil_append, List.cons.injEq, reduceCtorEq, and_false] at h
      all_goals exact ⟨by omega, by grind⟩
    exact ⟨c, by rw [units_injective (t := []) parts.2], parts.1⟩

theorem exists_char_of_unit {s : Text} {n : Nat} (small : n < 0x10000) (h : units s = [n]) :
    ∃ c : Char, s = [c] ∧ c.toNat = n := by
  rw [← unitsOf_of_lt small] at h
  exact exists_char_of_units (by omega) h

theorem toNat_le_lastCodePoint (c : Char) : c.toNat ≤ 0x10FFFF := by
  have valid : c.toNat < 0xD800 ∨ (0xDFFF < c.toNat ∧ c.toNat < 0x110000) := c.valid
  omega

/-! ## The grammar -/

/-- The characters that end a line but may stand in a string. -/
def separators : List Char := ['\u2028', '\u2029']

/-- What may stand after a backslash, with what is written behind it, and its units. -/
inductive Escape (behind : Text) : Text → List Nat → Prop
  | short {e c : Char} : (e, c) ∈ shortEscapes → Escape behind [e] [c.toNat]
  | identity {c : Char} : ¬ IsSpecial c → c ∉ separators → Escape behind [c] (unitsOf c.toNat)
  | null : (∀ d ∈ behind.head?, d.isDigit = false) → Escape behind ['0'] [0]
  | byte {digits : Text} {n : Nat} : digits.length = 2 → HexDigits digits n →
      Escape behind ('x' :: digits) [n]
  | unit {digits : Text} {n : Nat} : digits.length = 4 → HexDigits digits n →
      Escape behind ('u' :: digits) [n]
  | codePoint {digits : Text} {n : Nat} : digits ≠ [] → HexDigits digits n → n ≤ 0x10FFFF →
      Escape behind ('u' :: '{' :: digits ++ ['}']) (unitsOf n)
  | continuation {c : Char} : c = '\n' ∨ c = '\r' ∨ c ∈ separators →
      (c = '\r' → behind.head? ≠ some '\n') → Escape behind [c] []
  | continuationPair : Escape behind ['\r', '\n'] []

/-- What may stand between two quotes, for a choice of escapes, and its units. -/
inductive Body (Allowed : Text → Text → List Nat → Prop) (quote : Char) : Text → List Nat → Prop
  | nil : Body Allowed quote [] []
  | char {c : Char} {body : Text} {value : List Nat} : c ≠ '\\' → c ≠ quote → c ≠ '\n' → c ≠ '\r' →
      Body Allowed quote body value → Body Allowed quote (c :: body) (unitsOf c.toNat ++ value)
  | escape {e body : Text} {v value : List Nat} : Allowed body e v → Body Allowed quote body value →
      Body Allowed quote ('\\' :: (e ++ body)) (v ++ value)

def WellFormed (quote : Char) (body : Text) : Prop := ∃ value, Body Escape quote body value

/-! ## Digits -/

theorem HexDigits.lt_pow {digits : Text} {n : Nat} (h : HexDigits digits n) :
    n < 16 ^ digits.length := by
  induction h with
  | nil => simp
  | snoc _ digit ih =>
    have := digit.1
    rw [List.length_append, List.length_singleton, Nat.pow_succ]
    omega

theorem HexDigits.not_mem {digits : Text} {n : Nat} (h : HexDigits digits n) {c : Char}
    (none : hexDigit? c = none) : c ∉ digits := by
  intro mem
  obtain ⟨v, digit⟩ := h.hexDigit?_of_mem mem
  simp [none] at digit

theorem HexDigits.unique {digits : Text} {n m : Nat} (h : HexDigits digits n)
    (h' : HexDigits digits m) : n = m := by
  obtain ⟨values, read, rfl⟩ := h.exists_values
  obtain ⟨values', read', rfl⟩ := h'.exists_values
  rw [read, Option.some.injEq] at read'
  rw [read']

theorem HexDigits.append_ne_cons {digits rest more : Text} {n : Nat} (h : HexDigits digits n)
    (some : digits ≠ []) {c : Char} (none : hexDigit? c = none) : digits ++ rest ≠ c :: more := by
  intro eq
  cases digits with
  | nil => exact some rfl
  | cons d digits =>
    obtain ⟨rfl, -⟩ := List.cons.inj eq
    exact h.not_mem none List.mem_cons_self

/-- Digits end at a brace. -/
theorem HexDigits.takeWhile_append {digits : Text} {n : Nat} (h : HexDigits digits n)
    (rest : Text) : (digits ++ '}' :: rest).takeWhile (· != '}') = digits := by
  have unbraced := h.not_mem (c := '}') (by decide)
  rw [List.takeWhile_append_of_pos fun d hd => by grind]
  simp

/-! ## One value -/

def singleUnits (c : Char) : List Nat :=
  if c = '0' then [0]
  else if c ∈ '\n' :: separators then []
  else unitsOf ((simpleEscape? c).getD c).toNat

/-- What the first character of an escape tells of the others and of the units. -/
def Announces (c : Char) (behind tail : Text) (v : List Nat) : Prop :=
  if c = 'x' then tail.length = 2 ∧ ∃ n, HexDigits tail n ∧ v = [n]
  else if c = 'u' then
    (tail.length = 4 ∧ ∃ n, HexDigits tail n ∧ v = [n]) ∨
      ∃ digits n, tail = '{' :: digits ++ ['}'] ∧ HexDigits digits n ∧ v = unitsOf n
  else if c = '\r' then v = [] ∧ (tail = [] ∧ behind.head? ≠ some '\n' ∨ tail = ['\n'])
  else tail = [] ∧ v = singleUnits c

/-- The first character of an escape tells how it goes on. -/
theorem Escape.announces {behind e : Text} {v : List Nat} (h : Escape behind e v) :
    ∃ c tail, e = c :: tail ∧ Announces c behind tail v := by
  cases h with
  | @short e c mem =>
    have listed : ∀ p ∈ shortEscapes, p.1 ∉ ['x', 'u', '\r'] ∧ singleUnits p.1 = [p.2.toNat] := by
      decide
    obtain ⟨letter, value⟩ := listed _ mem
    simp only [List.mem_cons, List.not_mem_nil, or_false, not_or] at letter
    exact ⟨e, [], rfl, by simp [Announces, letter, value]⟩
  | @identity c special separator =>
    refine ⟨c, [], rfl, ?_⟩
    have single : simpleEscape? c = none := by
      unfold simpleEscape?
      unfold IsSpecial at special
      grind
    have zero : c ≠ '0' := by
      rintro rfl
      exact special (.inr (by decide))
    simp only [IsSpecial, List.mem_cons, not_or] at special
    simp [Announces, singleUnits, special, separator, single, zero]
  | null undigited => exact ⟨'0', [], rfl, by simp [Announces, singleUnits]⟩
  | byte two number => exact ⟨'x', _, rfl, by simpa [Announces] using ⟨two, number⟩⟩
  | unit four number => exact ⟨'u', _, rfl, by simpa [Announces] using .inl ⟨four, number⟩⟩
  | codePoint some number bound =>
    refine ⟨'u', _, rfl, ?_⟩
    rw [Announces, if_neg (by decide), if_pos rfl]
    exact .inr ⟨_, _, rfl, number, rfl⟩
  | @continuation c lineBreak alone =>
    refine ⟨c, [], rfl, ?_⟩
    rcases lineBreak with rfl | rfl | separator
    · simp [Announces, singleUnits]
    · simpa [Announces] using alone rfl
    · rcases List.mem_pair.1 separator with rfl | rfl <;> simp [Announces, singleUnits, separators]
  | continuationPair => exact ⟨'\r', ['\n'], rfl, by simp [Announces]⟩

/-- It does so in one way, whatever is behind the escape. -/
theorem Announces.unique {c : Char} {b b' t t' : Text} {v v' : List Nat}
    (h : Announces c b t v) (h' : Announces c b' t' v') (same : t ++ b = t' ++ b') :
    t = t' ∧ v = v' := by
  unfold Announces at h h'
  split_ifs at h h' with byte unicode carriageReturn
  · obtain ⟨two, n, number, rfl⟩ := h
    obtain ⟨two', m, number', rfl⟩ := h'
    obtain ⟨rfl, -⟩ := List.append_inj same (two.trans two'.symm)
    exact ⟨rfl, by rw [number.unique number']⟩
  · have nonempty {digits : Text} (four : digits.length = 4) : digits ≠ [] := by
      rintro rfl
      cases four
    rcases h with ⟨four, n, number, rfl⟩ | ⟨digits, n, rfl, number, rfl⟩ <;>
      rcases h' with ⟨four', m, number', rfl⟩ | ⟨digits', m, rfl, number', rfl⟩
    · obtain ⟨rfl, -⟩ := List.append_inj same (four.trans four'.symm)
      exact ⟨rfl, by rw [number.unique number']⟩
    · exact absurd same (number.append_ne_cons (nonempty four) (by decide))
    · exact absurd same.symm (number'.append_ne_cons (nonempty four') (by decide))
    · simp only [List.cons_append, List.append_assoc, List.cons.injEq, true_and] at same
      obtain rfl : digits = digits' := by
        rw [← number.takeWhile_append _, same, number'.takeWhile_append]
      exact ⟨rfl, by rw [number.unique number']⟩
  · obtain ⟨rfl, ⟨rfl, alone⟩ | rfl⟩ := h <;> obtain ⟨rfl, ⟨rfl, alone'⟩ | rfl⟩ := h'
    · exact ⟨rfl, rfl⟩
    · exact absurd (congrArg List.head? same) alone
    · exact absurd (congrArg List.head? same.symm) alone'
    · exact ⟨rfl, rfl⟩
  · obtain ⟨rfl, rfl⟩ := h
    obtain ⟨rfl, rfl⟩ := h'
    exact ⟨rfl, rfl⟩

/-- A text begins with one escape at most. -/
theorem Escape.unique {b b' e e' : Text} {v v' : List Nat} (h : Escape b e v) (h' : Escape b' e' v')
    (same : e ++ b = e' ++ b') : e = e' ∧ v = v' := by
  obtain ⟨c, t, rfl, announced⟩ := h.announces
  obtain ⟨c', t', rfl, announced'⟩ := h'.announces
  obtain ⟨rfl, rest⟩ := List.cons.inj same
  obtain ⟨rfl, rfl⟩ := announced.unique announced' rest
  exact ⟨rfl, rfl⟩

/-- The grammar gives a text one value at most. -/
theorem Body.unique {quote : Char} {body : Text} {v w : List Nat} (h : Body Escape quote body v)
    (h' : Body Escape quote body w) : v = w := by
  induction h generalizing w with
  | nil => cases h' with | nil => rfl
  | char backslash _ _ _ _ ih =>
    cases h' with
    | char _ _ _ _ rest => rw [ih rest]
    | escape => exact absurd rfl backslash
  | @escape e body v value first rest ih =>
    generalize same : '\\' :: (e ++ body) = text at h'
    cases h' with
    | nil => cases same
    | char backslash => exact absurd (List.cons.inj same).1.symm backslash
    | escape first' rest' =>
      obtain ⟨rfl, rfl⟩ := first.unique first' (List.cons.inj same).2
      obtain rfl := List.append_cancel_left (List.cons.inj same).2
      rw [ih rest']

/-- After a backslash a grammatical text has an escape. -/
theorem WellFormed.exists_escape {quote : Char} {rest : Text}
    (h : WellFormed quote ('\\' :: rest)) :
    ∃ e behind v, rest = e ++ behind ∧ Escape behind e v := by
  obtain ⟨value, h⟩ := h
  generalize eq : '\\' :: rest = body at h
  cases h with
  | nil => cases eq
  | char backslash => exact absurd (List.cons.inj eq).1.symm backslash
  | escape escape => exact ⟨_, _, _, (List.cons.inj eq).2, escape⟩

end SolidityInlay.StringLiteral
