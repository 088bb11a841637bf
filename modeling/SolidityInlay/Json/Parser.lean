import SolidityInlay.Json.Value
import SolidityInlay.Text.Basic
import SolidityInlay.Text.Classes

/-!
# Reading JSON

Text is first read as a form: its grammar is checked, while a number that no double holds and a
string with half of a surrogate pair are kept as forms without a value. Whoever skips a form does
not look at its value; whoever needs one fails on such a form. Entering an array or an object for
its value takes one level of depth.

An integer of up to 64 bits is kept exactly. Any other number is its leading digits as far as they
fit into 64 bits, scaled by a power of ten in double precision.

Main definitions: `Json.Form`, `Json.readForm`, `Json.Form.value?`, `Json.parse`.
-/

namespace SolidityInlay.Json

inductive Form where
  | null
  | bool (b : Bool)
  | number (n : Option Number)
  | string (s : Option String)
  | array (items : List Form)
  | object (fields : List (Option String × Form))
deriving Inhabited

/-! ## Blanks and numbers -/

def isJsonBlank (c : Char) : Bool := c == ' ' || c == '\n' || c == '\t' || c == '\r'

def skipBlanks (cs : Text) : Text := cs.dropWhile isJsonBlank

structure NumberText where
  negative : Bool
  whole : Text
  fraction : Option Text
  exponent : Option (Bool × Text)

def digitValue (c : Char) : Nat := c.toNat - '0'.toNat

def takeDigits (cs : Text) : Text × Text := cs.span Char.isDigit

/-- The digits of a whole number: no leading zero before another digit. -/
def readWhole (cs : Text) : Option (Text × Text) :=
  match takeDigits cs with
  | ([], _) => none
  | ('0' :: _ :: _, _) => none
  | (digits, rest) => some (digits, rest)

def readFraction (cs : Text) : Option (Option Text × Text) :=
  match cs with
  | '.' :: rest =>
    match takeDigits rest with
    | ([], _) => none
    | (digits, rest) => some (some digits, rest)
  | _ => some (none, cs)

def readExponent (cs : Text) : Option (Option (Bool × Text) × Text) :=
  match cs with
  | c :: rest =>
    if c == 'e' || c == 'E' then
      let (negative, rest) := match rest with
        | '-' :: more => (true, more)
        | '+' :: more => (false, more)
        | _ => (false, rest)
      match takeDigits rest with
      | ([], _) => none
      | (digits, rest) => some (some (negative, digits), rest)
    else some (none, cs)
  | [] => some (none, cs)

def readNumberText (cs : Text) : Option (NumberText × Text) := do
  let (negative, cs) := match cs with
    | '-' :: rest => (true, rest)
    | _ => (false, cs)
  let (whole, cs) ← readWhole cs
  let (fraction, cs) ← readFraction cs
  let (exponent, cs) ← readExponent cs
  some (⟨negative, whole, fraction, exponent⟩, cs)

def natOfDigits (digits : Text) : Nat := digits.foldl (fun n c => 10 * n + digitValue c) 0

/-- Adds digits for as long as 64 bits hold them; also how many were added. -/
def absorbDigits (n : Nat) : Text → Nat × Nat
  | [] => (n, 0)
  | c :: cs =>
    if 10 * n + digitValue c < UInt64.size then
      let (m, count) := absorbDigits (10 * n + digitValue c) cs
      (m, count + 1)
    else (n, 0)

/-- `f * 10 ^ exponent`, dividing in steps of the largest power of ten a double holds. -/
def scaleFloat : Nat → Float → Int → Option Float
  | 0, f, _ => some f
  | fuel + 1, f, exponent =>
    if exponent.natAbs ≤ 308 then
      let power := Float.ofScientific 1 false exponent.natAbs
      if exponent < 0 then some (f / power)
      else if (f * power).isInf then none else some (f * power)
    else if f == 0.0 then some f
    else if 0 ≤ exponent then none
    else scaleFloat fuel (f / Float.ofScientific 1 false 308) (exponent + 308)

/-- The double with these digits; none if it is too large. -/
def doubleOf (negative : Bool) (significand : Nat) (exponent : Int) : Option Double :=
  (scaleFloat 8 significand.toUInt64.toFloat exponent).map fun f =>
    .ofFloat (if negative then -f else f)

/-- The value of a number; none if it is too large for a double. -/
def NumberText.value? (t : NumberText) : Option Number :=
  let n := natOfDigits t.whole
  match t.fraction, t.exponent with
  | none, none =>
    if !t.negative && n < UInt64.size then some (.integer n)
    else if t.negative && 0 < n && n ≤ Nat.pow 2 63 then some (.integer (-n))
    else ofParts.map .double
  | _, _ => ofParts.map .double
where
  ofParts : Option Double :=
    let (whole, taken) := absorbDigits 0 t.whole
    let dropped := t.whole.length - taken
    let (significand, places) := absorbDigits whole (t.fraction.getD [])
    let point : Int := (dropped : Int) - places
    match t.exponent with
    | none => doubleOf t.negative significand point
    | some (down, digits) =>
      let e := natOfDigits digits
      if Nat.pow 2 31 ≤ e then
        if significand != 0 && !down then none else doubleOf t.negative 0 0
      else doubleOf t.negative significand (if down then point - e else point + e)

/-! ## Strings -/

/-- A character of a string, or a code unit given by an escape. -/
inductive StringPiece where
  | char (c : Char)
  | unit (n : Nat)

def jsonEscape? (c : Char) : Option Char :=
  match c with
  | '"' => some '"'
  | '\\' => some '\\'
  | '/' => some '/'
  | 'b' => some '\x08'
  | 'f' => some '\x0c'
  | 'n' => some '\n'
  | 'r' => some '\r'
  | 't' => some '\t'
  | _ => none

def hexUnit? (a b c d : Char) : Option Nat := do
  let a ← hexDigit? a
  let b ← hexDigit? b
  let c ← hexDigit? c
  let d ← hexDigit? d
  some (((a * 16 + b) * 16 + c) * 16 + d)

/-- The pieces up to the closing quote, and the text after it. -/
def readPieces : Text → Option (List StringPiece × Text)
  | [] => none
  | '"' :: rest => some ([], rest)
  | '\\' :: 'u' :: a :: b :: c :: d :: rest => do
    let n ← hexUnit? a b c d
    let (pieces, after) ← readPieces rest
    some (.unit n :: pieces, after)
  | '\\' :: e :: rest => do
    let c ← jsonEscape? e
    let (pieces, after) ← readPieces rest
    some (.char c :: pieces, after)
  | c :: rest =>
    if c.toNat < 0x20 || c == '\\' then none
    else do
      let (pieces, after) ← readPieces rest
      some (.char c :: pieces, after)

/-- What is no quote, backslash or control is a piece by itself. -/
theorem readPieces_char {c : Char} (quote : c ≠ '"') (backslash : c ≠ '\\')
    (large : ¬ c.toNat < 0x20) (rest : Text) :
    readPieces (c :: rest) = (readPieces rest).map fun p => (.char c :: p.1, p.2) := by
  rw [readPieces]
  · simp only [large, decide_false, Bool.false_or, beq_iff_eq, if_neg backslash,
      Option.bind_eq_bind]
    cases readPieces rest <;> rfl
  · exact quote
  · exact fun _ _ _ _ _ h => absurd h backslash
  · exact fun _ _ h => absurd h backslash

/-- The text of the pieces: surrogates come in pairs, high before low. -/
def joinPieces : List StringPiece → Option Text
  | [] => some []
  | .char c :: rest => (joinPieces rest).map (c :: ·)
  | .unit n :: .unit m :: rest =>
    if 0xD800 ≤ n ∧ n < 0xDC00 then
      if 0xDC00 ≤ m ∧ m < 0xE000 then
        (joinPieces rest).map (Char.ofNat (0x10000 + (n - 0xD800) * 0x400 + (m - 0xDC00)) :: ·)
      else none
    else if 0xDC00 ≤ n ∧ n < 0xE000 then none
    else (joinPieces (.unit m :: rest)).map (Char.ofNat n :: ·)
  | .unit n :: rest =>
    if 0xD800 ≤ n ∧ n < 0xE000 then none else (joinPieces rest).map (Char.ofNat n :: ·)

def readString (cs : Text) : Option (Option String × Text) := do
  let (pieces, rest) ← readPieces cs
  some ((joinPieces pieces).map String.ofList, rest)

/-! ## Forms -/

mutual

def readFormAt : Nat → Text → Option (Form × Text)
  | 0, _ => none
  | fuel + 1, cs =>
    match skipBlanks cs with
    | 'n' :: 'u' :: 'l' :: 'l' :: rest => some (.null, rest)
    | 't' :: 'r' :: 'u' :: 'e' :: rest => some (.bool true, rest)
    | 'f' :: 'a' :: 'l' :: 's' :: 'e' :: rest => some (.bool false, rest)
    | '"' :: rest => (readString rest).map fun (s, after) => (.string s, after)
    | '[' :: rest =>
      match skipBlanks rest with
      | ']' :: after => some (.array [], after)
      | _ => (readItems fuel rest).map fun (items, after) => (.array items, after)
    | '{' :: rest =>
      match skipBlanks rest with
      | '}' :: after => some (.object [], after)
      | _ => (readFields fuel rest).map fun (fields, after) => (.object fields, after)
    | cs => (readNumberText cs).map fun (t, after) => (.number t.value?, after)

def readItems : Nat → Text → Option (List Form × Text)
  | 0, _ => none
  | fuel + 1, cs => do
    let (item, rest) ← readFormAt fuel cs
    match skipBlanks rest with
    | ',' :: rest => (readItems fuel rest).map fun (items, after) => (item :: items, after)
    | ']' :: after => some ([item], after)
    | _ => none

def readFields : Nat → Text → Option (List (Option String × Form) × Text)
  | 0, _ => none
  | fuel + 1, cs =>
    match skipBlanks cs with
    | '"' :: rest => do
      let (key, rest) ← readString rest
      match skipBlanks rest with
      | ':' :: rest =>
        let (value, rest) ← readFormAt fuel rest
        match skipBlanks rest with
        | ',' :: rest =>
          (readFields fuel rest).map fun (fields, after) => ((key, value) :: fields, after)
        | '}' :: after => some ([(key, value)], after)
        | _ => none
      | _ => none
    | _ => none

end

/-- A quote begins a string. -/
theorem readFormAt_string (fuel : Nat) (rest : Text) :
    readFormAt (fuel + 1) ('"' :: rest) =
      (readString rest).map fun (s, after) => (.string s, after) := by
  simp [readFormAt, skipBlanks, isJsonBlank]

/-- The form that makes up a whole text. -/
def readForm (cs : Text) : Option Form := do
  let (form, rest) ← readFormAt (2 * cs.length + 2) cs
  if (skipBlanks rest).isEmpty then some form else none

/-! ## Values -/

mutual

/-- The value of a form that nests less than `depth` deep. -/
def Form.value? : Nat → Form → Option Value
  | _, .null => some .null
  | _, .bool b => some (.bool b)
  | _, .number n => n.map .number
  | _, .string s => s.map .string
  | depth, .array items =>
    if depth ≤ 1 then none else (formValues (depth - 1) items).map .array
  | depth, .object fields =>
    if depth ≤ 1 then none else (formFields (depth - 1) fields).map .ofFields

def formValues : Nat → List Form → Option (List Value)
  | _, [] => some []
  | depth, f :: fs => do
    let v ← f.value? depth
    let vs ← formValues depth fs
    some (v :: vs)

def formFields : Nat → List (Option String × Form) → Option (List (String × Value))
  | _, [] => some []
  | depth, (k, f) :: fs => do
    let k ← k
    let v ← f.value? depth
    let vs ← formFields depth fs
    some ((k, v) :: vs)

end

/-- How deep arrays and objects may nest in a text, one more than is allowed. -/
def depthLimit : Nat := 128

def parse (cs : Text) : Option Value := (readForm cs).bind fun f => f.value? depthLimit

mutual

def Value.form : Value → Form
  | .null => .null
  | .bool b => .bool b
  | .number n => .number (some n)
  | .string s => .string (some s)
  | .array items => .array (itemForms items)
  | .object fields => .object (fieldForms fields)

def itemForms : List Value → List Form
  | [] => []
  | v :: vs => v.form :: itemForms vs

def fieldForms : List (String × Value) → List (Option String × Form)
  | [] => []
  | (k, v) :: vs => (some k, v.form) :: fieldForms vs

end

end SolidityInlay.Json
