import SolidityInlay.Text.Classes
import SolidityInlay.Toml.Value

/-!
# TOML strings, numbers and date-times

Readers of the front of a text: each gives what it read and the rest, or nothing.

Main definitions: `Toml.readString`, `Toml.readInteger`, `Toml.skipFloat`, `Toml.skipDateTime`.
-/

namespace SolidityInlay.Toml

/-! ## Blanks -/

def isTomlBlank (c : Char) : Bool := c == ' ' || c == '\t'

def skipTomlBlanks (cs : Text) : Text := cs.dropWhile isTomlBlank

def newline? : Text → Option Text
  | '\n' :: rest => some rest
  | '\r' :: '\n' :: rest => some rest
  | _ => none

/-- What comments and strings may hold: no control but the tab. -/
def isPlainChar (c : Char) : Bool :=
  c == '\t' || (0x20 ≤ c.toNat && c.toNat != 0x7F)

/-! ## Strings -/

/-- The character with a code in hexadecimal digits, unless it is a surrogate or too large. -/
def charOfDigits? (digits : Text) : Option Char := do
  let values ← digits.mapM hexDigit?
  let n := values.foldl (fun n d => 16 * n + d) 0
  if n < 0xD800 || (0xE000 ≤ n && n < 0x110000) then some (Char.ofNat n) else none

def tomlEscape? (c : Char) : Option Char :=
  match c with
  | 'b' => some '\x08'
  | 't' => some '\t'
  | 'n' => some '\n'
  | 'f' => some '\x0c'
  | 'r' => some '\r'
  | '"' => some '"'
  | '\\' => some '\\'
  | _ => none

def consRead (c : Char) (read : Option (Text × Text)) : Option (Text × Text) :=
  read.map fun (cs, rest) => (c :: cs, rest)

def readBasic : Text → Option (Text × Text)
  | [] => none
  | '"' :: rest => some ([], rest)
  | '\\' :: 'u' :: a :: b :: c :: d :: rest =>
    (charOfDigits? [a, b, c, d]).bind fun x => consRead x (readBasic rest)
  | '\\' :: 'U' :: a :: b :: c :: d :: e :: f :: g :: h :: rest =>
    (charOfDigits? [a, b, c, d, e, f, g, h]).bind fun x => consRead x (readBasic rest)
  | '\\' :: e :: rest => (tomlEscape? e).bind fun x => consRead x (readBasic rest)
  | c :: rest => if isPlainChar c && c != '\\' then consRead c (readBasic rest) else none

/-- A string of several lines, after its opening quotes. Up to two quotes may stand right before the
closing ones; after a backslash at the end of a line, blanks and line ends are dropped. -/
def readBasicLines (dropping : Bool) : Text → Option (Text × Text)
  | [] => none
  | c :: rest =>
    if dropping && isTomlBlank c then readBasicLines true rest
    else if c == '\n' then
      if dropping then readBasicLines true rest else consRead '\n' (readBasicLines false rest)
    else if c == '\r' then
      match rest with
      | '\n' :: after =>
        if dropping then readBasicLines true after else consRead '\n' (readBasicLines false after)
      | _ => none
    else if c == '"' then
      match rest with
      | '"' :: '"' :: '"' :: '"' :: after => some (['"', '"'], after)
      | '"' :: '"' :: '"' :: after => some (['"'], after)
      | '"' :: '"' :: after => some ([], after)
      | _ => consRead '"' (readBasicLines false rest)
    else if c == '\\' then
      if (newline? (skipTomlBlanks rest)).isSome then readBasicLines true rest
      else
        match rest with
        | 'u' :: a :: b :: c :: d :: after =>
          (charOfDigits? [a, b, c, d]).bind fun x => consRead x (readBasicLines false after)
        | 'U' :: a :: b :: c :: d :: e :: f :: g :: h :: after =>
          (charOfDigits? [a, b, c, d, e, f, g, h]).bind fun x =>
            consRead x (readBasicLines false after)
        | e :: after => (tomlEscape? e).bind fun x => consRead x (readBasicLines false after)
        | [] => none
    else if isPlainChar c then consRead c (readBasicLines false rest)
    else none

/-- A string without escapes of one line, after its opening quote. -/
def readLiteral : Text → Option (Text × Text)
  | [] => none
  | c :: rest =>
    if c == '\'' then some ([], rest)
    else if isPlainChar c then consRead c (readLiteral rest)
    else none

/-- A string without escapes of several lines, after its opening quotes. -/
def readLiteralLines : Text → Option (Text × Text)
  | [] => none
  | '\'' :: '\'' :: '\'' :: '\'' :: '\'' :: rest => some (['\'', '\''], rest)
  | '\'' :: '\'' :: '\'' :: '\'' :: rest => some (['\''], rest)
  | '\'' :: '\'' :: '\'' :: rest => some ([], rest)
  | '\r' :: '\n' :: rest => consRead '\n' (readLiteralLines rest)
  | c :: rest =>
    if c == '\n' || isPlainChar c then consRead c (readLiteralLines rest) else none

/-- The rest after the line end that may follow opening quotes. -/
def dropNewline (cs : Text) : Text := (newline? cs).getD cs

def readString : Text → Option (String × Text)
  | '"' :: '"' :: '"' :: rest => made (readBasicLines false (dropNewline rest))
  | '"' :: rest => made (readBasic rest)
  | '\'' :: '\'' :: '\'' :: rest => made (readLiteralLines (dropNewline rest))
  | '\'' :: rest => made (readLiteral rest)
  | _ => none
where
  made (read : Option (Text × Text)) : Option (String × Text) :=
    read.map fun (cs, rest) => (String.ofList cs, rest)

/-! ## Numbers -/

/-- More digits of a class; an underscore must stand between two digits. -/
def readMoreDigits (isDigit : Char → Bool) : Text → Option (Text × Text)
  | [] => some ([], [])
  | ['_'] => none
  | '_' :: c :: rest => if isDigit c then consRead c (readMoreDigits isDigit rest) else none
  | c :: rest =>
    if isDigit c then consRead c (readMoreDigits isDigit rest) else some ([], c :: rest)

def readDigits (isDigit : Char → Bool) : Text → Option (Text × Text)
  | [] => none
  | c :: rest => if isDigit c then consRead c (readMoreDigits isDigit rest) else none

def readSign : Text → Bool × Text
  | '-' :: rest => (true, rest)
  | '+' :: rest => (false, rest)
  | cs => (false, cs)

/-- The digits of a decimal integer, which has no leading zero. -/
def readDecimal : Text → Option (Text × Text)
  | '0' :: rest => some (['0'], rest)
  | cs => readDigits Char.isDigit cs

def natOfBase (base : Nat) (digits : Text) : Nat :=
  digits.foldl (fun n c => base * n + (hexDigit? c).getD 0) 0

def int64? (n : Int) : Option Int :=
  let limit := Int.pow 2 63
  if -limit ≤ n ∧ n < limit then some n else none

/-- An integer: decimal, or without sign in hexadecimal, octal or binary digits. -/
def readInteger : Text → Option (Int × Text)
  | '0' :: 'x' :: rest => inBase 16 isHexDigit rest
  | '0' :: 'o' :: rest => inBase 8 (fun c => '0' ≤ c && c ≤ '7') rest
  | '0' :: 'b' :: rest => inBase 2 (fun c => c == '0' || c == '1') rest
  | cs => do
    let (negative, cs) := readSign cs
    let (digits, rest) ← readDecimal cs
    let n : Int := natOfBase 10 digits
    (int64? (if negative then -n else n)).map (·, rest)
where
  inBase (base : Nat) (isDigit : Char → Bool) (cs : Text) : Option (Int × Text) := do
    let (digits, rest) ← readDigits isDigit cs
    (int64? (natOfBase base digits)).map (·, rest)

/-- The digits of a fraction, none if there is none. -/
def readFraction : Text → Option (Text × Text)
  | '.' :: rest => readDigits Char.isDigit rest
  | cs => some ([], cs)

/-- An exponent, zero if there is none. -/
def readExponent : Text → Option (Int × Text)
  | c :: rest =>
    if c == 'e' || c == 'E' then do
      let (negative, rest) := readSign rest
      let (digits, rest) ← readDigits Char.isDigit rest
      let n : Int := natOfBase 10 digits
      some (if negative then -n else n, rest)
    else some (0, c :: rest)
  | [] => some (0, [])

/-- Whether the double nearest to `n * 10 ^ exponent` is infinite. -/
def overflowsDouble (n : Nat) (exponent : Int) : Bool :=
  let places : Int := (Nat.toDigits 10 n).length + exponent
  if n = 0 || places < 309 then false
  else if 309 < places then true
  else
    let limit := Nat.pow 2 1024 - Nat.pow 2 970
    let power := Nat.pow 10 exponent.natAbs
    if exponent < 0 then limit * power ≤ n else limit ≤ n * power

/-- The rest after a float: one with a fraction or an exponent, infinity or not a number. A positive
one must not be too large for a double. -/
def skipFloat (cs : Text) : Option Text :=
  let (negative, unsigned) := readSign cs
  match unsigned with
  | 'i' :: 'n' :: 'f' :: rest => some rest
  | 'n' :: 'a' :: 'n' :: rest => some rest
  | _ => do
    let (whole, afterWhole) ← readDecimal unsigned
    let (fraction, afterFraction) ← readFraction afterWhole
    let (exponent, rest) ← readExponent afterFraction
    if rest.length == afterWhole.length then none
    else if !negative &&
        overflowsDouble (natOfBase 10 (whole ++ fraction)) (exponent - fraction.length) then none
    else some rest

/-! ## Dates and times -/

def readFixed (count : Nat) (cs : Text) : Option (Nat × Text) :=
  let digits := cs.take count
  if digits.length == count && digits.all Char.isDigit then
    some (natOfBase 10 digits, cs.drop count)
  else none

def expect (c : Char) : Text → Option Text
  | [] => none
  | x :: rest => if x == c then some rest else none

def isLeapYear (year : Nat) : Bool := year % 4 == 0 && (year % 100 != 0 || year % 400 == 0)

def daysInMonth (year month : Nat) : Nat :=
  if month == 2 then (if isLeapYear year then 29 else 28)
  else if [4, 6, 9, 11].contains month then 30
  else 31

def skipDate (cs : Text) : Option Text := do
  let (year, cs) ← readFixed 4 cs
  let (month, cs) ← readFixed 2 (← expect '-' cs)
  let (day, cs) ← readFixed 2 (← expect '-' cs)
  if 1 ≤ month && month ≤ 12 && 1 ≤ day && day ≤ daysInMonth year month then some cs else none

/-- The rest after the fraction of a second, if there is one. -/
def skipSecondFraction (cs : Text) : Text :=
  match cs with
  | '.' :: rest => if (rest.takeWhile Char.isDigit).isEmpty then cs else rest.dropWhile Char.isDigit
  | _ => cs

/-- The rest after a time of day; a minute may have a leap second. -/
def skipTime (cs : Text) : Option Text := do
  let (hour, cs) ← readFixed 2 cs
  let (minute, cs) ← readFixed 2 (← expect ':' cs)
  let (second, cs) ← readFixed 2 (← expect ':' cs)
  if hour ≤ 23 && minute ≤ 59 && second ≤ 60 then some (skipSecondFraction cs) else none

/-- The rest after an offset from universal time, if there is one. -/
def skipOffset (cs : Text) : Text :=
  match cs with
  | c :: rest =>
    if c == 'Z' || c == 'z' then rest
    else if c == '+' || c == '-' then
      (do
        let (hour, rest) ← readFixed 2 rest
        let (minute, rest) ← readFixed 2 (← expect ':' rest)
        if hour ≤ 23 && minute ≤ 59 then some rest else none).getD cs
    else cs
  | [] => cs

def skipDateTime (cs : Text) : Option Text :=
  match skipDate cs with
  | none => skipTime cs
  | some rest =>
    match rest with
    | c :: more =>
      if c == 'T' || c == 't' || c == ' ' then some (((skipTime more).map skipOffset).getD rest)
      else some rest
    | [] => some rest

end SolidityInlay.Toml
