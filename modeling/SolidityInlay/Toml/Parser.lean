import SolidityInlay.Toml.Scalar

/-!
# Reading TOML

A document is a list of statements, a line each: headers, headers of arrays of tables, and
assignments to keys of the table that the last header named.

Main definitions: `Toml.readValue`, `Toml.Statement`, `Toml.parse`.
-/

namespace SolidityInlay.Toml

/-! ## Keys -/

def isBareKeyChar (c : Char) : Bool := c.isAlphanum || c == '-' || c == '_'

def readKeyPart (cs : Text) : Option (String × Text) :=
  match cs with
  | '"' :: rest => (readBasic rest).map fun (key, rest) => (String.ofList key, rest)
  | '\'' :: rest => (readLiteral rest).map fun (key, rest) => (String.ofList key, rest)
  | _ =>
    let key := cs.takeWhile isBareKeyChar
    if key.isEmpty then none else some (String.ofList key, cs.drop key.length)

/-- The parts of a key, with points and maybe blanks between them. -/
def readKeyParts : Nat → Text → Option (List String × Text)
  | 0, _ => none
  | fuel + 1, cs => do
    let (part, rest) ← readKeyPart (skipTomlBlanks cs)
    match skipTomlBlanks rest with
    | '.' :: rest => (readKeyParts fuel rest).map fun (parts, rest) => (part :: parts, rest)
    | rest => some ([part], rest)

/-- How deep keys and values may nest, one more than is allowed. -/
def nestingLimit : Nat := 80

/-- A key, of fewer parts than the limit. -/
def readKey (cs : Text) : Option (List String × Text) := readKeyParts (nestingLimit - 1) cs

/-! ## Values -/

def skipComment : Text → Text
  | '#' :: rest => rest.dropWhile isPlainChar
  | cs => cs

/-- The rest after blanks, line ends and comments that end in a line end. -/
def skipLines : Nat → Text → Text
  | 0, cs => cs
  | fuel + 1, cs =>
    match newline? (skipComment (skipTomlBlanks cs)) with
    | some rest => skipLines fuel rest
    | none => skipTomlBlanks cs

/-- A value that holds no other: the first reading that fits. -/
def readScalar (cs : Text) : Option (Value × Text) :=
  match cs with
  | 't' :: 'r' :: 'u' :: 'e' :: rest => some (.bool true, rest)
  | 'f' :: 'a' :: 'l' :: 's' :: 'e' :: rest => some (.bool false, rest)
  | _ =>
    ((readString cs).map fun (s, rest) => (Value.string s, rest))
      <|> ((skipDateTime cs).map fun rest => (Value.dateTime, rest))
      <|> ((skipFloat cs).map fun rest => (Value.float, rest))
      <|> ((readInteger cs).map fun (n, rest) => (Value.integer n, rest))

mutual

/-- A value that nests less than `depth` deep. -/
def readValue : Nat → Nat → Text → Option (Value × Text)
  | 0, _, _ => none
  | fuel + 1, depth, cs =>
    match cs with
    | '[' :: rest =>
      if depth ≤ 1 then none
      else (readArray fuel (depth - 1) rest).map fun (items, rest) => (.array items, rest)
    | '{' :: rest =>
      if depth ≤ 1 then none
      else
        match skipTomlBlanks rest with
        | '}' :: rest => some (.table .inline [], rest)
        | rest =>
          (readInline fuel (depth - 1) [] rest).map fun (entries, rest) =>
            (.table .inline entries, rest)
    | _ => readScalar cs

/-- Items up to the closing bracket; a comma may stand after the last. -/
def readArray : Nat → Nat → Text → Option (List Value × Text)
  | 0, _, _ => none
  | fuel + 1, depth, cs =>
    match skipLines cs.length cs with
    | ']' :: rest => some ([], rest)
    | cs => do
      let (item, rest) ← readValue fuel depth cs
      match skipLines rest.length rest with
      | ',' :: rest => (readArray fuel depth rest).map fun (items, rest) => (item :: items, rest)
      | ']' :: rest => some ([item], rest)
      | _ => none

def readInline : Nat → Nat → Entries → Text → Option (Entries × Text)
  | 0, _, _, _ => none
  | fuel + 1, depth, entries, cs => do
    let (key, rest) ← readKey cs
    let (value, rest) ← readValue fuel depth (skipTomlBlanks (← expect '=' rest))
    let entries ← assign key value entries
    match skipTomlBlanks rest with
    | ',' :: rest => readInline fuel depth entries rest
    | '}' :: rest => some (entries, rest)
    | _ => none

end

/-! ## Documents -/

inductive Statement where
  | header (path : List String)
  | arrayHeader (path : List String)
  | assignment (key : List String) (value : Value)
deriving Repr

def readStatement (cs : Text) : Option (Statement × Text) :=
  match cs with
  | '[' :: '[' :: rest => do
    let (path, rest) ← readKey rest
    some (.arrayHeader path, ← expect ']' (← expect ']' rest))
  | '[' :: rest => do
    let (path, rest) ← readKey rest
    some (.header path, ← expect ']' rest)
  | _ => do
    let (key, rest) ← readKey cs
    let rest := skipTomlBlanks (← expect '=' rest)
    let (value, rest) ← readValue (2 * rest.length + 2) nestingLimit rest
    some (.assignment key value, rest)

def readStatements : Nat → Text → Option (List Statement)
  | 0, _ => none
  | fuel + 1, cs =>
    match skipLines cs.length cs with
    | [] => some []
    | cs =>
      if cs.head? == some '#' then
        if (skipComment cs).isEmpty then some [] else none
      else do
        let (statement, rest) ← readStatement cs
        match skipComment (skipTomlBlanks rest) with
        | [] => some [statement]
        | rest => (← newline? rest) |> readStatements fuel |>.map (statement :: ·)

/-- A document so far: the table the last header named, and the top table. -/
structure Document where
  current : List String
  entries : Entries

def Document.add (d : Document) : Statement → Option Document
  | .header path => (openTable path d.entries).map fun entries => ⟨path, entries⟩
  | .arrayHeader path => (appendTable path d.entries).map fun entries => ⟨path, entries⟩
  | .assignment key value =>
    (atTable (assign key value) d.current d.entries).map fun entries => { d with entries }

/-- The top table of a text, which may begin with a byte order mark. -/
def parse (cs : Text) : Option Entries := do
  let cs := if cs.head? == some '\uFEFF' then cs.drop 1 else cs
  let statements ← readStatements (cs.length + 1) cs
  (statements.foldlM Document.add ⟨[], []⟩).map Document.entries

end SolidityInlay.Toml
