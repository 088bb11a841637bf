import SolidityInlay.Declarations.Basic

/-!
# The declaration file

Declarations as a TypeScript file that adds to the runtime's registry of contracts. The interface of
a contract is written as a type that only that interface has.

Main definitions: `literalType`, `DeclarationSet.render`.
-/

namespace SolidityInlay

mutual

/-- The type whose only value is the given one. -/
def literalType : Json.Value → Text
  | .null => "null".toList
  | .bool true => "true".toList
  | .bool false => "false".toList
  | .number n => n.render
  | .string s => Json.quoteText s.toList
  | .array [] => "readonly []".toList
  | .array (v :: rest) =>
    "readonly [".toList ++ literalType v ++ literalItems rest ++ [']']
  | .object [] => "Record<string, never>".toList
  | .object ((k, v) :: rest) =>
    "\x7b ".toList ++ literalField k v ++ literalFields rest ++ " \x7d".toList

/-- Items after the first. -/
def literalItems : List Json.Value → Text
  | [] => []
  | v :: rest => ", ".toList ++ literalType v ++ literalItems rest

def literalField (k : String) (v : Json.Value) : Text :=
  Json.quoteText k.toList ++ ": ".toList ++ literalType v

/-- Fields after the first. -/
def literalFields : List (String × Json.Value) → Text
  | [] => []
  | (k, v) :: rest => ", ".toList ++ literalField k v ++ literalFields rest

end

/-- The first line of every declaration file. -/
def declarationHeader : String := "// Generated by sol-embed. Do not edit."

namespace Declaration

def line (d : Declaration) : String :=
  "    " ++ Json.quote d.name ++ ": \x7b \"abi\": " ++
    String.ofList (literalType (.array d.abi)) ++ " \x7d;\n"

end Declaration

/-- The declaration file; none if there is nothing to declare. -/
def DeclarationSet.render (runtimeModule : String) (set : DeclarationSet) : Option String :=
  if set.isEmpty then none
  else
    let name := Json.quote runtimeModule
    some (declarationHeader ++ "\n" ++
      "import " ++ name ++ ";\n\n" ++
      "declare module " ++ name ++ " \x7b\n" ++
      "  interface ContractRegistry \x7b\n" ++
      String.join (set.entries.map Declaration.line) ++
      "  \x7d\n" ++
      "\x7d\n")

end SolidityInlay
