import SolidityInlay.File.Path
import SolidityInlay.Host.Grammar.Parse

/-!
# Host languages

Which files are host files, and how each is read. The TypeScript grammar also reads plain
JavaScript; files with markup need the other dialect.

Main definitions: `Language`, `Language.ofExtension?`, `Language.ofPath?`, `Language.parse`.
-/

namespace SolidityInlay.Host

inductive Language where
  | typescript
  | tsx
deriving DecidableEq, Repr

namespace Language

def ofExtension? (ext : String) : Option Language :=
  if ["ts", "mts", "cts", "js", "mjs", "cjs"].contains ext then some .typescript
  else if ["tsx", "jsx"].contains ext then some .tsx
  else none

def ofPath? (path : Path) : Option Language := path.extension?.bind ofExtension?

def dialect : Language → Grammar.Dialect
  | .typescript => .plain
  | .tsx => .markup

def parse (language : Language) (text : String) : Tree := Host.parse language.dialect text.toList

end Language

/-- A way to read host files. -/
abbrev Parser := Language → String → Tree

end SolidityInlay.Host
