/-!
# Compiler options

The settings of a compilation that change what is produced.

Main definition: `CompilerOptions`.
-/

namespace SolidityInlay

/-- What is asked of the compiler beside the source. -/
structure CompilerOptions where
  optimize : Bool := false
  runs : UInt32 := 200
  evmVersion : Option String := none
deriving DecidableEq, Repr, Inhabited

end SolidityInlay
