import SolidityInlay.Config.Basic
import SolidityInlay.Glob.Match

/-!
# Files of a project

Which paths the patterns of a configuration let through.

Main definitions: `Config.admits`.
-/

namespace SolidityInlay.Config

def isIncluded (c : Config) (path : String) : Bool :=
  c.includes.isEmpty || c.includes.any fun glob => Glob.isMatch glob path

def isExcluded (c : Config) (path : String) : Bool :=
  c.effectiveExcludes.any fun glob => Glob.isMatch glob path

def admits (c : Config) (path : String) : Bool := c.isIncluded path && !c.isExcluded path

end SolidityInlay.Config
