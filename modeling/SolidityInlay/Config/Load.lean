import SolidityInlay.Config.Settings
import SolidityInlay.File.Tree

/-!
# Loading a configuration

The settings of a directory are those of its own settings file, else those in the nearest package
description at or above it that has any, else the defaults. A file that cannot be read or understood
is passed over.

Main definitions: `Config.load`, `Config.projectRoot`.
-/

namespace SolidityInlay.Config

def settingsFile : String := "sol-embed.toml"

def packageFile : String := "package.json"

def readFrom? (t : FileTree) (read : Path → String → Option Config) (path : Path) :
    Option Config :=
  (t.readText path).toOption.bind (read path)

def load (t : FileTree) (directory : Path) : Config :=
  let own := readFrom? t Settings.ofToml? (directory.join settingsFile)
  let above := directory.ancestors.findSome? fun d =>
    readFrom? t Settings.ofPackage? (d.join packageFile)
  (own <|> above).getD {}

/-- The root of the project of a path: where the settings come from, else the nearest directory at
or above it with a package description, else the path itself. -/
def projectRoot (c : Config) (t : FileTree) (start : Path) : Path :=
  match c.source.bind Path.parent? with
  | some directory => directory
  | none => (start.ancestors.find? fun d => t.isFile (d.join packageFile)).getD start

end SolidityInlay.Config
