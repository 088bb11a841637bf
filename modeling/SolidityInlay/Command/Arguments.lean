import SolidityInlay.File.Path

/-!
# Arguments of the command line

A command with its values, and flags that may stand anywhere. Two dashes end the flags.

Main definitions: `Command`, `Invocation`, `Refusal`, `Invocation.parse`.
-/

namespace SolidityInlay

inductive Command where
  | check (root : Path)
  | types (root : Path)
  | transform (file : Path) (sourceMap : Option Path)
deriving DecidableEq, Repr

structure Invocation where
  command : Command
  verbose : Bool := false
  noCache : Bool := false
  noColor : Bool := false
deriving DecidableEq, Repr

inductive CommandName where
  | check
  | types
  | transform
deriving DecidableEq, Repr

inductive Refusal where
  | help (of : Option CommandName)
  | version
  | wrong (of : Option CommandName) (problem : String)
deriving DecidableEq, Repr

/-! ## Texts -/

def programName : String := "sol-embed"

def programVersion : String := "0.1.0"

namespace CommandName

def text : CommandName → String
  | check => "check"
  | types => "types"
  | transform => "transform"

def ofText? (s : String) : Option CommandName :=
  [check, types, transform].find? fun name => name.text == s

def purpose : CommandName → String
  | check => "Compile every embedded site and report diagnostics"
  | types => "Write the declaration file for named sites, or remove it when there are none"
  | transform => "Print a file with its compiled sites replaced by artifact constructors"

def value : CommandName → String
  | transform => "<FILE>"
  | _ => "[ROOT]"

end CommandName

def usageLine : Option CommandName → String
  | none => "Usage: " ++ programName ++ " [OPTIONS] <COMMAND>\n"
  | some name => "Usage: " ++ programName ++ " " ++ name.text ++ " [OPTIONS] " ++ name.value ++ "\n"

def helpColumns (entries : List (String × String)) : String :=
  let width := (entries.map fun e => e.1.length).foldl max 0
  String.join (entries.map fun (name, meaning) =>
    "  " ++ name ++ String.ofList (List.replicate (width + 2 - name.length) ' ') ++ meaning ++ "\n")

def flagHelp : List (String × String) := [
  ("-v, --verbose", "Verbose output (debug logging, config summary, store stats)"),
  ("    --no-cache", "Skip the persistent artifact store"),
  ("    --no-color", "Disable colored output"),
  ("-h, --help", "Print help")]

def helpText : Option CommandName → String
  | none =>
    "Precompile Solidity embedded in TypeScript tagged templates\n\n" ++ usageLine none ++
      "\nCommands:\n" ++
      helpColumns ([CommandName.check, .types, .transform].map (fun n => (n.text, n.purpose)) ++
        [("help", "Print this message or the help of the given subcommand(s)")]) ++
      "\nOptions:\n" ++ helpColumns (flagHelp ++ [("-V, --version", "Print version")])
  | some name =>
    name.purpose ++ "\n\n" ++ usageLine (some name) ++ "\nArguments:\n" ++
      (match name with
        | .transform => "  <FILE>  \n"
        | _ => "  [ROOT]  Project root [default: .]\n") ++
      "\nOptions:\n" ++
      helpColumns ((match name with
        | .transform => [("    --source-map <PATH>", "Also write a v3 source map here")]
        | _ => []) ++ flagHelp)

/-! ## Reading -/

structure ArgumentReading where
  name : Option CommandName := none
  value : Option String := none
  sourceMap : Option String := none
  verbose : Bool := false
  noCache : Bool := false
  noColor : Bool := false

namespace ArgumentReading

def wrong {α : Type} (r : ArgumentReading) (problem : String) : Except Refusal α :=
  .error (.wrong r.name problem)

def unexpected {α : Type} (r : ArgumentReading) (argument : String) : Except Refusal α :=
  r.wrong ("unexpected argument '" ++ argument ++ "' found")

def flag (r : ArgumentReading) (name : String) (isSet : Bool) (set : ArgumentReading) :
    Except Refusal ArgumentReading :=
  if isSet then r.wrong ("the argument '" ++ name ++ "' cannot be used multiple times") else .ok set

def short (r : ArgumentReading) (argument : String) (c : Char) : Except Refusal ArgumentReading :=
  if c == 'v' then r.flag "--verbose" r.verbose { r with verbose := true }
  else if c == 'h' then .error (.help r.name)
  else if c == 'V' && r.name.isNone then .error .version
  else r.unexpected argument

def long (r : ArgumentReading) (argument : String) : Except Refusal ArgumentReading :=
  if argument == "--verbose" then r.flag argument r.verbose { r with verbose := true }
  else if argument == "--no-cache" then r.flag argument r.noCache { r with noCache := true }
  else if argument == "--no-color" then r.flag argument r.noColor { r with noColor := true }
  else if argument == "--help" then .error (.help r.name)
  else if argument == "--version" && r.name.isNone then .error .version
  else r.unexpected argument

def mapFile (r : ArgumentReading) (path : String) : Except Refusal ArgumentReading :=
  if path.isEmpty then
    r.wrong "a value is required for '--source-map <PATH>' but none was supplied"
  else r.flag "--source-map <PATH>" r.sourceMap.isSome { r with sourceMap := some path }

/-- A word that is no flag: the command, then its value. -/
def word (r : ArgumentReading) (argument : String) : Except Refusal ArgumentReading :=
  match r.name with
  | none =>
    if argument == "help" then .error (.help none)
    else
      match CommandName.ofText? argument with
      | some name => .ok { r with name := some name }
      | none => r.wrong ("unrecognized subcommand '" ++ argument ++ "'")
  | some _ =>
    if r.value.isSome then r.unexpected argument
    else if argument.isEmpty then r.wrong "a value is required but none was supplied"
    else .ok { r with value := some argument }

/-- Reads arguments in order. -/
def read (r : ArgumentReading) : List String → Except Refusal ArgumentReading
  | [] => .ok r
  | "--" :: words => words.foldlM word r
  | "--source-map" :: rest =>
    if r.name != some .transform then r.unexpected "--source-map"
    else
      match rest with
      | path :: rest =>
        if path.startsWith "-" && path != "-" then r.mapFile ""
        else (r.mapFile path).bind fun r => r.read rest
      | [] => r.mapFile ""
  | argument :: rest =>
    if argument.startsWith "--source-map=" then
      if r.name != some .transform then r.unexpected "--source-map"
      else (r.mapFile (argument.drop 13).toString).bind fun r => r.read rest
    else if argument.startsWith "--" then (r.long argument).bind fun r => r.read rest
    else if argument.startsWith "-" && argument != "-" then
      let letters := argument.toList.drop 1
      (letters.foldlM (fun (r : ArgumentReading) c => r.short argument c) r).bind fun r =>
        r.read rest
    else (r.word argument).bind fun r => r.read rest

def finish (r : ArgumentReading) : Except Refusal Invocation := do
  let command ← match r.name with
    | none => .error (.wrong none "a command is required")
    | some .check => .ok (.check ⟨r.value.getD "."⟩)
    | some .types => .ok (.types ⟨r.value.getD "."⟩)
    | some .transform =>
      match r.value with
      | some file => .ok (.transform ⟨file⟩ (r.sourceMap.map Path.mk))
      | none => r.wrong "the following required arguments were not provided:\n  <FILE>"
  .ok ⟨command, r.verbose, r.noCache, r.noColor⟩

end ArgumentReading

def Invocation.parse (arguments : List String) : Except Refusal Invocation := do
  (← ArgumentReading.read {} arguments).finish

end SolidityInlay
