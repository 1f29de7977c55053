import ArtifactAudit.Path

/-!
This module contains the command line: the options and commands that may be given, and the reading
of arguments.
-/

namespace ArtifactAudit

inductive Command where
  | coordinate (text : String)
  | pom (file : Path)
  | project (path : Path) (build : Bool)
deriving DecidableEq, Repr

inductive ValueOption where
  | dot
  | repository
  | cacheDirectory
  | config
deriving DecidableEq, Repr

inductive FlagOption where
  | json
  | noCache
  | logJson
  | verbose
  | build
deriving DecidableEq, Repr

inductive CommandName where
  | coordinate
  | pom
  | project
deriving DecidableEq, Repr

structure Arguments where
  values : List (ValueOption × String) := []
  flags : List FlagOption := []
  plain : Option String := none
  /-- The last option with its value, as long as no argument after it has been read. -/
  waiting : Option (ValueOption × String) := none
deriving DecidableEq, Repr

/--
A command line. Options behind the name of the command count more than the same ones in front of it.
-/
structure CommandLine where
  command : Command
  values : List (ValueOption × String)
  flags : List FlagOption
deriving DecidableEq, Repr

inductive Request where
  | run (line : CommandLine)
  | help
  | version
  | misuse
deriving DecidableEq, Repr

namespace CommandLine

def valueOption? : String → Option ValueOption
  | "dot" => some .dot
  | "repository" => some .repository
  | "cache-dir" => some .cacheDirectory
  | "config" => some .config
  | _ => none

def flagOption? : String → Option FlagOption
  | "json" => some .json
  | "no-cache" => some .noCache
  | "log-json" => some .logJson
  | "verbose" => some .verbose
  | "build" => some .build
  | _ => none

def ValueOption.mayBeEmpty : ValueOption → Bool
  | .dot => true
  | _ => false

def commandName? : String → Option CommandName
  | "coordinate" => some .coordinate
  | "pom" => some .pom
  | "project" => some .project
  | _ => none

inductive Stop where
  | help
  | version
  | misuse
deriving DecidableEq, Repr

def addValue (found : Arguments) (option : ValueOption) (value : String) : Except Stop Arguments :=
  if (found.values.lookup option).isSome || (value.isEmpty && !ValueOption.mayBeEmpty option) then
    .error .misuse
  else .ok { found with values := found.values ++ [(option, value)] }

def settle (found : Arguments) : Except Stop Arguments :=
  match found.waiting with
  | none => .ok found
  | some (option, value) => addValue { found with waiting := none } option value

/--
Adds an option without a value, which must be the first one of its kind. Only projects are built.
-/
def addFlag (name : Option CommandName) (found : Arguments) (flag : FlagOption) :
    Except Stop Arguments :=
  if flag ∈ found.flags || (flag = .build && name ≠ some .project) then .error .misuse
  else .ok { found with flags := found.flags ++ [flag] }

def addLetters (name : Option CommandName) (found : Arguments) : List Char → Except Stop Arguments
  | [] => .ok found
  | 'v' :: rest => do addLetters name (← addFlag name found .verbose) rest
  | 'h' :: _ => .error .help
  | 'V' :: _ => .error (if name.isNone then .version else .misuse)
  | _ => .error .misuse

def addPlain (name : Option CommandName) (found : Arguments) (argument : String) :
    Except Stop Arguments :=
  if found.plain.isSome || (argument.isEmpty && name ≠ some .coordinate) then .error .misuse
  else .ok { found with plain := some argument }

def isPlain (argument : String) : Bool :=
  !Text.startsWith argument "-" || argument = "-"

/--
Reads the arguments of one level, which are those of a command if a name is given. In front of it
the first plain argument ends the level, and what waits is left so. The rest are the arguments that
the level leaves.
-/
def level (name : Option CommandName) :
    (found : Arguments) → List String → Except Stop (Arguments × List String)
  | found, [] => .ok (found, [])
  | found, argument :: rest =>
    if name.isNone && isPlain argument then .ok (found, argument :: rest)
    else do
      let found ← settle found
      if isPlain argument then level name (← addPlain name found argument) rest
      else if argument = "--" then
        if name.isNone then .error .misuse
        else return (← rest.foldlM (addPlain name) found, [])
      else if Text.startsWith argument "--" then
        let body := String.ofList (argument.toList.drop 2)
        match Text.cutFirst? '=' body with
        | some (option, value) =>
          match valueOption? option with
          | some option => level name (← addValue found option value) rest
          | none => .error .misuse
        | none =>
          match valueOption? body, flagOption? body, rest with
          | some option, _, value :: rest =>
            -- The next argument is the value, unless it looks like an option.
            if isPlain value then level name { found with waiting := some (option, value) } rest
            else .error .misuse
          | some _, _, [] => .error .misuse
          | none, some flag, rest => level name (← addFlag name found flag) rest
          | none, none, _ =>
            .error (if body = "help" then .help
              else if body = "version" && name.isNone then .version else .misuse)
      else level name (← addLetters name found (argument.toList.drop 1)) rest

def command? (arguments : Arguments) : CommandName → Option Command
  | .coordinate => arguments.plain.map .coordinate
  | .pom => arguments.plain.map fun file => .pom ⟨file⟩
  | .project => some (.project ⟨arguments.plain.getD "."⟩ (.build ∈ arguments.flags))

def commandLevel (name : CommandName) (arguments : List String) :
    Except Stop (Arguments × Command) := do
  let own ← settle (← level (some name) {} arguments).1
  match command? own name with
  | some command => return (own, command)
  | none => .error .misuse

def named (top : Arguments) (name : String) (rest : List String) : Except Stop CommandLine :=
  match name, commandName? name with
  | "help", _ =>
    match rest with
    | [] => .error .help
    | [topic] =>
      .error (if topic = "help" || (commandName? topic).isSome then .help else .misuse)
    | _ => .error .misuse
  | _, some name => do
    let (own, command) ← commandLevel name rest
    let top ← settle top
    return ⟨command, own.values ++ top.values, own.flags ++ top.flags⟩
  | _, none => .error .misuse

def parse (arguments : List String) : Request :=
  let line := do
    match ← level none {} arguments with
    | (top, name :: rest) => named top name rest
    | (_, []) => .error .misuse
  match line with
  | .ok line => .run line
  | .error .help => .help
  | .error .version => .version
  | .error .misuse => .misuse

def value? (line : CommandLine) (option : ValueOption) : Option String :=
  line.values.lookup option

def has (line : CommandLine) (flag : FlagOption) : Bool :=
  flag ∈ line.flags

end CommandLine

end ArtifactAudit
