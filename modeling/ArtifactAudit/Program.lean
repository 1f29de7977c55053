import ArtifactAudit.CommandLine
import ArtifactAudit.Graph
import ArtifactAudit.Settings

/-!
This module contains the program as a function from arguments and files to an exit code, outputs and
files.
-/

namespace ArtifactAudit

inductive ProgramError where
  | configuration (cause : AuditError)
  | audit (command : Command) (cause : AuditError)
  /-- A path to write to that leads through a parent directory. -/
  | leadsUp (path : Path)
  | notWritten (path : Path) (text : String)
deriving DecidableEq, Repr

def Command.text : Command → String
  | .coordinate text => text
  | .pom file => "dependencies of " ++ file.text
  | .project path _ => "project " ++ path.text

def ProgramError.message : ProgramError → String
  | .configuration cause => cause.message
  | .audit command cause => "Failed to audit " ++ command.text ++ ": " ++ cause.message
  | .leadsUp path => "Path traversal (..) not allowed in output paths: " ++ path.text
  | .notWritten path text => "DOT write failed to " ++ path.text ++ ": " ++ text

structure Outcome where
  exitCode : Nat
  output : String := ""
  error : Option ProgramError := none
  tree : FileTree

namespace Program

def settings (line : CommandLine) (config : Config) : Settings :=
  let settings := Settings.ofConfig config
  { settings with
    repository := (line.value? .repository).map Path.mk <|> settings.repository
    cacheDirectory := (line.value? .cacheDirectory).map Path.mk <|> settings.cacheDirectory
    useCache := settings.useCache && !line.has .noCache
    compile := match line.command with
      | .project _ build => build
      | _ => false }

def target : Command → Target
  | .coordinate text => .coordinate text
  | .pom file => .dependencyList file
  | .project path _ => .project path

def config (line : CommandLine) (tree : FileTree) : Except AuditError Config :=
  match line.value? .config with
  | some file => Config.load tree ⟨file⟩
  | none => (Config.loadFrom tree ⟨"."⟩).map (·.getD {})

def output (line : CommandLine) (config : Config) (report : Report) : String :=
  if line.has .json || config.outputFormat = "json" then report.json.pretty ++ "\n"
  else report.plain

def writeGraph (tree : FileTree) (path : Path) (artifacts : Catalog) :
    Except ProgramError FileTree :=
  if ".." ∈ path.segments.2 then .error (.leadsUp path)
  else
    match tree.write? path (Graph.dot artifacts).toUTF8 with
    | some tree => .ok tree
    | none => .error (.notWritten path "cannot write")

def failureCode : Nat := 2

def run (environment : Environment) (writable : Bool) (line : CommandLine) (tree : FileTree) :
    Outcome :=
  match config line tree with
  | .error cause => { exitCode := failureCode, error := some (.configuration cause), tree }
  | .ok config =>
    match (settings line config).run environment tree (target line.command) with
    | (.error cause, tree) =>
      { exitCode := failureCode, error := some (.audit line.command cause), tree }
    | (.ok resolver, tree) =>
      if !writable then { exitCode := failureCode, tree }
      else
        let report := resolver.report
        let output := output line config report
        let written := match line.value? .dot with
          | some file => writeGraph tree ⟨file⟩ report.artifacts
          | none => .ok tree
        match written with
        | .error error => { exitCode := failureCode, output, error := some error, tree }
        | .ok tree => { exitCode := if report.artifacts.hasIssues then 1 else 0, output, tree }

def version : String := "depaudit " ++ RecordMetadata.currentTool ++ "\n"

def usage : String :=
  String.join <| List.map (· ++ "\n") [
    "Declared-versus-used dependency auditor for JVM artifacts",
    "",
    "Usage: depaudit [OPTIONS] <COMMAND>",
    "",
    "Commands:",
    "  coordinate <COORDINATE>  Audit one artifact",
    "  pom <FILE>               Audit the dependencies that a POM file lists",
    "  project [PATH] [--build] Audit every module of a local project",
    "",
    "Options:",
    "  --json               Output results in JSON format",
    "  --dot <FILE>         Write Graphviz DOT output to a file",
    "  --repository <DIR>   Local repository root",
    "  --cache-dir <DIR>    Summary cache directory",
    "  --no-cache           Neither read nor write the summary cache",
    "  --config <FILE>      Configuration file",
    "  --log-json           Emit logs as JSON",
    "  -v, --verbose        Log resolution progress"]

def start (environment : Environment) (writable : Bool) (arguments : List String)
    (tree : FileTree) : Outcome :=
  match CommandLine.parse arguments with
  | .run line => run environment writable line tree
  | .help => { exitCode := 0, output := usage, tree }
  | .version => { exitCode := 0, output := version, tree }
  | .misuse => { exitCode := failureCode, tree }

end Program

end ArtifactAudit
