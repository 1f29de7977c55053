import ArtifactAudit.Error
import ArtifactAudit.FileTree
import ArtifactAudit.Toml.Parser

/-!
This module contains configurations, which set by a TOML document what an audit reads, what it
writes and which dependencies it follows.
-/

namespace ArtifactAudit

def defaultArtifactScopes : List String := ["compile", "runtime"]

def defaultProjectScopes : List String := ["compile", "provided"]

structure Config.Cache where
  enabled : Option Bool := none
deriving DecidableEq, Repr

structure Config.Analysis where
  skipDebug : Option Bool := none
deriving DecidableEq, Repr

structure Config.Scopes where
  artifact : Option (List String) := none
  project : Option (List String) := none
deriving DecidableEq, Repr

structure Config.Output where
  format : Option String := none
deriving DecidableEq, Repr

structure Config where
  repository : Option Path := none
  cacheDirectory : Option Path := none
  cache : Option Config.Cache := none
  analysis : Option Config.Analysis := none
  scopes : Option Config.Scopes := none
  output : Option Config.Output := none
deriving DecidableEq, Repr

namespace Config

def cacheEnabled (config : Config) : Bool :=
  (config.cache.bind (·.enabled)).getD true

def skipDebug (config : Config) : Bool :=
  (config.analysis.bind (·.skipDebug)).getD false

def artifactScopes (config : Config) : List String :=
  (config.scopes.bind (·.artifact)).getD defaultArtifactScopes

def projectScopes (config : Config) : List String :=
  (config.scopes.bind (·.project)).getD defaultProjectScopes

def outputFormat (config : Config) : String :=
  (config.output.bind (·.format)).getD "plain"

def fields? (names : List String) : Toml → Option (List (Option Toml))
  | .table _ entries =>
    if entries.all fun entry => names.contains entry.1 then
      some (names.map fun name => entries.lookup name)
    else none
  -- An array gives the fields in their order.
  | .array items =>
    if items.length < names.length then none else some ((items.take names.length).map some)
  | _ => none

def optional? {α : Type} (read : Toml → Option α) : Option Toml → Option (Option α)
  | none => some none
  | some value => (read value).map some

def text? : Toml → Option String
  | .text value => some value
  | _ => none

def flag? : Toml → Option Bool
  | .flag value => some value
  | _ => none

def texts? : Toml → Option (List String)
  | .array items => items.mapM text?
  | _ => none

def Cache.ofToml? (value : Toml) : Option Cache := do
  match ← fields? ["enabled"] value with
  | [enabled] => return ⟨← optional? flag? enabled⟩
  | _ => none

def Analysis.ofToml? (value : Toml) : Option Analysis := do
  match ← fields? ["skip_debug"] value with
  | [skipDebug] => return ⟨← optional? flag? skipDebug⟩
  | _ => none

def Scopes.ofToml? (value : Toml) : Option Scopes := do
  match ← fields? ["artifact", "project"] value with
  | [artifact, project] => return ⟨← optional? texts? artifact, ← optional? texts? project⟩
  | _ => none

def Output.ofToml? (value : Toml) : Option Output := do
  match ← fields? ["format"] value with
  | [format] => return ⟨← optional? text? format⟩
  | _ => none

def ofEntries? (entries : Toml.Entries) : Option Config := do
  let names := ["repository", "cache_dir", "cache", "analysis", "scopes", "output"]
  match ← fields? names (.table .header entries) with
  | [repository, cacheDirectory, cache, analysis, scopes, output] =>
    return {
      repository := (← optional? text? repository).map Path.mk
      cacheDirectory := (← optional? text? cacheDirectory).map Path.mk
      cache := ← optional? Cache.ofToml? cache
      analysis := ← optional? Analysis.ofToml? analysis
      scopes := ← optional? Scopes.ofToml? scopes
      output := ← optional? Output.ofToml? output }
  | _ => none

def parse (path : Path) (text : String) : Except AuditError Config :=
  match (Toml.parse? text).bind ofEntries? with
  | none => .error (.config path (.other "not a configuration"))
  | some config =>
    match config.output.bind (·.format) with
    | none => .ok config
    | some format =>
      if format = "plain" || format = "json" then .ok config
      else .error (.config path (.unknownFormat format))

def load (tree : FileTree) (path : Path) : Except AuditError Config :=
  match tree.readText? path with
  | none => .error (.io path "not a readable text")
  | some text => parse path text

def fileName : String := "depaudit.toml"

def loadFrom (tree : FileTree) (directory : Path) : Except AuditError (Option Config) :=
  let path := directory.child fileName
  if tree.exists? path then (load tree path).map some else .ok none

end Config

end ArtifactAudit
