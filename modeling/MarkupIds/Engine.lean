import MarkupIds.Diff.Unified
import MarkupIds.Plan
import MarkupIds.Script.Reviser
import MarkupIds.Sfc.Reader
import MarkupIds.Sfc.Reviser

/-!
# The engine

Takes one file through reading, planning and revising. Every failure ends as a finding on the
result, with the text as it was. Scripts are parsed by the parser that is handed in.
-/

namespace MarkupIds

namespace Framework

def read (f : Framework) (source path : Text) (parser : Script.Parser := .bundled) : Reading :=
  match f with
  | .react => Script.read source path parser
  | .vue => Sfc.read source path

/-- Makes edits in a source; an empty path tells nothing about its dialect. -/
def revise (f : Framework) (source : Text) (edits : List Edit) (path : Text)
    (parser : Script.Parser := .bundled) : Revision :=
  match f with
  | .react => Script.revise source edits path parser
  | .vue => Sfc.revise source edits

def componentName? (f : Framework) (source path : Text) (parser : Script.Parser := .bundled) :
    Option Text :=
  match f with
  | .react => Script.componentName? source path parser
  | .vue => Sfc.componentName? source path

end Framework

/-- Reads a source by its framework's name, or else by its path. -/
def readSource (source path : Text) (framework : Option Text)
    (parser : Script.Parser := .bundled) : Except UnsupportedError Reading := do
  let f ← match framework with
    | some name => Framework.ofName name
    | none =>
      match Framework.ofPath? path with
      | some f => .ok f
      | none => .error (.file path)
  return f.read source path parser

/-- What the engine makes of one file. -/
structure Outcome where
  path : Text
  framework : Option Framework := none
  source : Text
  code : Text
  elements : List Element := []
  diagnostics : List Diagnostic := []
  edits : List Edit := []
  found : Nat := 0
  transformed : Nat := 0
  conflicts : Nat := 0

namespace Outcome

def changed (o : Outcome) : Bool := o.code != o.source

def success (o : Outcome) : Bool := !hasErrors o.diagnostics

def generatedIds (o : Outcome) : List Text := o.edits.map (·.value)

def diff (o : Outcome) (context : Nat) : Text :=
  Diff.unified context o.path o.source o.code

/-- Adds a finding that ends the work on the file. -/
def stop (o : Outcome) (message : Text) : Outcome :=
  { o with diagnostics := o.diagnostics ++ [.failure message] }

end Outcome

/-- Plans and revises a file that was read without errors. -/
def annotate (namer : Namer) (config : Config) (component : Option Text) (f : Framework)
    (reading : Reading) (o : Outcome) (parser : Script.Parser := .bundled) :
    Except Failure Outcome := do
  let taken := existingIds config.attributeName reading.elements
  let named := (component.filter (!·.isEmpty)).or reading.component
  let plan ← Plan.ofElements namer config (config.scope o.path named (some f) taken)
    reading.elements
  let o := { o with diagnostics := o.diagnostics ++ plan.diagnostics, conflicts := plan.conflicts }
  if plan.edits.isEmpty then return o
  let done := f.revise o.source plan.edits o.path parser
  let o := { o with diagnostics := o.diagnostics ++ done.diagnostics }
  if done.failed then return o
  return { o with code := done.code, edits := done.applied, transformed := done.applied.length }

/-- Puts identifiers into one file. -/
def process (namer : Namer) (config : Config) (component : Option Text) (source path : Text)
    (parser : Script.Parser := .bundled) : Outcome :=
  let o : Outcome := { path, source, code := source }
  match Framework.forPath? path with
  | none => o.stop (UnsupportedError.message (.file path))
  | some f =>
    let o := { o with framework := some f }
    if !config.frameworks.contains f.name then
      o.stop ("Framework '".toList ++ f.name ++ "' is not enabled".toList)
    else
      let reading := f.read source path parser
      let o := { o with
        elements := reading.elements
        diagnostics := reading.diagnostics
        found := reading.elements.length }
      if reading.failed then o
      else match annotate namer config component f reading o parser with
        | .ok o => o
        | .error failure => o.stop ("Processing error: ".toList ++ failure.message)

/-- Runs a file several times, each time on what the last run made of it. -/
def processRepeatedly (namer : Namer) (config : Config) (component : Option Text) (path : Text)
    (passes : Nat) (source : Text) (parser : Script.Parser := .bundled) : List Outcome :=
  match passes with
  | 0 => []
  | passes + 1 =>
    let o := process namer config component source path parser
    o :: processRepeatedly namer config component path passes o.code parser

/-- Files by path: a path that is given again keeps its place and takes the new text. -/
def filesByPath (files : List (Text × Text)) : List (Text × Text) :=
  files.foldl (fun acc (path, source) => Attributes.set acc path source) []

/-- Puts identifiers into several files, each on its own. -/
def processAll (namer : Namer) (config : Config) (files : List (Text × Text))
    (parser : Script.Parser := .bundled) : List (Text × Outcome) :=
  (filesByPath files).map fun (path, source) =>
    (path, process namer config none source path parser)

end MarkupIds
