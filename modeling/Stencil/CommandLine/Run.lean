import Stencil.CommandLine.Command
import Stencil.Config.Load
import Stencil.Transform
import Stencil.Variables

set_option autoImplicit false

/-!
# Running commands

A command reads files and ends with a report: its status, what it prints, what it logs, and the
files as it leaves them. A failure that the user can mend is part of the report, with the status
`2`, nothing printed and no file changed; any other failure ends the run without a report.
-/

namespace Stencil.CommandLine

structure Report where
  status : Nat
  output : String
  log : List LogEntry
  complaint : Option Failure
  files : FileTree

namespace Report

def levelName : Level → String
  | .debug => "DEBUG"
  | .info => "INFO"
  | .warning => "WARNING"

def isShown (verbose : Bool) (e : LogEntry) : Bool :=
  verbose || e.level == .warning

def logLine (e : LogEntry) : String :=
  "[" ++ levelName e.level ++ "] " ++ e.message ++ "\n"

def complaintLine (f : Failure) : String :=
  String.ofList (Text.trimEnd f.message.toList) ++ "\n"

def errorText (verbose : Bool) (r : Report) : String :=
  String.join ((r.log.filter (isShown verbose)).map logLine) ++
    (match r.complaint with
      | some f => complaintLine f
      | none => "")

end Report

def nonempty? (w : Option String) : Option String :=
  w.filter fun s => !s.isEmpty

namespace RenderRequest

def source (r : RenderRequest) : Path :=
  Path.ofString r.file

/-- The variables of the command line: those of the file, under those that are assigned. -/
def bindings (t : FileTree) (r : RenderRequest) : Except Failure Mapping := do
  let fromFile ← match nonempty? r.variablesFile with
    | some f => Variables.load t (Path.ofString f)
    | none => .ok []
  let assigned ← Variables.ofAssignments r.assignments
  return Mapping.overlay assigned fromFile

def configure (t : FileTree) (r : RenderRequest) : Eval Config := do
  let named := (nonempty? r.config).map Path.ofString
  let config ← Config.load t named r.source.parent
  let bindings ← Eval.ofExcept (r.bindings t)
  return config.override ⟨r.dialect, if r.showComments then some true else none, bindings⟩

/-- Renders a file with a configuration. A file that may only be used as a component gives
nothing. -/
def renderFile (t : FileTree) (source : Path) (config : Config) : Eval (Option String) := do
  if !t.isFile source then throw (.templateNotFound source.text)
  let dialect ← Eval.ofExcept (Registry.builtin.get config.dialect)
  if !config.bindings.isEmpty then
    let frame ← Eval.ofExcept (Frame.expandAll config.bindings)
    modify fun s => s.push frame
  let contents ← Eval.ofExcept (t.readText source)
  let path ← Eval.ofExcept (t.resolve source)
  Transform.output ⟨dialect, config.extension, t⟩ config.showComments (some path.text) contents

def render (t : FileTree) (r : RenderRequest) : Eval (Option String) := do
  let config ← r.configure t
  renderFile t r.source config

def deliver (t : FileTree) (r : RenderRequest) (text : String) (log : List LogEntry) :
    Except Failure Report :=
  match nonempty? r.output with
  | none => .ok ⟨0, text, log, none, t⟩
  | some out => (t.writeText (Path.ofString out) text).map fun t' => ⟨0, "", log, none, t'⟩

def report (t : FileTree) (log : List LogEntry) (f : Failure) : Except Failure Report :=
  if f.reported then .ok ⟨2, "", log, some f, t⟩ else .error f

def run (t : FileTree) (r : RenderRequest) : Except Failure Report :=
  match (r.render t).outcome .empty with
  | (.error f, s) => report t s.log.reverse f
  | (.ok none, s) =>
    let s := s.record .info (r.source.text ++ " is a child-only component, nothing rendered")
    .ok ⟨0, "", s.log.reverse, none, t⟩
  | (.ok (some text), s) =>
    match r.deliver t text s.log.reverse with
    | .error f => report t s.log.reverse f
    | ok => ok

end RenderRequest

namespace Command

def verbose : Command → Bool
  | .render r => r.debug
  | .listDialects => false

def run (t : FileTree) : Command → Except Failure Report
  | .render r => r.run t
  | .listDialects => do
    let names ← Json.ofValue (.list (Registry.builtin.names.map .str))
    return ⟨0, String.ofList names, [], none, t⟩

end Command

def versionText : String := "liquidish 0.1.0\n"

def debugVariable : String := "LIQUIDISH_DEBUG"

end Stencil.CommandLine
