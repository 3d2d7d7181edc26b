import Stencil.CommandLine.Switch
import Stencil.Registry

set_option autoImplicit false

/-!
# Commands

What can be asked on the command line: to render a file or to list the dialects. Words that ask
for neither end the program at once.
-/

namespace Stencil.CommandLine

inductive Exit
  | help
  | version
  | misuse
  deriving Repr, DecidableEq

namespace Exit

def status : Exit → Nat
  | help | version => 0
  | misuse => 2

end Exit

inductive RenderSetting
  | help
  | dialect (name : String)
  | showComments
  | assign (item : String)
  | variablesFile (path : String)
  | config (path : String)
  | output (path : String)
  | debug

structure RenderRequest where
  file : String
  dialect : Option String
  showComments : Bool
  assignments : List String
  variablesFile : Option String
  config : Option String
  output : Option String
  debug : Bool
  deriving Repr, DecidableEq

inductive Command
  | render (request : RenderRequest)
  | listDialects
  deriving Repr, DecidableEq

def helpSpellings : List String := ["-h", "--help"]

def topSwitches : List (Switch Exit) :=
  [⟨helpSpellings, .flag .help⟩, ⟨["-v", "--version"], .flag .version⟩]

def renderSwitches : List (Switch RenderSetting) :=
  [⟨helpSpellings, .flag .help⟩,
    ⟨["--strategy"], .valued .dialect⟩,
    ⟨["--show-comments"], .flag .showComments⟩,
    ⟨["--var"], .valued .assign⟩,
    ⟨["--vars-file"], .valued .variablesFile⟩,
    ⟨["--config"], .valued .config⟩,
    ⟨["-o", "--output"], .valued .output⟩,
    ⟨["--debug"], .flag .debug⟩]

def listSwitches : List (Switch Exit) :=
  [⟨helpSpellings, .flag .help⟩]

namespace RenderRequest

def ofFile (file : String) : RenderRequest where
  file := file
  dialect := none
  showComments := false
  assignments := []
  variablesFile := none
  config := none
  output := none
  debug := false

/-- Takes a setting in. The last one of its kind counts, and assignments add up. -/
def set (r : RenderRequest) : RenderSetting → Except Exit RenderRequest
  | .help => .error .help
  | .dialect name =>
    if Registry.builtin.contains name then .ok { r with dialect := some name }
    else .error .misuse
  | .showComments => .ok { r with showComments := true }
  | .assign item => .ok { r with assignments := r.assignments ++ [item] }
  | .variablesFile path => .ok { r with variablesFile := some path }
  | .config path => .ok { r with config := some path }
  | .output path => .ok { r with output := some path }
  | .debug => .ok { r with debug := true }

end RenderRequest

/-- What is known while the words of a command are read: what they set, whether the operand is
there, and whether there are words that belong to nothing. -/
structure Progress (σ : Type) where
  state : σ
  complete : Bool
  stray : Bool

namespace Progress

def finish {σ : Type} (p : Progress σ) : Except Exit σ :=
  if p.complete && !p.stray then .ok p.state else .error .misuse

def advance {σ α : Type} (set : σ → α → Except Exit σ) (operand : σ → String → Except Exit σ)
    (p : Progress σ) : Event α → Except Exit (Progress σ)
  | .setting a => (set p.state a).map fun s => { p with state := s }
  | .operand w => (operand p.state w).map fun s => { p with state := s, complete := true }
  | .stray => .ok { p with stray := true }
  | .misuse => .error .misuse

end Progress

def readRender (words : List String) : Except Exit RenderRequest := do
  let step := Progress.advance RenderRequest.set fun r w => .ok { r with file := w }
  let p ← (Event.ofWords renderSwitches words).foldlM step ⟨.ofFile "", false, false⟩
  p.finish

def readList (words : List String) : Except Exit Unit := do
  let step := Progress.advance (fun () e => .error e) fun () w =>
    if w = "strategies" then .ok () else .error Exit.misuse
  let p ← (Event.ofWords listSwitches words).foldlM step ⟨(), false, false⟩
  p.finish

def Command.read (name : String) (words : List String) : Except Exit Command :=
  match name with
  | "render" => (readRender words).map .render
  | "list" => (readList words).map fun () => .listDialects
  | _ => .error .misuse

/-- The command that words ask for. Words before the name of the command can only ask for help or
for the version, and any other one among them is a misuse, though what follows is read first. -/
def Command.ofWords (words : List String) : Except Exit Command :=
  if anyAmbiguous topSwitches words then .error .misuse else go false words
where
  finish (stray : Bool) (name : String) (rest : List String) : Except Exit Command := do
    let command ← Command.read name rest
    if stray then .error .misuse else return command
  go (stray : Bool) : List String → Except Exit Command
    | [] => .error .misuse
    | w :: rest =>
      if w = "--" then .error .misuse
      else
        match Step.ofWord topSwitches w rest with
        | .operand => finish stray w rest
        | .settings (e :: _) _ _ => .error e
        | .settings [] _ _ => go stray rest
        | .stray => go true rest
        | .misuse => .error .misuse

end Stencil.CommandLine
