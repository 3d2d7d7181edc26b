import Stencil.CommandLine.Run

set_option autoImplicit false

/-!
# The program

Takes the words of the command line, reads the files that the command needs, runs it and does what
its report says. Directories are read when a component is looked for in them.
-/

namespace Stencil.Program

open CommandLine

def usage : String :=
  "usage: liquidish [-h] [-v] \x7brender,list\x7d ...\n\n" ++
  "  render FILE [--strategy NAME] [--show-comments] [--var KEY=VALUE]... [--vars-file FILE]\n" ++
  "              [--config FILE] [-o OUT] [--debug]\n" ++
  "  list strategies\n"

/-- The files known so far, and the directories that have been read. -/
structure Known where
  files : FileTree
  directories : List (List String)

def Known.addName (k : Known) (names : List String) : Known :=
  { k with files := { k.files with directories := names :: k.files.directories } }

def Known.addFile (k : Known) (p : Path) : IO Known := do
  let .ok ⟨_, names⟩ := k.files.resolve p | return k
  try
    let contents ← IO.FS.readBinFile p.text
    return { k with files := k.files.insert names contents.toList }
  catch _ => return k

def Known.addDirectory (k : Known) (p : Path) : IO Known := do
  let .ok ⟨_, names⟩ := k.files.resolve p | return k
  let place := (← IO.currentDir) / p.text
  let mut known := { k with directories := names :: k.directories }
  if ← place.isDir then
    known := known.addName names
    for entry in ← place.readDir do
      if ← entry.path.isDir then known := known.addName (names ++ [entry.fileName])
      else known ← known.addFile (p.join ⟨"", [entry.fileName]⟩)
  return known

def Known.start (r : RenderRequest) : IO Known := do
  let here := Path.ofString (← IO.currentDir).toString
  let mut known : Known := ⟨⟨[], [], here.parts⟩, []⟩
  known ← known.addDirectory r.source.parent
  if let .ok dir := known.files.resolve r.source.parent then
    for above in Config.upwards dir do
      known ← known.addFile (above.join ⟨"", [Config.fileName]⟩)
  for word in (nonempty? r.config).toList ++ (nonempty? r.variablesFile).toList do
    known ← known.addFile (Path.ofString word)
  if let some out := nonempty? r.output then
    known ← known.addDirectory (Path.ofString out).parent
  return known

/-- The directory in which a component was looked for in vain. -/
def Known.missing? (k : Known) : Except Failure Report → Option Path
  | .ok ⟨_, _, _, some (.componentNotFound component current), _⟩ =>
    match k.files.resolve ((Component.baseOf k.files current).join (Path.ofString component)) with
    | .ok p => if k.directories.contains p.parent.parts then none else some p.parent
    | .error _ => none
  | _ => none

/-- Renders, reading further directories as long as components are missing. -/
partial def render (r : RenderRequest) (k : Known) : IO (Known × Except Failure Report) := do
  let result := r.run k.files
  match k.missing? result with
  | some dir => render r (← k.addDirectory dir)
  | none => return (k, result)

def finish (before : FileTree) (verbose : Bool) : Except Failure Report → IO UInt32
  | .error f => do
    IO.eprintln f.message
    return 1
  | .ok report => do
    for (names, contents) in report.files.files do
      unless before.files.contains (names, contents) do
        IO.FS.writeBinFile (Path.text ⟨"/", names⟩) ⟨contents.toArray⟩
    IO.print report.output
    IO.eprint (report.errorText verbose)
    return report.status.toUInt32

def run (words : List String) : IO UInt32 := do
  let always := (nonempty? (← IO.getEnv debugVariable)).isSome
  match Command.ofWords words with
  | .error e =>
    match e with
    | .help => IO.print usage
    | .version => IO.print versionText
    | .misuse => IO.eprint usage
    return e.status.toUInt32
  | .ok (.render r) =>
    let (known, result) ← render r (← Known.start r)
    finish known.files (always || r.debug) result
  | .ok .listDialects =>
    let nothing : FileTree := ⟨[], [], []⟩
    finish nothing always (Command.listDialects.run nothing)

end Stencil.Program

def main (words : List String) : IO UInt32 :=
  Stencil.Program.run words
