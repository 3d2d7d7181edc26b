import Stencil.Failure
import Stencil.Path
import Stencil.Text.Lines

set_option autoImplicit false

/-!
# File trees

The files that a compilation can see, by the names from the root down to each of them, and the
directory that relative paths start from. Every directory on the way to a file, to a listed
directory or to the working directory exists. Names may be of any length.
-/

namespace Stencil

structure FileTree where
  files : List (List String × List UInt8)
  directories : List (List String)
  workingDirectory : List String

inductive FileTree.Entry
  | directory
  | file (contents : List UInt8)

namespace FileTree

def isDirectoryAt (t : FileTree) (names : List String) : Bool :=
  names.isEmpty || names.isPrefixOf t.workingDirectory ||
    t.directories.any names.isPrefixOf ||
    t.files.any fun f => names.isPrefixOf f.1 && names.length < f.1.length

def entry? (t : FileTree) (names : List String) : Option Entry :=
  match t.files.find? fun f => f.1 == names with
  | some (_, contents) => some (.file contents)
  | none => if t.isDirectoryAt names then some .directory else none

/-- Follows names from a directory, two dots leading back up. -/
def follow (t : FileTree) (start : List String) : List String → Option (List String)
  | [] => some start
  | part :: parts =>
    match t.entry? start with
    | some .directory => t.follow (if part = ".." then start.dropLast else start ++ [part]) parts
    | _ => none

def startOf (t : FileTree) (p : Path) : List String :=
  if p.isAbsolute then [] else t.workingDirectory

/-- The names from the root that a path leads to, if the way there exists. -/
def locate (t : FileTree) (p : Path) : Option (List String) :=
  t.follow (t.startOf p) p.parts

def lookup? (t : FileTree) (p : Path) : Option Entry :=
  (t.locate p).bind t.entry?

def holds (t : FileTree) (p : Path) : Bool :=
  (t.lookup? p).isSome

def isFile (t : FileTree) (p : Path) : Bool :=
  match t.lookup? p with
  | some (.file _) => true
  | _ => false

/-- The absolute form of a path, two dots taken back by name alone. No name holds a null. -/
def resolve (t : FileTree) (p : Path) : Except Failure Path :=
  if p.hasNull then .error .nullInPath
  else .ok ⟨"/", Path.collapse (t.startOf p ++ p.parts)⟩

/-- The text that bytes hold, with all line ends as line feeds. -/
def textOf (contents : List UInt8) : Except Failure String :=
  match Text.decodeUtf8 contents with
  | .ok cs => .ok (String.ofList (Text.normalizeNewlines cs))
  | .error fault => .error (.undecodable fault)

def readText (t : FileTree) (p : Path) : Except Failure String :=
  match t.lookup? p with
  | some (.file contents) => textOf contents
  | some .directory => .error (.isADirectory p.text)
  | none => .error (.noSuchFile p.text)

def insert (t : FileTree) (names : List String) (contents : List UInt8) : FileTree :=
  { t with files := t.files.filter (fun f => f.1 != names) ++ [(names, contents)] }

/-- Whether the way along some names leads through a file. -/
def blocked (t : FileTree) (start : List String) : List String → Bool
  | [] => false
  | part :: parts =>
    match t.entry? start with
    | some .directory => t.blocked (if part = ".." then start.dropLast else start ++ [part]) parts
    | some (.file _) => true
    | none => false

/-- Writes a file where its directory exists. -/
def writeText (t : FileTree) (p : Path) (text : String) : Except Failure FileTree :=
  if p.hasNull then .error .nullInPath
  else
    match t.locate p with
    | none =>
      if t.blocked (t.startOf p) p.parts then .error (.notADirectory p.text)
      else .error (.noSuchFile p.text)
    | some names =>
      match t.entry? names with
      | some .directory => .error (.isADirectory p.text)
      | _ => .ok (t.insert names text.toUTF8.toList)

end FileTree

end Stencil
