set_option autoImplicit false

/-!
# Paths

A path is a root and the names below it. Empty names and single dots are dropped when a path is
read; two dots are kept, since what they mean depends on the files. A path that begins with
exactly two slashes keeps both.
-/

namespace Stencil

structure Path where
  root : String
  parts : List String
  deriving Repr, DecidableEq

namespace Path

def splitAt (sep : Char) : List Char → List (List Char)
  | [] => [[]]
  | c :: cs =>
    if c == sep then [] :: splitAt sep cs
    else
      match splitAt sep cs with
      | [] => [[c]]
      | part :: parts => (c :: part) :: parts

def rootOf (cs : List Char) : String :=
  match (cs.takeWhile (· == '/')).length with
  | 0 => ""
  | 2 => "//"
  | _ => "/"

def ofString (s : String) : Path where
  root := rootOf s.toList
  parts := ((splitAt '/' s.toList).map String.ofList).filter fun p => p != "" && p != "."

def text (p : Path) : String :=
  if p.parts.isEmpty then (if p.root.isEmpty then "." else p.root)
  else p.root ++ "/".intercalate p.parts

def isAbsolute (p : Path) : Bool :=
  !p.root.isEmpty

def hasNull (p : Path) : Bool :=
  p.parts.any fun part => part.toList.contains '\x00'

def name (p : Path) : String :=
  p.parts.getLast?.getD ""

def parent (p : Path) : Path :=
  { p with parts := p.parts.dropLast }

/-- The second path as seen from the first. -/
def join (p q : Path) : Path :=
  if q.isAbsolute then q else { p with parts := p.parts ++ q.parts }

/-- The end of the last name from its last dot on, unless the name begins or ends with that
dot. -/
def suffix (p : Path) : String :=
  let cs := p.name.toList
  let tail := (cs.reverse.takeWhile (· != '.')).reverse
  if tail.isEmpty || cs.length ≤ tail.length + 1 then "" else String.ofList ('.' :: tail)

/-- Takes two dots as the way to the parent of what stands before them. -/
def collapse (parts : List String) : List String :=
  parts.foldl (fun done part => if part = ".." then done.dropLast else done ++ [part]) []

end Path

end Stencil
