import Stencil.Text.Blank

set_option autoImplicit false

/-!
# Lines and their indentation

A text is cut into lines that keep their ends, so that joining the lines gives the text back.
Indentation is moved on whole lines; lines of blanks alone stay as they are.
-/

namespace Stencil.Text

/-- The characters that end a line. A carriage return and a line feed after it end one line. -/
def isLineEnd (c : Char) : Bool :=
  c == '\n' || c == '\r' || c == '\x0b' || c == '\x0c' || c == '\x1c' || c == '\x1d' ||
    c == '\x1e' || c == '\x85' || c == '\u2028' || c == '\u2029'

def extendFirst (c : Char) : List (List Char) → List (List Char)
  | [] => [[c]]
  | l :: ls => (c :: l) :: ls

def lines : List Char → List (List Char)
  | [] => []
  | '\r' :: '\n' :: cs => ['\r', '\n'] :: lines cs
  | c :: cs => if isLineEnd c then [c] :: lines cs else extendFirst c (lines cs)

theorem flatten_extendFirst (c : Char) (ls : List (List Char)) :
    (extendFirst c ls).flatten = c :: ls.flatten := by
  cases ls <;> rfl

theorem flatten_lines (cs : List Char) : (lines cs).flatten = cs := by
  fun_induction lines cs with
  | case1 => rfl
  | case2 cs ih => simp [ih]
  | case3 c cs _ h ih => simp [ih]
  | case4 c cs _ h ih => rw [flatten_extendFirst, ih]

def indentLine (n : Nat) (l : List Char) : List Char :=
  if l.all isBlank then l else List.replicate n ' ' ++ l

/-- Moves every line that is not blank by `n` spaces. -/
def indentLines (n : Nat) (cs : List Char) : List Char :=
  ((lines cs).map (indentLine n)).flatten

/-- The part of a text up to and with its first line feed, and the rest; nothing is cut where
there is no line feed. -/
def firstLine : List Char → List Char × List Char
  | [] => ([], [])
  | '\n' :: cs => (['\n'], cs)
  | c :: cs => (c :: (firstLine cs).1, (firstLine cs).2)

/-- Moves all lines after the first line feed by `n` spaces: the first line already stands where
the text is put. -/
def indentFollowing (n : Nat) (cs : List Char) : List Char :=
  (firstLine cs).1 ++ indentLines n (firstLine cs).2

def dropFinalNewline (cs : List Char) : List Char :=
  if cs.getLast? = some '\n' then cs.dropLast else cs

def normalizeNewlines : List Char → List Char
  | [] => []
  | '\r' :: '\n' :: cs => '\n' :: normalizeNewlines cs
  | c :: cs => (if c == '\r' then '\n' else c) :: normalizeNewlines cs

end Stencil.Text
