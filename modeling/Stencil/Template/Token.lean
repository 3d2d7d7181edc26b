import Stencil.Failure
import Stencil.Template.Lexeme

set_option autoImplicit false

/-!
# Tokens

A token is a lexeme in its place: where it starts, and how far its line is indented there. The
trim marks have been obeyed: a text next to a mark has lost the blanks on that side, and what
stands next to a mark counts as not indented.
-/

namespace Stencil.Template

structure Token where
  kind : String
  indentation : Nat
  trimBefore : Bool
  trimAfter : Bool
  parameters : Option String
  value : Option String
  position : Nat
  deriving Repr, DecidableEq

/-- The leading blanks of the line that holds an offset, counted up to the offset. -/
def indentationAt (text : List Char) (offset : Nat) : Nat :=
  let line := ((text.take offset).reverse.takeWhile (· != '\n')).reverse
  (line.takeWhile Text.isBlank).length

/-- How the current line begins: its leading blanks so far, and whether they have ended. -/
structure Margin where
  blanks : Nat
  ended : Bool

namespace Margin

def start : Margin := ⟨0, false⟩

def step (m : Margin) (c : Char) : Margin :=
  if c == '\n' then start
  else if m.ended || !Text.isBlank c then ⟨m.blanks, true⟩
  else ⟨m.blanks + 1, false⟩

end Margin

namespace Token

def isText (t : Token) : Bool :=
  t.kind == "text"

def ofLexeme (position indentation : Nat) : Lexeme → Token
  | .text value => ⟨"text", indentation, false, false, none, some (String.ofList value), position⟩
  | .interpolation before after name =>
    ⟨"variable", indentation, before, after, some (String.ofList name), none, position⟩
  | .tag before after name parameters =>
    ⟨canonicalName (String.ofList name), indentation, before, after,
      parameters.map String.ofList, none, position⟩

def place (position : Nat) (margin : Margin) : List (Lexeme × List Char) → List Token
  | [] => []
  | (lexeme, source) :: rest =>
    ofLexeme position margin.blanks lexeme ::
      place (position + source.length) (source.foldl Margin.step margin) rest

def trimValue (before after : Bool) (value : String) : String :=
  let cs := value.toList
  let cs := if before then Text.trimStart cs else cs
  String.ofList (if after then Text.trimEnd cs else cs)

/-- Obeys the marks of the neighbours: `before` if the previous token trims after itself, `after`
if the next one trims before itself. A tag that is called `text` has no text to trim. -/
def obey (before after : Bool) (t : Token) : Except Failure Token :=
  let indentation := if t.trimBefore || before then 0 else t.indentation
  if t.isText && (before || after) then
    match t.value with
    | some value => .ok { t with indentation, value := some (trimValue before after value) }
    | none => .error .missingPart
  else .ok { t with indentation }

def obeyAll (before : Bool) : List Token → Except Failure (List Token)
  | [] => .ok []
  | t :: ts => do
    let t' ← t.obey before ((ts.head?.map trimBefore).getD false)
    let ts' ← obeyAll t.trimAfter ts
    return t' :: ts'

def ofText (tags : List Tag) (text : String) : Except Failure (List Token) :=
  let names := tags.map fun t => t.name.toList
  obeyAll false (place 0 .start (Lexeme.all names text.toList))

def quoteOption : Option String → String
  | some s => quote s
  | none => "None"

def describe (t : Token) : String :=
  "Token(" ++ t.kind ++ ", " ++ quoteOption (if t.isText then t.value else t.parameters) ++
    ", indent=" ++ toString t.indentation ++ ")"

end Token

end Stencil.Template
