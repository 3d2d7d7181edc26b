set_option autoImplicit false

/-!
# Places in a YAML text

A cursor is what is left of a text together with the place it stands at. Behind the end of the
text there are null characters, which no YAML text holds. There are more line breaks than there
are ways to begin a line: only a line feed puts the cursor back to the first column. The reader of
`ruamel.yaml` counts in this way, and refuses the same characters.
-/

namespace Stencil.Yaml

structure Cursor where
  rest : List Char
  index : Nat
  line : Nat
  column : Nat

def isAllowed (c : Char) : Bool :=
  let n := c.toNat
  n == 0x09 || n == 0x0a || n == 0x0d || (0x20 ≤ n && n ≤ 0x7e) || n == 0x85 ||
    (0xa0 ≤ n && n ≤ 0xd7ff) || (0xe000 ≤ n && n ≤ 0xfffd) || 0x10000 ≤ n

/-- A line break that ends any text, or the end of the text. -/
def isEnd (c : Char) : Bool :=
  c == '\n' || c == '\r' || c == '\x85' || c == '\x00'

def isSpaceOrTab (c : Char) : Bool :=
  c == ' ' || c == '\t'

def isEndOrSpace (c : Char) : Bool :=
  isEnd c || isSpaceOrTab c

def breakChar? (c : Char) : Option Char :=
  if c == '\n' || c == '\r' || c == '\x85' then some '\n'
  else if c == '\u2028' || c == '\u2029' then some c
  else none

/-- A line break of any kind, a space or the end of the text. -/
def isGap (c : Char) : Bool :=
  c == '\x00' || c == ' ' || (breakChar? c).isSome

namespace Cursor

def start (cs : List Char) : Cursor := ⟨cs, 0, 0, 0⟩

def peek (c : Cursor) (k : Nat) : Char :=
  (c.rest.drop k).headD '\x00'

def head (c : Cursor) : Char :=
  c.rest.headD '\x00'

def next (c : Cursor) : Cursor :=
  match c.rest with
  | [] => c
  | ch :: rest =>
    if ch == '\n' || (ch == '\r' && rest.head? != some '\n') then
      ⟨rest, c.index + 1, c.line + 1, 0⟩
    else if ch == '\ufeff' then ⟨rest, c.index + 1, c.line, c.column⟩
    else ⟨rest, c.index + 1, c.line, c.column + 1⟩

def skip : Nat → Cursor → Cursor
  | 0, c => c
  | k + 1, c => skip k c.next

def lineBreak? (c : Cursor) : Option (Char × Cursor) :=
  (breakChar? c.head).map fun b =>
    (b, if c.head == '\r' && c.peek 1 == '\n' then c.skip 2 else c.next)

def skipWhile (p : Char → Bool) (c : Cursor) : Cursor :=
  c.skip (c.rest.takeWhile p).length

def span (p : Char → Bool) (c : Cursor) : List Char :=
  c.rest.takeWhile p

def skipComment (c : Cursor) : Cursor :=
  if c.head == '#' then c.skipWhile fun ch => !isEnd ch else c

def restOfLine? (c : Cursor) : Option Cursor :=
  let c := (c.skipWhile (· == ' ')).skipComment
  if c.rest.isEmpty then some c
  else if isEnd c.head then c.lineBreak?.map Prod.snd
  else none

def atSeparator (c : Cursor) : Bool :=
  (c.rest.take 3 == ['-', '-', '-'] || c.rest.take 3 == ['.', '.', '.']) && isEndOrSpace (c.peek 3)

end Cursor

end Stencil.Yaml
