import Stencil.Json.Reader
import Stencil.Yaml.Cursor
import Stencil.Yaml.Fault

set_option autoImplicit false

/-!
# Scalars in a YAML text

Plain, quoted and block scalars, read from a cursor. A line break inside a plain or quoted scalar
is folded into a space, and further breaks are kept. Each loop is bounded by the length of the
text. The scanner of `ruamel.yaml` takes an escape for half of a pair of surrogates as it is; here
such an escape has no value unless the other half follows.
-/

namespace Stencil.Yaml

/-- The line breaks before the next text of a scalar and the cursor behind them, blanks among them
being skipped. There are none where a document separator stands in the way. -/
def furtherBreaks (isBlank : Char → Bool) (fuel : Nat) (c : Cursor) :
    Option (List Char) × Cursor :=
  match fuel with
  | 0 => (none, c)
  | fuel + 1 =>
    if c.atSeparator then (none, c)
    else
      let c := c.skipWhile isBlank
      match c.lineBreak? with
      | some (b, c) =>
        let (bs, c) := furtherBreaks isBlank fuel c
        (bs.map (b :: ·), c)
      | none => (some [], c)

/-- The text that line breaks fold into: a line feed alone is a space, and before further breaks
it is nothing. -/
def folded (first : Char) (further : List Char) : List Char :=
  if first != '\n' then first :: further
  else if further.isEmpty then [' ']
  else further

/-! ### Plain scalars -/

/-- Where a plain scalar stands: whether in a flow collection, and whether question marks belong
to it there. -/
structure PlainPlace where
  flow : Bool
  questions : Bool

def plainLength (p : PlainPlace) : List Char → Nat
  | [] => 0
  | c :: cs =>
    if c == ':' && !isEndOrSpace (cs.headD '\x00') then plainLength p cs + 1
    else if c == '?' && p.questions then plainLength p cs + 1
    else if isEndOrSpace c || c == ':' then 0
    else if p.flow && [',', '?', '[', ']', '{', '}'].contains c then 0
    else plainLength p cs + 1

/-- What separates two stretches of a plain scalar, the cursor behind it, and whether a line ended
there. -/
def plainGap (fuel : Nat) (c : Cursor) : Option (List Char) × Cursor × Bool :=
  let spaces := c.span (· == ' ')
  let c := c.skip spaces.length
  match c.lineBreak? with
  | some (b, c) =>
    let (bs, c) := furtherBreaks (· == ' ') fuel c
    (bs.map (folded b), c, true)
  | none => (if spaces.isEmpty then none else some spaces, c, false)

/-- Reads a plain scalar: its text, the cursor behind it, and whether a line ended behind it.
Lines have to be indented by at least `indent` outside of flow collections. -/
def plain (p : PlainPlace) (indent : Nat) (fuel : Nat) (c : Cursor) :
    List Char × Cursor × Bool :=
  match fuel with
  | 0 => ([], c, false)
  | fuel + 1 =>
    let n := if c.head == '#' then 0 else plainLength p c.rest
    if n = 0 then ([], c, false)
    else
      let text := c.rest.take n
      let (gap, after, broken) := plainGap fuel (c.skip n)
      match gap with
      | none => (text, after, broken)
      | some gap =>
        if after.head == '#' || (!p.flow && after.column < indent) then (text, after, broken)
        else
          match plain p indent fuel after with
          | ([], c, _) => (text, c, broken)
          | (more, c, b) => (text ++ gap ++ more, c, b)

/-! ### Quoted scalars -/

def escape? (c : Char) : Option Char :=
  match c with
  | '0' => some '\x00'
  | 'a' => some '\x07'
  | 'b' => some '\x08'
  | 't' => some '\t'
  | '\t' => some '\t'
  | 'n' => some '\n'
  | 'v' => some '\x0b'
  | 'f' => some '\x0c'
  | 'r' => some '\r'
  | 'e' => some '\x1b'
  | ' ' => some ' '
  | '"' => some '"'
  | '/' => some '/'
  | '\\' => some '\\'
  | 'N' => some '\x85'
  | '_' => some '\xa0'
  | 'L' => some '\u2028'
  | 'P' => some '\u2029'
  | _ => none

def escapeWidth? (c : Char) : Option Nat :=
  match c with
  | 'x' => some 2
  | 'u' => some 4
  | 'U' => some 8
  | _ => none

def hexNumber? (width : Nat) (c : Cursor) : Option Nat :=
  let ds := c.rest.take width
  if ds.length = width then
    (ds.mapM Json.hexValue?).map fun values => values.foldl (fun n d => 16 * n + d) 0
  else none

def maxCodePoint : Nat := 0x7fffffff

def codePoint? (c : Cursor) : Option (Nat × Cursor) :=
  if c.head == '\\' then
    (escapeWidth? (c.peek 1)).bind fun width =>
      (hexNumber? width (c.skip 2)).map fun n => (n, c.skip (2 + width))
  else none

/-- The character of a code point. Half of a pair takes the other half from the cursor, and without
it there is no text to go on with. -/
def pointChar (n : Nat) (c : Cursor) : Except Fault (Char × Cursor) :=
  if maxCodePoint < n then .error (.noValue .codePointTooLarge)
  else if 0x110000 ≤ n then .error (.noValue .codePointOutOfRange)
  else
    match Json.loneChar? n with
    | some x => .ok (x, c)
    | none =>
      match (codePoint? c).bind fun (low, c) => (Json.pairChar? n low).map fun x => (x, c) with
      | some pair => .ok pair
      | none => .error (.noValue .loneSurrogate)

def quoted (double : Bool) (fuel : Nat) (c : Cursor) : Except Fault (List Char × Cursor) :=
  match fuel with
  | 0 => .error .notYaml
  | fuel + 1 =>
    let ch := c.head
    let behind := fun (text : List Char) (c : Cursor) =>
      (quoted double fuel c).map fun (s, c) => (text ++ s, c)
    if c.rest.isEmpty then .error .notYaml
    else if !double && ch == '\'' then
      if c.peek 1 == '\'' then behind ['\''] (c.skip 2) else .ok ([], c.next)
    else if double && ch == '"' then .ok ([], c.next)
    else if double && ch == '\\' then
      if (escapeWidth? (c.peek 1)).isSome then do
        let (n, c) ← Fault.require (codePoint? c)
        let (x, c) ← pointChar n c
        behind [x] c
      else
        match escape? (c.peek 1), c.next.lineBreak? with
        | some x, _ => behind [x] (c.skip 2)
        | none, some (_, c) =>
          match furtherBreaks isSpaceOrTab fuel c with
          | (some bs, c) => behind bs c
          | (none, _) => .error .notYaml
        | none, none => .error .notYaml
    else if isSpaceOrTab ch || (breakChar? ch).isSome then
      let spaces := c.span isSpaceOrTab
      let after := c.skip spaces.length
      match after.lineBreak? with
      | some (b, c) =>
        match furtherBreaks isSpaceOrTab fuel c with
        | (some bs, c) => behind (folded b bs) c
        | (none, _) => .error .notYaml
      | none => behind spaces after
    else behind [ch] c.next

/-! ### Block scalars -/

inductive Chomping
  | clip
  | keep
  | strip

/-- Reads the indicators behind `|` or `>`: how to chomp and how far to indent, in either
order. -/
def blockHeader? (c : Cursor) : Option (Chomping × Option Nat × Cursor) :=
  let chomp := fun (ch : Char) =>
    if ch == '+' then some Chomping.keep else if ch == '-' then some Chomping.strip else none
  let increment := fun (ch : Char) =>
    if ch.isDigit then (if ch == '0' then some none else some (some (ch.toNat - 0x30))) else none
  let finish := fun (how : Chomping) (n : Option Nat) (c : Cursor) =>
    if isGap c.head then c.restOfLine?.map fun c => (how, n, c) else none
  match chomp c.head with
  | some how =>
    match increment (c.peek 1) with
    | some none => none
    | some (some n) => finish how (some n) (c.skip 2)
    | none => finish how none c.next
  | none =>
    match increment c.head with
    | some none => none
    | some (some n) =>
      match chomp (c.peek 1) with
      | some how => finish how (some n) (c.skip 2)
      | none => finish .clip (some n) c.next
    | none => finish .clip none c

/-- What stands before the first line of a block scalar: line breaks, the column of the first of
them, the deepest column behind a blank, and the cursor. -/
structure BlockStart where
  breaks : List Char
  first : Option Nat
  deepest : Nat
  cursor : Cursor

def blockStart (fuel : Nat) (c : Cursor) (first : Option Nat) (deepest : Nat) : BlockStart :=
  match fuel with
  | 0 => ⟨[], first, deepest, c⟩
  | fuel + 1 =>
    if c.head == ' ' then blockStart fuel c.next first (max deepest c.next.column)
    else
      match c.lineBreak? with
      | some (b, after) =>
        let s := blockStart fuel after (first.or (some c.column)) deepest
        { s with breaks := b :: s.breaks }
      | none => ⟨[], first, deepest, c⟩

def BlockStart.isUneven (s : BlockStart) : Bool :=
  match s.first with
  | some n => decide (0 < n) && decide (n < s.deepest)
  | none => false

def blockBreaks (indent fuel : Nat) (c : Cursor) : List Char × Cursor :=
  match fuel with
  | 0 => ([], c)
  | fuel + 1 =>
    let c := c.skip (min (indent - c.column) (c.span (· == ' ')).length)
    match c.lineBreak? with
    | some (b, c) =>
      let (bs, c) := blockBreaks indent fuel c
      (b :: bs, c)
    | none => ([], c)

structure BlockPlace where
  folds : Bool
  indent : Nat
  top : Bool

def BlockPlace.isLine (p : BlockPlace) (c : Cursor) : Bool :=
  c.column == p.indent && !c.rest.isEmpty

/-- What has been read of a block scalar: its text without the last line break, that break if
there was one, and the breaks behind it. -/
structure BlockText where
  text : List Char
  last : List Char
  trailing : List Char
  cursor : Cursor

def blockLines (p : BlockPlace) (fuel : Nat) (c : Cursor) : BlockText :=
  match fuel with
  | 0 => ⟨[], [], [], c⟩
  | fuel + 1 =>
    let line := c.span fun ch => !isEnd ch
    let (last, after) := match (c.skip line.length).lineBreak? with
      | some (b, c) => ([b], c)
      | none => ([], c.skip line.length)
    let (breaks, after) := blockBreaks p.indent fuel after
    if p.isLine after && !(p.top && after.column == 0 && after.atSeparator) then
      let joint :=
        if p.folds && !last.isEmpty && !isSpaceOrTab c.head && !isSpaceOrTab after.head then
          (if breaks.isEmpty then [' '] else [])
        else last
      let more := blockLines p fuel after
      { more with text := line ++ joint ++ breaks ++ more.text }
    else ⟨line, last, breaks, after⟩

def block? (folds : Bool) (parentIndent : Int) (fuel : Nat) (c : Cursor) :
    Option (List Char × Cursor) := do
  let (how, increment, c) ← blockHeader? c
  let least := (parentIndent + 1).toNat
  let (breaks, indent, c) ← match increment with
    | none =>
      let s := blockStart fuel c none 0
      if s.isUneven then none else some (s.breaks, max least s.deepest, s.cursor)
    | some k =>
      let indent := max least 1 + k - 1
      let (breaks, c) := blockBreaks indent fuel c
      some (breaks, indent, c)
  let place : BlockPlace := ⟨folds, indent, increment.isNone && least == 0⟩
  if place.isLine c then
    let b := blockLines place fuel c
    match how with
    | .strip => some (breaks ++ b.text, b.cursor)
    | .clip => some (breaks ++ b.text ++ b.last, b.cursor)
    | .keep => some (breaks ++ b.text ++ b.last ++ b.trailing, b.cursor)
  else
    match how with
    | .keep => some (breaks, c)
    | _ => some ([], c)

end Stencil.Yaml
