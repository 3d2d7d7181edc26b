import Stencil.Yaml.Property

set_option autoImplicit false

/-!
# YAML tokens

Indentation becomes tokens: a block that begins deeper than what surrounds it is opened, and it
is closed where a line begins less deep. Whether a node is a key is known only when the colon
behind it is met; the key token is then put in front of the node, so each place where a key may
have begun is remembered until its line ends. Tokens are read one by one as they are asked for,
and a token is given away only when it is sure that no key token comes before it. This is the way of
the scanner of `ruamel.yaml`, down to the keys that it gives up after 1024 characters.
-/

namespace Stencil.Yaml

inductive Token
  | directive (d : Directive)
  | documentStart
  | documentEnd
  | sequenceStart
  | mappingStart
  | blockEnd
  | flowSequenceStart
  | flowSequenceEnd
  | flowMappingStart
  | flowMappingEnd
  | flowEntry
  | blockEntry
  | key
  | value
  | link (name : String)
  | anchor (name : String)
  | tag (name : TagName)
  | scalar (text : String) (plain : Bool)
  | textEnd
  deriving Repr, DecidableEq

/-- A place where a key may have begun: the number of the token it would stand in front of, its
position, and whether the indentation demands that it is a key. -/
structure KeyPlace where
  token : Nat
  index : Nat
  line : Nat
  column : Nat
  required : Bool

/-- The state of reading tokens. `queue` holds the tokens that are read but not given away, and
`taken` the number of those that are. `flow` holds the brackets that are open, innermost first,
and `keys` the place of a possible key for every number of open brackets. `limit` is more than
the number of characters, and bounds every loop. -/
structure Reading where
  cursor : Cursor
  queue : List Token
  taken : Nat
  flow : List Char
  indent : Int
  outer : List Int
  keyAllowed : Bool
  keys : List (Nat × KeyPlace)
  minor : Nat
  finished : Bool
  limit : Nat

namespace Reading

def standardMinor : Nat := 2

def start (cs : List Char) : Reading :=
  ⟨.start cs, [], 0, [], -1, [], true, [], standardMinor, false, cs.length + 2⟩

def old (r : Reading) : Bool :=
  r.minor == 1

def recent (r : Reading) : Bool :=
  1 < r.minor

def level (r : Reading) : Nat :=
  r.flow.length

def inFlow (r : Reading) : Bool :=
  !r.flow.isEmpty

def add (t : Token) (r : Reading) : Reading :=
  { r with queue := r.queue ++ [t] }

/-- Puts a token in front of one that is not given away yet. -/
def insert (number : Nat) (t : Token) (r : Reading) : Reading :=
  { r with queue := r.queue.insertIdx (number - r.taken) t }

def move (k : Nat) (r : Reading) : Reading :=
  { r with cursor := r.cursor.skip k }

def skipBlanks (fuel : Nat) (r : Reading) : Reading :=
  match fuel with
  | 0 => r
  | fuel + 1 =>
    let c := r.cursor.skipWhile fun ch => ch == ' ' || (r.inFlow && ch == '\t')
    let c := c.skipComment
    match c.lineBreak? with
    | some (_, c) =>
      skipBlanks fuel { r with cursor := c, keyAllowed := r.keyAllowed || !r.inFlow }
    | none => { r with cursor := c }

def skipMark (r : Reading) : Reading :=
  if r.cursor.index == 0 && r.cursor.head == '\ufeff' then r.move 1 else r

/-- How far behind its beginning the colon of a key may stand. -/
def maxKeyLength : Nat := 1024

/-- Forgets the places whose line is over. -/
def forgetStale (r : Reading) : Except Fault Reading :=
  let stale := fun (k : KeyPlace) =>
    k.line != r.cursor.line || maxKeyLength < r.cursor.index - k.index
  if r.keys.any fun (_, k) => stale k && k.required then .error .notYaml
  else .ok { r with keys := r.keys.filter fun (_, k) => !stale k }

def forgetKey (r : Reading) : Except Fault Reading :=
  let level := r.level
  if r.keys.any fun (l, k) => l == level && k.required then .error .notYaml
  else .ok { r with keys := r.keys.filter fun (l, _) => l != level }

def rememberKey (r : Reading) : Except Fault Reading :=
  if r.keyAllowed then do
    let r ← r.forgetKey
    let place : KeyPlace := ⟨r.taken + r.queue.length, r.cursor.index, r.cursor.line,
      r.cursor.column, !r.inFlow && r.indent == r.cursor.column⟩
    return { r with keys := (r.level, place) :: r.keys }
  else .ok r

def closeBlocks (column : Int) (fuel : Nat) (r : Reading) : Reading :=
  match fuel with
  | 0 => r
  | fuel + 1 =>
    if r.inFlow || r.indent ≤ column then r
    else
      closeBlocks column fuel
        ({ r with indent := r.outer.headD (-1), outer := r.outer.tail }.add .blockEnd)

def closeAll (r : Reading) : Reading :=
  r.closeBlocks (-1) (r.outer.length + 1)

/-- Opens a block at a column, if that is deeper than the block around it. -/
def openBlock? (column : Int) (r : Reading) : Option Reading :=
  if r.indent < column then some { r with indent := column, outer := r.indent :: r.outer } else none

def openHere (t : Token) (r : Reading) : Reading :=
  match r.openBlock? r.cursor.column with
  | some r => r.add t
  | none => r

def single (t : Token) (keyAllowed : Bool) (r : Reading) : Reading :=
  { r.add t with keyAllowed }.move 1

def documentMark (t : Token) (r : Reading) : Except Fault Reading :=
  r.closeAll.forgetKey.map fun r => { r.add t with keyAllowed := false }.move 3

def directiveLine (r : Reading) : Except Fault Reading := do
  let r ← r.closeAll.forgetKey
  let (d, c) ← directive r.recent r.cursor.next
  let minor := match d with
    | .version _ minor => minor
    | _ => r.minor
  return { r.add (.directive d) with keyAllowed := false, cursor := c, minor }

def openFlow (bracket : Char) (t : Token) (r : Reading) : Except Fault Reading :=
  r.rememberKey.map fun r => { r with flow := bracket :: r.flow }.single t true

def closeFlow (t : Token) (r : Reading) : Except Fault Reading :=
  r.forgetKey.map fun r => { r with flow := r.flow.tail }.single t false

def flowEntry (r : Reading) : Except Fault Reading :=
  r.forgetKey.map (single .flowEntry true)

def blockEntry (r : Reading) : Except Fault Reading :=
  if r.inFlow then r.forgetKey.map (single .blockEntry true)
  else if r.keyAllowed then (r.openHere .sequenceStart).forgetKey.map (single .blockEntry true)
  else .error .notYaml

def markedKey (r : Reading) : Except Fault Reading :=
  if r.inFlow then r.forgetKey.map (single .key false)
  else if r.keyAllowed then (r.openHere .mappingStart).forgetKey.map (single .key true)
  else .error .notYaml

/-- The colon before a value: what began at the remembered place was a key. -/
def colon (r : Reading) : Except Fault Reading :=
  let level := r.level
  match r.keys.find? fun (l, _) => l == level with
  | some (_, place) =>
    let r := { r with keys := r.keys.filter fun (l, _) => l != level }
    let r := r.insert place.token .key
    let r := if r.inFlow then r
      else
        match r.openBlock? place.column with
        | some r => r.insert place.token .mappingStart
        | none => r
    .ok (r.single .value false)
  | none =>
    if r.inFlow then r.forgetKey.map (single .value false)
    else if r.keyAllowed then (r.openHere .mappingStart).forgetKey.map (single .value true)
    else .error .notYaml

def reference (t : String → Token) (r : Reading) : Except Fault Reading := do
  let r ← r.rememberKey
  let (name, c) ← Fault.require (anchorName? r.cursor.next)
  return { r.add (t name) with keyAllowed := false, cursor := c }

def tag (r : Reading) : Except Fault Reading := do
  let r ← r.rememberKey
  let (name, c) ← Fault.require (tagName? r.recent r.cursor)
  return { r.add (.tag name) with keyAllowed := false, cursor := c }

def blockScalar (folds : Bool) (r : Reading) : Except Fault Reading := do
  let r ← r.forgetKey
  let (text, c) ← Fault.require (block? folds r.indent r.limit r.cursor.next)
  return { r.add (.scalar (String.ofList text) false) with keyAllowed := true, cursor := c }

def quotedScalar (double : Bool) (r : Reading) : Except Fault Reading := do
  let r ← r.rememberKey
  let (text, c) ← quoted double r.limit r.cursor.next
  return { r.add (.scalar (String.ofList text) false) with keyAllowed := false, cursor := c }

def plainScalar (r : Reading) : Except Fault Reading :=
  r.rememberKey.map fun r =>
    let place : PlainPlace := ⟨r.inFlow, !r.old⟩
    let (text, c, broken) := plain place (r.indent + 1).toNat r.limit r.cursor
    { r.add (.scalar (String.ofList text) true) with keyAllowed := broken, cursor := c }

/-- Whether a colon stands before a value here. Between braces it does not have to be followed by
a blank, except behind a colon that is not given away yet. -/
def isColon (r : Reading) : Bool :=
  let spaced := isEndOrSpace (r.cursor.peek 1)
  match r.flow with
  | [] => spaced
  | bracket :: _ =>
    r.old || spaced || (bracket != '[' && r.queue.getLast? != some .value)

def startsPlain (r : Reading) : Bool :=
  let c := r.cursor.head
  let after := r.cursor.peek 1
  if !isEndOrSpace c && !"-?:,[]\x7b\x7d#&*!|>'\"%@\x60".toList.contains c then true
  else if c == '-' then !isEndOrSpace after
  else if c == ':' && r.inFlow then !r.old && !isSpaceOrTab after
  else !r.inFlow && (c == '?' || c == ':') && !isEndOrSpace after

def token (r : Reading) : Except Fault Reading :=
  let c := r.cursor
  let spaced := isEndOrSpace (c.peek 1)
  if c.column == 0 && c.head == '%' then r.directiveLine
  else if c.column == 0 && c.atSeparator then
    r.documentMark (if c.head == '-' then .documentStart else .documentEnd)
  else
    match c.head with
    | '[' => r.openFlow '[' .flowSequenceStart
    | '{' => r.openFlow '{' .flowMappingStart
    | ']' => r.closeFlow .flowSequenceEnd
    | '}' => r.closeFlow .flowMappingEnd
    | ',' => r.flowEntry
    | '*' => r.reference .link
    | '&' => r.reference .anchor
    | '!' => r.tag
    | '\'' => r.quotedScalar false
    | '"' => r.quotedScalar true
    | ch =>
      if ch == '-' && spaced then r.blockEntry
      else if ch == '?' && (r.inFlow || spaced) then r.markedKey
      else if ch == ':' && r.isColon then r.colon
      else if ch == '|' && !r.inFlow then r.blockScalar false
      else if ch == '>' && !r.inFlow then r.blockScalar true
      else if r.startsPlain then r.plainScalar
      else .error .notYaml

def finish (r : Reading) : Except Fault Reading :=
  r.closeAll.forgetKey.map fun r =>
    { r.add .textEnd with keyAllowed := false, keys := [], finished := true }

def step (r : Reading) : Except Fault Reading := do
  let r ← (r.skipMark.skipBlanks r.limit).forgetStale
  let r := r.closeBlocks r.cursor.column (r.outer.length + 1)
  if r.cursor.rest.isEmpty then r.finish else r.token

def firstKey? (r : Reading) : Option Nat :=
  (r.keys.map fun (_, k) => k.token).min?

/-- Reads on until the first token of the queue can be given away. Every step moves the cursor. -/
def fill (fuel : Nat) (r : Reading) : Except Fault Reading :=
  match fuel with
  | 0 => .ok r
  | fuel + 1 =>
    if r.finished then .ok r
    else if r.queue.isEmpty then r.step.bind (fill fuel)
    else do
      let r ← r.forgetStale
      if r.firstKey? == some r.taken then r.step.bind (fill fuel) else return r

def peek (r : Reading) : Except Fault (Token × Reading) :=
  (r.fill r.limit).map fun r => (r.queue.headD .textEnd, r)

def advance (r : Reading) : Reading :=
  { r with queue := r.queue.tail, taken := r.taken + 1 }

end Reading

end Stencil.Yaml
