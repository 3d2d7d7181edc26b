import Stencil.Text.Quoted
import Stencil.Value.Basic

set_option autoImplicit false

/-!
# Values as messages show them

Texts are quoted, lists stand in brackets, rows in parentheses, mappings and sets in braces.
-/

namespace Stencil

def padded (width n : Nat) : String :=
  let ds := Nat.toDigits 10 n
  String.ofList (List.replicate (width - ds.length) '0' ++ ds)

namespace Date

def text (d : Date) : String :=
  padded 4 d.year ++ "-" ++ padded 2 d.month ++ "-" ++ padded 2 d.day

def display (d : Date) : String :=
  "datetime.date(" ++ toString d.year ++ ", " ++ toString d.month ++ ", " ++ toString d.day ++ ")"

end Date

namespace Moment

def textWith (separator : String) (m : Moment) : String :=
  m.date.text ++ separator ++ padded 2 m.hour ++ ":" ++ padded 2 m.minute ++ ":" ++
    padded 2 m.second ++ (if m.micro = 0 then "" else "." ++ padded 6 m.micro)

/-- The parts of a moment, where zeros at the end are left out. -/
def display (m : Moment) : String :=
  let small := if m.micro = 0 then (if m.second = 0 then [] else [m.second])
    else [m.second, m.micro]
  "datetime.datetime(" ++ ", ".intercalate (([m.date.year, m.date.month, m.date.day, m.hour,
    m.minute] ++ small).map toString) ++ ")"

end Moment

/-- Bytes between quotes, as the characters of ASCII that they are or by number. -/
def quoteBytes (bs : List UInt8) : String :=
  let cs := bs.map fun b => Char.ofNat b.toNat
  let quote := Text.quoteFor cs
  let shown := fun (c : Char) =>
    if c.toNat < 0x7f then Text.quoteChar quote c else '\\' :: 'x' :: Text.hex 2 c.toNat
  String.ofList ('b' :: quote :: cs.flatMap shown ++ [quote])

namespace Atom

def display : Atom → String
  | null => "None"
  | bool b => if b then "True" else "False"
  | int n => toString n
  | float x => x.text
  | str s => quote s
  | bytes bs => quoteBytes bs
  | date d => d.display
  | moment m => m.display

def text : Atom → String
  | str s => s
  | date d => d.text
  | moment m => m.textWith " "
  | a => a.display

end Atom

/-- A row of things in parentheses; a single one has a comma behind it. -/
def inParentheses : List String → String
  | [s] => "(" ++ s ++ ",)"
  | ss => "(" ++ ", ".intercalate ss ++ ")"

namespace Key

mutual

def display : Key → String
  | atom a => a.display
  | row items => inParentheses (displayItems items)

def displayItems : List Key → List String
  | [] => []
  | k :: ks => display k :: displayItems ks

end

def text : Key → String
  | atom a => a.text
  | k => k.display

mutual

/-- Whether the text of a key can be had: an integer can have too many digits for one. -/
def writable : Key → Bool
  | atom (.int n) => (Text.intText? n).isSome
  | atom _ => true
  | row items => writableItems items

def writableItems : List Key → Bool
  | [] => true
  | k :: ks => writable k && writableItems ks

end

end Key

namespace Value

mutual

def display : Value → String
  | atom a => a.display
  | list items => "[" ++ ", ".intercalate (displayItems items) ++ "]"
  | pair a b => inParentheses [display a, display b]
  | map entries => "\x7b" ++ ", ".intercalate (displayEntries entries) ++ "\x7d"
  | ordered [] => "ordereddict()"
  | ordered entries => "ordereddict([" ++ ", ".intercalate (displayPairs entries) ++ "])"
  | set [] => "set()"
  | set members => "\x7b" ++ ", ".intercalate (members.map Key.display) ++ "\x7d"

def displayItems : List Value → List String
  | [] => []
  | v :: vs => display v :: displayItems vs

def displayEntries : List (Key × Value) → List String
  | [] => []
  | (k, v) :: rest => (k.display ++ ": " ++ display v) :: displayEntries rest

def displayPairs : List (Key × Value) → List String
  | [] => []
  | (k, v) :: rest => inParentheses [k.display, display v] :: displayPairs rest

end

/-- The value as a part of a message: a text as it is, all else as it is shown. -/
def text : Value → String
  | atom a => a.text
  | v => v.display

end Value

end Stencil
