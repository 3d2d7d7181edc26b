import Stencil.Json.Reader
import Stencil.Yaml.Timestamp

set_option autoImplicit false

/-!
# Tags

The tag of a node says what the node is read as. A plain scalar that has no tag gets one by the
way it is written, and what is written like nothing else is a text. What words and numbers look
like depends on the version of YAML. The patterns are those of the resolver of `ruamel.yaml`, and
not the wider ones of the standard.
-/

namespace Stencil.Yaml

inductive Tag
  | null
  | bool
  | int
  | float
  | binary
  | timestamp
  | text
  | sequence
  | pairs
  | ordered
  | mapping
  | set
  | merge
  | value
  | unknown
  deriving Repr, DecidableEq

namespace Tag

def stem : String := "tag:yaml.org,2002:"

def names : List (String × Tag) :=
  [("null", null), ("bool", bool), ("int", int), ("float", float), ("binary", binary),
    ("timestamp", timestamp), ("str", text), ("seq", sequence), ("pairs", pairs),
    ("omap", ordered), ("map", mapping), ("set", set), ("merge", merge), ("value", value)]

def ofName (name : String) : Tag :=
  ((names.find? fun n => stem ++ n.1 == name).map Prod.snd).getD unknown

/-! ### What a plain scalar is written like -/

def isDigitOrUnderscore (c : Char) : Bool :=
  c.isDigit || c == '_'

/-- Whether a text is an exponent; with `signed` it has to have a sign. -/
def isExponent (signed : Bool) : List Char → Bool
  | [] => false
  | c :: cs =>
    (c == 'e' || c == 'E') &&
      (match cs with
        | s :: ds =>
          if s == '+' || s == '-' then !ds.isEmpty && ds.all Char.isDigit
          else !signed && cs.all Char.isDigit
        | [] => false)

/-- Whether a text is one or more groups of a colon and one or two digits below sixty, and what
is left behind them. -/
def afterSixtieths? (fuel : Nat) (cs : List Char) : Option (List Char) :=
  match fuel with
  | 0 => none
  | fuel + 1 =>
    match cs with
    | ':' :: a :: b :: cs =>
      if a.isDigit && decide (a ≤ '5') && b.isDigit then
        some ((afterSixtieths? fuel cs).getD cs)
      else if a.isDigit then some ((afterSixtieths? fuel (b :: cs)).getD (b :: cs))
      else none
    | [':', a] => if a.isDigit then some [] else none
    | _ => none

def isSexagesimal (isRest : List Char → Bool) (cs : List Char) : Bool :=
  ((afterSixtieths? cs.length (cs.dropWhile isDigitOrUnderscore)).map isRest).getD false

def isInfinity (cs : List Char) : Bool :=
  [".inf", ".Inf", ".INF"].contains (String.ofList cs)

def isNan (cs : List Char) : Bool :=
  [".nan", ".NaN", ".NAN"].contains (String.ofList cs)

def isDecimalFloat (body : List Char) : Bool :=
  match body.dropWhile isDigitOrUnderscore with
  | '.' :: rest =>
    let rest := rest.dropWhile isDigitOrUnderscore
    rest.isEmpty || isExponent false rest
  | rest => isExponent false rest

def isFraction : List Char → Bool
  | '.' :: cs =>
    let rest := cs.dropWhile isDigitOrUnderscore
    decide (rest.length < cs.length) && (rest.isEmpty || isExponent true rest)
  | _ => false

/-- Whether a text is a number with a fraction, by the rules of version 1.1 if `old`. -/
def isFloat (old : Bool) (cs : List Char) : Bool :=
  let body := (Text.takeSign cs).2
  let begins := (body.head?.map Char.isDigit).getD false
  (begins && isDecimalFloat body) || isFraction (if old then cs else body) ||
    (old && begins && isSexagesimal isPointed body) || isInfinity body || isNan cs
where
  isPointed : List Char → Bool
    | '.' :: rest => rest.all isDigitOrUnderscore
    | _ => false

def isOctalOrUnderscore (c : Char) : Bool :=
  (decide ('0' ≤ c) && decide (c ≤ '7')) || c == '_'

def isWhole (old : Bool) (body : List Char) : Bool :=
  if old then
    match body with
    | c :: _ =>
      body.all isOctalOrUnderscore ||
        (decide ('1' ≤ c) && c.isDigit &&
          (body.all isDigitOrUnderscore || isSexagesimal List.isEmpty body))
    | [] => false
  else !body.isEmpty && body.all isDigitOrUnderscore

def isInt (old : Bool) (cs : List Char) : Bool :=
  let body := (Text.takeSign cs).2
  match body with
  | '0' :: 'b' :: c :: r => (c :: r).all fun d => d == '0' || d == '1' || d == '_'
  | '0' :: 'x' :: c :: r => (c :: r).all fun d => (Json.hexValue? d).isSome || d == '_'
  | '0' :: 'o' :: c :: r => !old && (c :: r).all isOctalOrUnderscore
  | body => isWhole old body

def truthWords : List String :=
  ["true", "True", "TRUE", "false", "False", "FALSE"]

def oldTruthWords : List String :=
  ["y", "Y", "yes", "Yes", "YES", "n", "N", "no", "No", "NO", "on", "On", "ON", "off", "Off", "OFF"]

def nullWords : List String :=
  ["~", "null", "Null", "NULL"]

def ofBare (old : Bool) (cs : List Char) : Tag :=
  let word := String.ofList cs
  let first := cs.headD '\x00'
  let signed := first.isDigit || first == '-' || first == '+'
  if truthWords.contains word || (old && oldTruthWords.contains word) then bool
  else if (signed || first == '.') && isFloat old cs then float
  else if signed && isInt old cs then int
  else if word == "<<" then merge
  else if nullWords.contains word then null
  else if Timestamp.isBare cs then timestamp
  else if word == "=" then value
  else if word == "!" || word == "&" || word == "*" then unknown
  else text

def withoutFinalBreak (cs : List Char) : List Char :=
  if cs.getLast? == some '\n' then cs.dropLast else cs

def ofPlain (old : Bool) (s : String) : Tag :=
  match withoutFinalBreak s.toList with
  | [] => if s.isEmpty then null else text
  | cs => ofBare old cs

end Tag

end Stencil.Yaml
