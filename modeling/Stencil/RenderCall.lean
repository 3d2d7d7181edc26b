import Stencil.Json.Reader
import Stencil.Json.Text
import Stencil.Text.Literal
import Stencil.Text.Word

set_option autoImplicit false

/-!
# Render calls

The parameters of a `render` directive: a component between quotes, and after a comma the
variables it is given, as a JSON object or as a list of `key: value` pairs. In such a list
whatever is not a pair is passed over.
-/

namespace Stencil

/-- Where text variables came as JSON that is no object, `discarded` names what it was. -/
structure Arguments where
  bindings : Mapping
  discarded : Option String

structure RenderCall where
  component : String
  arguments : Arguments

namespace Arguments

def number? (cs : List Char) : Option (Except Failure Value × List Char) :=
  let (negative, body) := match cs with
    | '-' :: rest => (true, rest)
    | _ => (false, cs)
  let whole := body.takeWhile Text.isDigit
  if whole.isEmpty then none
  else
    let integer : Except Failure Value :=
      if Text.maxDigits < whole.length then .error (.tooManyDigits (some whole.length))
      else
        let n : Int := Text.natOfDigits whole
        .ok (.int (if negative then -n else n))
    match body.dropWhile Text.isDigit with
    | '.' :: rest =>
      let frac := rest.takeWhile Text.isDigit
      if frac.isEmpty then some (integer, '.' :: rest)
      else
        let x := Double.ofDecimal negative (Text.natOfDigits (whole ++ frac)) (-frac.length)
        some (.ok (.float x), rest.dropWhile Text.isDigit)
    | rest => some (integer, rest)

def value? : List Char → Option (Except Failure Value × List Char)
  | 't' :: 'r' :: 'u' :: 'e' :: rest => some (.ok (.bool true), rest)
  | 'f' :: 'a' :: 'l' :: 's' :: 'e' :: rest => some (.ok (.bool false), rest)
  | 'n' :: 'u' :: 'l' :: 'l' :: rest => some (.ok .null, rest)
  | cs =>
    match Text.literal? false cs with
    | some (literal, rest) => some (.ok (.str (String.ofList (Text.unescape literal))), rest)
    | none => number? cs

def pair? (cs : List Char) : Option (String × Except Failure Value × List Char) :=
  match cs.takeWhile Text.isWord, cs.dropWhile Text.isWord with
  | [], _ => none
  | key, ':' :: rest =>
    (value? (Text.trimStart rest)).map fun (v, rest) => (String.ofList key, v, rest)
  | _, _ => none

/-- The pairs of a text in order. The first `skip` characters belong to the pair before. -/
def pairs (skip : Nat) : List Char → List (String × Except Failure Value)
  | [] => []
  | c :: cs =>
    match skip with
    | skip + 1 => pairs skip cs
    | 0 =>
      match pair? (c :: cs) with
      | some (key, value, rest) => (key, value) :: pairs (cs.length - rest.length) cs
      | none => pairs 0 cs

def bindPairs (into : Mapping) : List (String × Except Failure Value) → Except Failure Mapping
  | [] => .ok into
  | (key, value) :: rest => do
    let v ← value
    bindPairs (Mapping.insert (.str key) v into) rest

def ofText (text : String) : Except Failure Arguments :=
  match Json.read? text with
  | some (.map entries) => .ok ⟨entries, none⟩
  | some v => .ok ⟨[], some v.typeName⟩
  | none =>
    if Json.halved text then .error .loneSurrogate
    else (bindPairs [] (pairs 0 text.toList)).map fun m => ⟨m, none⟩

/-- A value of the variable `___` that only the program itself may give. -/
def isReserved : Value → Option String
  | .str s => if s = "dont-show-it" ∨ s = "show-it" then some s else none
  | _ => none

def checkReserved (bindings : Mapping) : Except Failure Unit :=
  match (Mapping.lookup? "___" bindings).bind isReserved with
  | some s => .error (.directive (.reservedValue s))
  | none => .ok ()

end Arguments

namespace RenderCall

def component? : List Char → Option (List Char × List Char)
  | [] => none
  | q :: rest =>
    if Text.isQuote q then
      match rest.takeWhile (· != q), rest.dropWhile (· != q) with
      | [], _ => none
      | name, _ :: rest => some (name, rest)
      | _, [] => none
    else none

def ofParameters (parameters : Option String) : Except Failure RenderCall :=
  let invalid : Except Failure RenderCall := .error (.directive (.invalidRender parameters))
  match component? (Text.trimStart (parameters.getD "").toList) with
  | none => invalid
  | some (component, rest) =>
    match Text.trimStart rest with
    | [] => .ok ⟨String.ofList component, ⟨[], none⟩⟩
    | ',' :: rest =>
      match Text.trim rest with
      | [] => .ok ⟨String.ofList component, ⟨[], none⟩⟩
      | given =>
        (Arguments.ofText (String.ofList given)).map fun a => ⟨String.ofList component, a⟩
    | _ => invalid

end RenderCall

end Stencil
