import Stencil.Text.Number
import Stencil.Text.Utf8
import Stencil.Yaml.Scalar

set_option autoImplicit false

/-!
# Names, tags and directives in a YAML text

A tag is written in full between angle brackets, or as a handle and a suffix, where the handle
stands for the beginning of the name. Directives come before a document; they give the version of
YAML and say what handles stand for. All are scanned as `ruamel.yaml` scans them.
-/

namespace Stencil.Yaml

/-- A tag as it is written. Without a handle the suffix is the whole name. -/
structure TagName where
  handle : Option String
  suffix : String
  deriving Repr, DecidableEq

inductive Directive
  | version (major minor : Nat)
  | handle (name stem : String)
  | other
  deriving Repr, DecidableEq

def isBracket (c : Char) : Bool :=
  c == ',' || c == '[' || c == ']' || c == '{' || c == '}'

def isNameChar (c : Char) : Bool :=
  !isBracket c && ((decide ('!' ≤ c) && decide (c ≤ '~')) || decide (0xa0 ≤ c.toNat)) &&
    c != '\ufeff'

def anchorName? (c : Cursor) : Option (String × Cursor) :=
  let name := c.span isNameChar
  let c := c.skip name.length
  if !name.isEmpty && (isEndOrSpace c.head || isBracket c.head) then
    some (String.ofList name, c)
  else none

/-! ### Tags -/

def isHandleChar (c : Char) : Bool :=
  c.isAlphanum || c == '-' || c == '_'

/-- Reads a handle: letters between exclamation marks, or one mark before a space. -/
def handle? (c : Cursor) : Option (String × Cursor) :=
  if c.head != '!' then none
  else if c.peek 1 == ' ' then some ("!", c.next)
  else
    let name := c.next.span isHandleChar
    let after := c.next.skip name.length
    if after.head == '!' then some (String.ofList ('!' :: name ++ ['!']), after.next) else none

/-- The characters of a suffix. A number sign is one only from version 1.2 on. -/
def isSuffixChar (numberSign : Bool) (c : Char) : Bool :=
  c.isAlphanum || "-;/?:@&=+$,_.!~*'()[]".toList.contains c || (numberSign && c == '#')

def percentBytes (fuel : Nat) (c : Cursor) : Option (List UInt8 × Cursor) :=
  match fuel with
  | 0 => none
  | fuel + 1 =>
    if c.head == '%' then
      (hexNumber? 2 c.next).bind fun n =>
        (percentBytes fuel (c.skip 3)).map fun (bs, c) => (UInt8.ofNat n :: bs, c)
    else some ([], c)

/-- Reads the characters of a suffix. Bytes by number have to be UTF-8. -/
def suffixText (numberSign : Bool) (fuel : Nat) (c : Cursor) : Option (List Char × Cursor) :=
  match fuel with
  | 0 => none
  | fuel + 1 =>
    if c.head == '%' then
      (percentBytes c.rest.length c).bind fun (bytes, after) =>
        match Text.decodeUtf8 bytes with
        | .error _ => none
        | .ok _ =>
          let written := c.rest.take (3 * bytes.length)
          (suffixText numberSign fuel after).map fun (s, c) => (written ++ s, c)
    else if isSuffixChar numberSign c.head then
      (suffixText numberSign fuel c.next).map fun (s, after) => (c.head :: s, after)
    else some ([], c)

def suffix? (numberSign : Bool) (c : Cursor) : Option (List Char × Cursor) :=
  match suffixText numberSign (c.rest.length + 1) c with
  | some ([], _) | none => none
  | some (s, c) => some (s, c)

def unescaped : List Char → List Char
  | '%' :: a :: b :: cs =>
    Char.ofNat (16 * (Json.hexValue? a).getD 0 + (Json.hexValue? b).getD 0) :: unescaped cs
  | c :: cs => c :: unescaped cs
  | [] => []

def tagBody? (numberSign : Bool) (short : String) (c : Cursor) : Option (TagName × Cursor) :=
  let named := fun (handle : Option String) (found : List Char × Cursor) =>
    (TagName.mk handle (String.ofList (unescaped found.1)), found.2)
  if c.peek 1 == '<' then
    (suffix? numberSign (c.skip 2)).bind fun found =>
      if found.2.head == '>' then some (named none (found.1, found.2.next)) else none
  else if isEndOrSpace (c.peek 1) then some (⟨none, short⟩, c.next)
  else if (c.next.span fun ch => !isGap ch).contains '!' then
    (handle? c).bind fun (handle, c) => (suffix? numberSign c).map (named (some handle))
  else (suffix? numberSign c.next).map (named (some short))

def tagName? (numberSign : Bool) (c : Cursor) : Option (TagName × Cursor) :=
  let (short, c) := if c.peek 1 == '!' then ("!!", c.next) else ("!", c)
  (tagBody? numberSign short c).filter fun (_, c) => isGap c.head

/-! ### Directives -/

def isDirectiveChar (c : Char) : Bool :=
  isHandleChar c || c == ':' || c == '.'

def skipSpaces (c : Cursor) : Cursor :=
  c.skipWhile (· == ' ')

def versionPart (c : Cursor) : Except Fault (Nat × Cursor) :=
  let ds := c.span Char.isDigit
  match Text.integer 10 ds with
  | .ok n => .ok (n.toNat, c.skip ds.length)
  | .error .malformed => .error .notYaml
  | .error (.tooLong n) => .error (.noValue (.tooManyDigits (some n)))

def directiveValue (numberSign : Bool) (name : String) (c : Cursor) :
    Except Fault (Directive × Cursor) :=
  match name with
  | "YAML" => do
    let (major, c) ← versionPart (skipSpaces c)
    if c.head != '.' then throw .notYaml
    let (minor, c) ← versionPart c.next
    if !isGap c.head then throw .notYaml
    return (.version major minor, c)
  | "TAG" => Fault.require do
    let (handle, c) ← handle? (skipSpaces c)
    if c.head != ' ' then none
    else
      let (stem, c) ← suffix? numberSign (skipSpaces c)
      if isGap c.head then some (.handle handle (String.ofList stem), c) else none
  | _ => .ok (.other, c.skipWhile fun ch => !isEnd ch)

def directive (numberSign : Bool) (c : Cursor) : Except Fault (Directive × Cursor) := do
  let name := c.span isDirectiveChar
  let c := c.skip name.length
  if name.isEmpty || !isGap c.head then throw .notYaml
  let (d, c) ← directiveValue numberSign (String.ofList name) c
  let c ← Fault.require c.restOfLine?
  return (d, c)

end Stencil.Yaml
