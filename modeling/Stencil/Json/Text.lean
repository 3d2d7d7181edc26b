import Stencil.Failure
import Stencil.Value.Basic

set_option autoImplicit false

/-!
# The JSON text of a value

Items are separated by a comma and a space, keys and values by a colon and a space, and nothing
above ASCII is escaped. Keys that are not texts are written as the text of their own JSON form.
Bytes, dates and sets, and rows as keys, have no JSON text.
-/

namespace Stencil.Json

def layout : Double.Layout := { Double.plain with nan := "NaN", infinity := "Infinity" }

def escape (c : Char) : List Char :=
  if c == '"' then ['\\', '"']
  else if c == '\\' then ['\\', '\\']
  else if c == '\n' then ['\\', 'n']
  else if c == '\r' then ['\\', 'r']
  else if c == '\t' then ['\\', 't']
  else if c == '\x0c' then ['\\', 'f']
  else if c == '\x08' then ['\\', 'b']
  else if c.toNat < 0x20 then '\\' :: 'u' :: Text.hex 4 c.toNat
  else [c]

def quoted (s : String) : List Char :=
  '"' :: s.toList.flatMap escape ++ ['"']

def ofInt (n : Int) : Except Failure (List Char) :=
  match Text.intText? n with
  | some t => .ok t.toList
  | none => .error (.tooManyDigits none)

def ofAtom : Atom → Except Failure (List Char)
  | .null => .ok "null".toList
  | .bool b => .ok (if b then "true".toList else "false".toList)
  | .int n => ofInt n
  | .float x => .ok (x.textWith layout).toList
  | .str s => .ok (quoted s)
  | .bytes _ | .date _ | .moment _ => .error .unprintable

def ofKey : Key → Except Failure (List Char)
  | .atom (.str s) => .ok (quoted s)
  | .atom a => (ofAtom a).map fun t => '"' :: t ++ ['"']
  | .row _ => .error .unprintable

def commaSeparated : List (List Char) → List Char
  | [] => []
  | [t] => t
  | t :: ts => t ++ ',' :: ' ' :: commaSeparated ts

theorem commaSeparated_cons (t : List Char) {ts : List (List Char)} (more : ts ≠ []) :
    commaSeparated (t :: ts) = t ++ ',' :: ' ' :: commaSeparated ts :=
  commaSeparated.eq_3 t ts more

theorem exists_commaSeparated_cons (t : List Char) (ts : List (List Char)) :
    ∃ rest, commaSeparated (t :: ts) = t ++ rest := by
  cases ts with
  | nil => exact ⟨[], (List.append_nil t).symm⟩
  | cons s ts => exact ⟨_, commaSeparated_cons t (List.cons_ne_nil s ts)⟩

theorem exists_commaSeparated_concat (ts : List (List Char)) (t : List Char) :
    ∃ rest, commaSeparated (ts ++ [t]) = rest ++ t := by
  induction ts with
  | nil => exact ⟨[], rfl⟩
  | cons s ts ih =>
    obtain ⟨rest, split⟩ := ih
    have more : ts ++ [t] ≠ [] := by simp
    refine ⟨s ++ ',' :: ' ' :: rest, ?_⟩
    rw [List.cons_append, commaSeparated_cons s more, split]
    simp

mutual

def ofValue : Value → Except Failure (List Char)
  | .atom a => ofAtom a
  | .list items => (ofItems items).map fun ts => '[' :: commaSeparated ts ++ [']']
  | .pair a b => do
    let s ← ofValue a
    let t ← ofValue b
    return '[' :: commaSeparated [s, t] ++ [']']
  | .map entries | .ordered entries =>
    (ofEntries entries).map fun ts => '{' :: commaSeparated ts ++ ['}']
  | .set _ => .error .unprintable

def ofItems : List Value → Except Failure (List (List Char))
  | [] => .ok []
  | v :: vs => do
    let t ← ofValue v
    let ts ← ofItems vs
    return t :: ts

def ofEntries : List (Key × Value) → Except Failure (List (List Char))
  | [] => .ok []
  | (k, v) :: rest => do
    let key ← ofKey k
    let t ← ofValue v
    let ts ← ofEntries rest
    return (key ++ ':' :: ' ' :: t) :: ts

end

end Stencil.Json

/-- The text that stands for a value in a template and in comparisons of texts: a text is itself,
a whole number has no point, and what is no number is written as JSON. -/
def Stencil.Value.stringify : Stencil.Value → Except Stencil.Failure String
  | .str s => .ok s
  | .bool b => .ok (if b then "true" else "false")
  | .int n => (Stencil.Json.ofInt n).map String.ofList
  | .float x =>
    match x.toInt? with
    | some n => (Stencil.Json.ofInt n).map String.ofList
    | none => .ok x.text
  | v => (Stencil.Json.ofValue v).map String.ofList
