import Stencil.Json.Text
import Stencil.Template.Name
import Stencil.Text.Literal

set_option autoImplicit false

/-!
# Conditions

A condition is a name, alone or compared with a literal. The operator is a run of comparison
signs or any word set off by blanks; whether it is one that can be evaluated is asked only when a
value for the name is known.
-/

namespace Stencil

structure Comparison where
  operator : String
  value : String
  deriving Repr, DecidableEq

structure Condition where
  name : String
  comparison : Option Comparison
  deriving Repr, DecidableEq

inductive Operator
  | eq
  | ne
  | gt
  | lt
  | ge
  | le
  deriving Repr, DecidableEq

namespace Operator

def ofText? : String → Option Operator
  | "==" => some eq
  | "!=" => some ne
  | ">" => some gt
  | "<" => some lt
  | ">=" => some ge
  | "<=" => some le
  | _ => none

def text : Operator → String
  | eq => "=="
  | ne => "!="
  | gt => ">"
  | lt => "<"
  | ge => ">="
  | le => "<="

theorem ofText?_text (o : Operator) : ofText? o.text = some o := by
  cases o <;> rfl

/-- Whether the operator holds of two things so ordered. What has no order is only unequal. -/
def holds : Operator → Option Ordering → Bool
  | eq, o => o == some .eq
  | ne, o => o != some .eq
  | gt, o => o == some .gt
  | lt, o => o == some .lt
  | ge, o => o == some .gt || o == some .eq
  | le, o => o == some .lt || o == some .eq

end Operator

namespace Condition

def isSign (c : Char) : Bool :=
  c == '!' || c == '=' || c == '<' || c == '>'

/-- Reads the value that ends a condition: a quoted literal, or else a run without blanks. -/
def value? (cs : List Char) : Option (List Char) :=
  match Text.literal? true cs with
  | some (literal, []) => some literal
  | _ => if cs.isEmpty || cs.any Text.isBlank then none else some cs

/-- Reads an operator of the first `k` signs, or of fewer, with a value behind it. -/
def signed? (cs : List Char) : Nat → Option (List Char × List Char)
  | 0 => none
  | k + 1 =>
    match value? (Text.trimStart (cs.drop (k + 1))) with
    | some v => some (cs.take (k + 1), v)
    | none => signed? cs k

def signOperator? (cs : List Char) : Option (List Char × List Char) :=
  let cs := Text.trimStart cs
  signed? cs (cs.takeWhile isSign).length

def isWordSign (c : Char) : Bool :=
  !Text.isBlank c && !Text.isQuote c

def wordOperator? (cs : List Char) : Option (List Char × List Char) :=
  let inner := Text.trimStart cs
  let word := inner.takeWhile isWordSign
  let rest := inner.dropWhile isWordSign
  if (cs.head?.map Text.isBlank).getD false && !word.isEmpty &&
      (rest.head?.map Text.isBlank).getD false then
    (value? (Text.trimStart rest)).map fun v => (word, v)
  else none

def read? (cs : List Char) : Option Condition :=
  match Template.name? cs with
  | none => none
  | some (name, []) => some ⟨String.ofList name, none⟩
  | some (name, rest) =>
    ((signOperator? rest).or (wordOperator? rest)).map fun (operator, value) =>
      ⟨String.ofList name, some ⟨String.ofList operator, String.ofList (Text.unescape value)⟩⟩

def ofParameters (parameters : Option String) : Except Failure Condition :=
  match parameters with
  | none => .error (.directive .missingCondition)
  | some p =>
    if p.isEmpty then .error (.directive .missingCondition)
    else
      match read? (Text.trim p.toList) with
      | some c => .ok c
      | none => .error (.directive (.invalidCondition p))

end Condition

namespace Value

def toNumber : Value → Except Failure (Option Double)
  | int n =>
    match Double.ofInt? n with
    | some x => .ok (some x)
    | none => .error .tooLarge
  | float x => .ok (if x.isFinite then some x else none)
  | str s =>
    match Text.decimal? s.toList with
    | none => .ok none
    | some d =>
      if s.toList.any Text.isSeparator then .error (.notANumber s)
      else .ok (some (.ofDecimal d.negative d.digits d.scale))
  | _ => .ok none

/-- Compares a known value: as numbers if both sides are numeric, for equality as values if the
known one is no text, and as texts otherwise. -/
def satisfies (actual : Value) (operator : String) (expected : Value) : Except Failure Bool :=
  match Operator.ofText? operator with
  | none => .error (.invalidOperator operator)
  | some op =>
    if actual.numeric && expected.numeric then do
      let a ← actual.toNumber
      let b ← expected.toNumber
      return op.holds (a.bind fun x => b.bind x.compare?)
    else
      match op, actual with
      | _, str _ => byText op
      | .eq, _ => .ok (actual.same expected)
      | .ne, _ => .ok (!actual.same expected)
      | _, _ => byText op
where
  byText (op : Operator) : Except Failure Bool := do
    let a ← actual.stringify
    let b ← expected.stringify
    return op.holds (some (compare a b))

def fulfils (actual : Value) : Option Comparison → Except Failure Bool
  | none => .ok actual.truthy
  | some c => actual.satisfies c.operator (str c.value)

end Value

end Stencil
