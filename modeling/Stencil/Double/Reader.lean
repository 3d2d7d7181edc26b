import Stencil.Double
import Stencil.Text.Number

set_option autoImplicit false

/-!
# Reading doubles

A decimal number is read as the nearest double, and there are words for the doubles that are no
numbers, in any mixture of cases. Margins do not count.
-/

namespace Stencil.Double

def ofDecimalText (d : Text.Decimal) : Double :=
  ofDecimal d.negative d.digits d.scale

def ofWord? (negative : Bool) (word : List Char) : Option Double :=
  match String.ofList (word.map Char.toLower) with
  | "inf" | "infinity" => some (infinity negative)
  | "nan" => some nan
  | _ => none

def ofText? (cs : List Char) : Option Double :=
  let body := Text.dropMargins cs
  match Text.bareDecimal? body with
  | some d => some (ofDecimalText d)
  | none => ofWord? (Text.takeSign body).1 (Text.takeSign body).2

end Stencil.Double
