import Stencil.Condition

set_option autoImplicit false

/-!
# Residual templates

What is left of a template once all that is known has been evaluated: text, variables and
conditions for the runtime, comments, and pieces of the target language that a directive of one
dialect alone puts around its body. The residual does not depend on how a dialect spells it.
-/

namespace Stencil

inductive Residual
  | text (value : String)
  | echo (name : String)
  | cond (first : Condition) (body : List Residual) (further : List (Condition × List Residual))
      (otherwise : Option (List Residual))
  | ifNot (name : String) (body : List Residual) (otherwise : Option (List Residual))
  | comment (body : List Residual)
  | native (before : String) (body : List Residual) (after : String)

structure Fragments where
  openIf : Condition → String
  openElseif : Condition → String
  openElse : String
  closeIf : String
  openUnless : String → String
  closeUnless : String
  echo : String → String
  hiddenComment : String → String

namespace Fragments

/-- A comment is shown to readers of the output, or hidden in the dialect's own way. -/
def comment (f : Fragments) (shown : Bool) (body : String) : String :=
  if shown then "<!--" ++ body ++ "-->" else f.hiddenComment body

end Fragments

namespace Residual

mutual

def render (f : Fragments) (shown : Bool) : Residual → String
  | text value => value
  | echo name => f.echo name
  | cond first body further otherwise =>
    f.openIf first ++ renderAll f shown body ++ renderFurther f shown further ++
      renderElse f shown otherwise ++ f.closeIf
  | ifNot name body otherwise =>
    f.openUnless name ++ renderAll f shown body ++ renderElse f shown otherwise ++ f.closeUnless
  | comment body => f.comment shown (renderAll f shown body)
  | native before body after => before ++ renderAll f shown body ++ after

def renderAll (f : Fragments) (shown : Bool) : List Residual → String
  | [] => ""
  | r :: rs => render f shown r ++ renderAll f shown rs

def renderFurther (f : Fragments) (shown : Bool) : List (Condition × List Residual) → String
  | [] => ""
  | (c, body) :: rest => f.openElseif c ++ renderAll f shown body ++ renderFurther f shown rest

def renderElse (f : Fragments) (shown : Bool) : Option (List Residual) → String
  | none => ""
  | some body => f.openElse ++ renderAll f shown body

end

theorem renderAll_append (f : Fragments) (shown : Bool) (rs ts : List Residual) :
    renderAll f shown (rs ++ ts) = renderAll f shown rs ++ renderAll f shown ts := by
  induction rs with
  | nil => simp [renderAll]
  | cons r rs ih => simp [renderAll, ih, String.append_assoc]

/-- Induction on the parts of a residual template: its bodies, the further branches of a condition
and the branch for all else. -/
theorem parts_induction {OfResidual : Residual → Prop} {OfElse : Option (List Residual) → Prop}
    {OfAll : List Residual → Prop} {OfFurther : List (Condition × List Residual) → Prop}
    (text : ∀ value, OfResidual (.text value)) (echo : ∀ name, OfResidual (.echo name))
    (cond : ∀ first body further otherwise, OfAll body → OfFurther further → OfElse otherwise →
      OfResidual (.cond first body further otherwise))
    (ifNot : ∀ name body otherwise, OfAll body → OfElse otherwise →
      OfResidual (.ifNot name body otherwise))
    (comment : ∀ body, OfAll body → OfResidual (.comment body))
    (native : ∀ before body after, OfAll body → OfResidual (.native before body after))
    (nil : OfAll []) (cons : ∀ r rs, OfResidual r → OfAll rs → OfAll (r :: rs))
    (noFurther : OfFurther [])
    (further : ∀ c body rest, OfAll body → OfFurther rest → OfFurther ((c, body) :: rest))
    (noElse : OfElse none) (otherwise : ∀ body, OfAll body → OfElse (some body)) :
    (∀ r, OfResidual r) ∧ (∀ e, OfElse e) ∧ (∀ rs, OfAll rs) ∧ ∀ bs, OfFurther bs :=
  render.mutual_induct OfResidual OfElse OfAll OfFurther text echo cond ifNot comment native nil
    cons noFurther further noElse otherwise

end Residual

end Stencil
