import Stencil.Residual

set_option autoImplicit false

/-!
# How residual templates are bracketed

A residual template is spelled as a sequence of pieces. Whatever is nested in what, the pieces are
well bracketed: each condition has one opening piece, any number of `elseif` pieces, at most one
`else` piece after them, and one closing piece.
-/

namespace Stencil

/-- What a residual template is spelled with, one piece for each fragment of a dialect. -/
inductive Piece
  | text (value : String)
  | echo (name : String)
  | openIf (c : Condition)
  | openElseif (c : Condition)
  | openElse
  | closeIf
  | openUnless (name : String)
  | closeUnless
  | comment (body : List Piece)

namespace Residual

mutual

def pieces : Residual → List Piece
  | text value => [.text value]
  | echo name => [.echo name]
  | cond first body further otherwise =>
    .openIf first :: (piecesAll body ++ piecesFurther further ++ piecesElse otherwise ++
      [.closeIf])
  | ifNot name body otherwise =>
    .openUnless name :: (piecesAll body ++ piecesElse otherwise ++ [.closeUnless])
  | comment body => [.comment (piecesAll body)]
  | native before body after => .text before :: (piecesAll body ++ [.text after])

def piecesAll : List Residual → List Piece
  | [] => []
  | r :: rs => pieces r ++ piecesAll rs

def piecesFurther : List (Condition × List Residual) → List Piece
  | [] => []
  | (c, body) :: rest => .openElseif c :: (piecesAll body ++ piecesFurther rest)

def piecesElse : Option (List Residual) → List Piece
  | none => []
  | some body => .openElse :: piecesAll body

end

end Residual

namespace Piece

mutual

/-- How a dialect spells a piece. -/
def spell (f : Fragments) (shown : Bool) : Piece → String
  | text value => value
  | echo name => f.echo name
  | openIf c => f.openIf c
  | openElseif c => f.openElseif c
  | openElse => f.openElse
  | closeIf => f.closeIf
  | openUnless name => f.openUnless name
  | closeUnless => f.closeUnless
  | comment body => f.comment shown (spellAll f shown body)

def spellAll (f : Fragments) (shown : Bool) : List Piece → String
  | [] => ""
  | p :: ps => spell f shown p ++ spellAll f shown ps

end

theorem spellAll_append (f : Fragments) (shown : Bool) (ps qs : List Piece) :
    spellAll f shown (ps ++ qs) = spellAll f shown ps ++ spellAll f shown qs := by
  induction ps with
  | nil => rw [List.nil_append, spellAll, String.empty_append]
  | cons p ps ih => rw [List.cons_append, spellAll, spellAll, ih, String.append_assoc]

theorem spellAll_singleton (f : Fragments) (shown : Bool) (p : Piece) :
    spellAll f shown [p] = spell f shown p := by
  rw [spellAll, spellAll, String.append_empty]

/-- A bracket that is open: a condition before or behind its `else`, or an `unless`. -/
inductive Bracket
  | cond
  | condElse
  | ifNot
  | ifNotElse
  deriving Repr, DecidableEq

mutual

/-- Goes on behind a piece with the brackets that are open then, innermost first. A comment is
bracketed in itself. -/
def step : Piece → List Bracket → Option (List Bracket)
  | text _, opened => some opened
  | echo _, opened => some opened
  | openIf _, opened => some (.cond :: opened)
  | openElseif _, .cond :: opened => some (.cond :: opened)
  | openElse, .cond :: opened => some (.condElse :: opened)
  | openElse, .ifNot :: opened => some (.ifNotElse :: opened)
  | closeIf, .cond :: opened => some opened
  | closeIf, .condElse :: opened => some opened
  | openUnless _, opened => some (.ifNot :: opened)
  | closeUnless, .ifNot :: opened => some opened
  | closeUnless, .ifNotElse :: opened => some opened
  | comment body, opened => if steps body [] = some [] then some opened else none
  | _, _ => none

def steps : List Piece → List Bracket → Option (List Bracket)
  | [], opened => some opened
  | p :: ps, opened => (step p opened).bind (steps ps)

end

/-- All brackets are opened, continued and closed in order. -/
def Bracketed (ps : List Piece) : Prop :=
  steps ps [] = some []

theorem steps_append (ps qs : List Piece) (opened : List Bracket) :
    steps (ps ++ qs) opened = (steps ps opened).bind (steps qs) := by
  induction ps generalizing opened with
  | nil => rw [List.nil_append, steps, Option.bind_some]
  | cons p ps ih =>
    rw [List.cons_append, steps, steps]
    cases step p opened with
    | none => rfl
    | some next => exact ih next

end Piece

namespace Residual

open Piece

theorem spell_pieces (f : Fragments) (shown : Bool) :
    (∀ r, spellAll f shown (pieces r) = render f shown r) ∧
    (∀ e, spellAll f shown (piecesElse e) = renderElse f shown e) ∧
    (∀ rs, spellAll f shown (piecesAll rs) = renderAll f shown rs) ∧
    (∀ bs, spellAll f shown (piecesFurther bs) = renderFurther f shown bs) := by
  apply parts_induction
  case text =>
    intro value
    rw [pieces, spellAll_singleton, spell, render]
  case echo =>
    intro name
    rw [pieces, spellAll_singleton, spell, render]
  case cond =>
    intro first body further otherwise ihBody ihFurther ihElse
    rw [pieces, spellAll, spellAll_append, spellAll_append, spellAll_append, spellAll_singleton,
      ihBody, ihFurther, ihElse, render]
    simp only [spell, String.append_assoc]
  case ifNot =>
    intro name body otherwise ihBody ihElse
    rw [pieces, spellAll, spellAll_append, spellAll_append, spellAll_singleton, ihBody, ihElse,
      render]
    simp only [spell, String.append_assoc]
  case comment =>
    intro body ihBody
    rw [pieces, spellAll_singleton, spell, ihBody, render]
  case native =>
    intro before body after ihBody
    rw [pieces, spellAll, spellAll_append, spellAll_singleton, ihBody, render]
    simp only [spell, String.append_assoc]
  case nil => rw [piecesAll, spellAll, renderAll]
  case cons =>
    intro r rs ihFirst ihRest
    rw [piecesAll, spellAll_append, ihFirst, ihRest, renderAll]
  case noFurther => rw [piecesFurther, spellAll, renderFurther]
  case further =>
    intro c body rest ihBody ihRest
    rw [piecesFurther, spellAll, spellAll_append, ihBody, ihRest, renderFurther]
    simp only [spell, String.append_assoc]
  case noElse => rw [piecesElse, spellAll, renderElse]
  case otherwise =>
    intro body ihBody
    rw [piecesElse, spellAll, ihBody, renderElse]
    simp only [spell]

/-- Behind a residual template the brackets are open that were open before it; behind its later
branches the innermost one is that of the condition itself. -/
theorem steps_pieces :
    (∀ r opened, steps (pieces r) opened = some opened) ∧
    (∀ e opened,
      ∃ b b', steps (piecesElse e) (.cond :: opened) = some (b :: opened) ∧
        step .closeIf (b :: opened) = some opened ∧
        steps (piecesElse e) (.ifNot :: opened) = some (b' :: opened) ∧
        step .closeUnless (b' :: opened) = some opened) ∧
    (∀ rs opened, steps (piecesAll rs) opened = some opened) ∧
    (∀ bs opened, steps (piecesFurther bs) (.cond :: opened) = some (.cond :: opened)) := by
  apply parts_induction
  case text =>
    intro value opened
    rfl
  case echo =>
    intro name opened
    rfl
  case cond =>
    intro first body further otherwise ihBody ihFurther ihElse opened
    obtain ⟨b, -, hb, close, -⟩ := ihElse opened
    rw [pieces, steps, step, Option.bind_some, steps_append, steps_append, steps_append, ihBody,
      Option.bind_some, ihFurther, Option.bind_some, hb, Option.bind_some, steps, close]
    rfl
  case ifNot =>
    intro name body otherwise ihBody ihElse opened
    obtain ⟨-, b, -, -, hb, close⟩ := ihElse opened
    rw [pieces, steps, step, Option.bind_some, steps_append, steps_append, ihBody,
      Option.bind_some, hb, Option.bind_some, steps, close]
    rfl
  case comment =>
    intro body ihBody opened
    rw [pieces, steps, step, if_pos (ihBody [])]
    rfl
  case native =>
    intro before body after ihBody opened
    rw [pieces, steps, step, Option.bind_some, steps_append, ihBody]
    rfl
  case nil =>
    intro opened
    rfl
  case cons =>
    intro r rs ihFirst ihRest opened
    rw [piecesAll, steps_append, ihFirst, Option.bind_some, ihRest]
  case noFurther =>
    intro opened
    rfl
  case further =>
    intro c body rest ihBody ihRest opened
    rw [piecesFurther, steps, step, Option.bind_some, steps_append, ihBody, Option.bind_some,
      ihRest]
  case noElse =>
    intro opened
    exact ⟨.cond, .ifNot, rfl, rfl, rfl, rfl⟩
  case otherwise =>
    intro body ihBody opened
    refine ⟨.condElse, .ifNotElse, ?_, rfl, ?_, rfl⟩
    · rw [piecesElse, steps, step, Option.bind_some, ihBody]
    · rw [piecesElse, steps, step, Option.bind_some, ihBody]

theorem bracketed_piecesAll (rs : List Residual) : Bracketed (piecesAll rs) :=
  steps_pieces.2.2.1 rs []

theorem spellAll_piecesAll (f : Fragments) (shown : Bool) (rs : List Residual) :
    spellAll f shown (piecesAll rs) = renderAll f shown rs :=
  (spell_pieces f shown).2.2.1 rs

end Residual

end Stencil
