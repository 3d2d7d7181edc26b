import Stencil.Text.Word
import Stencil.Text.Blank

set_option autoImplicit false

/-!
# Variable names

A name is a run of word characters and dots, followed by any number of bracketed indices, each
with a further run: `user.name`, `items[0].title`. Whatever stands between brackets belongs to
the name, up to the first closing bracket.
-/

namespace Stencil.Template

def isNameChar (c : Char) : Bool :=
  Text.isWord c || c == '.'

/-- Reads on inside a name. With `bracket` the reading stands inside an index, and fails where
the index is not closed; outside, it stops at the first character that cannot belong to the
name. -/
def spanName (bracket : Bool) : List Char → Option (List Char × List Char)
  | [] => if bracket then none else some ([], [])
  | c :: cs =>
    if bracket then
      (spanName (c != ']') cs).map fun (name, rest) => (c :: name, rest)
    else if isNameChar c then
      (spanName false cs).map fun (name, rest) => (c :: name, rest)
    else if c == '[' then
      match spanName true cs with
      | some (name, rest) => some (c :: name, rest)
      | none => some ([], c :: cs)
    else some ([], c :: cs)

/-- The longest name at the start of a text, and what follows it. -/
def name? : List Char → Option (List Char × List Char)
  | [] => none
  | c :: cs => if isNameChar c then spanName false (c :: cs) else none

def isName (cs : List Char) : Bool :=
  match name? cs with
  | some (_, []) => true
  | _ => false

theorem append_of_spanName {bracket : Bool} {cs name rest : List Char}
    (h : spanName bracket cs = some (name, rest)) : name ++ rest = cs := by
  induction cs generalizing bracket name rest with
  | nil => cases bracket <;> simp_all [spanName]
  | cons c cs ih =>
    simp only [spanName] at h
    split at h
    · obtain ⟨⟨n, r⟩, hn, he⟩ := Option.map_eq_some_iff.1 h
      simp only [Prod.mk.injEq] at he
      simp [← he.1, ← he.2, ih hn]
    · split at h
      · obtain ⟨⟨n, r⟩, hn, he⟩ := Option.map_eq_some_iff.1 h
        simp only [Prod.mk.injEq] at he
        simp [← he.1, ← he.2, ih hn]
      · split at h
        · split at h
          · rename_i n r hn
            simp only [Option.some.injEq, Prod.mk.injEq] at h
            simp [← h.1, ← h.2, ih hn]
          · simp only [Option.some.injEq, Prod.mk.injEq] at h
            simp [← h.1, ← h.2]
        · simp only [Option.some.injEq, Prod.mk.injEq] at h
          simp [← h.1, ← h.2]

theorem append_of_name? {cs name rest : List Char} (h : name? cs = some (name, rest)) :
    name ++ rest = cs := by
  cases cs with
  | nil => simp [name?] at h
  | cons c cs =>
    simp only [name?] at h
    split at h
    · exact append_of_spanName h
    · simp at h

end Stencil.Template
