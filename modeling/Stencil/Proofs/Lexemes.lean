import Stencil.Template.Lexeme

set_option autoImplicit false

/-!
# Cutting a text into lexemes

A text lexeme is the stretch of text that it was read from, and a text without two opening braces
in a row, read without any tags, holds nothing but texts.
-/

namespace Stencil.Template.Lexeme

theorem spanText_append (cs : List Char) : (spanText cs).1 ++ (spanText cs).2 = cs := by
  induction cs with
  | nil => rfl
  | cons c cs ih =>
    rw [spanText]
    split
    · rfl
    · exact congrArg (c :: ·) ih

theorem scanText_append (c : Char) (cs : List Char) :
    (c :: (spanText cs).1) ++ (scanText c cs).2 = c :: cs :=
  congrArg (c :: ·) (spanText_append cs)

def isText : Lexeme → Bool
  | text _ => true
  | _ => false

def textChars : Lexeme → List Char
  | text value => value
  | _ => []

theorem exists_of_tag? {names : List (List Char)} {cs : List Char} {r : Lexeme × List Char}
    (h : tag? names cs = some r) :
    ∃ before after name parameters ds, r.1 = tag before after name parameters ∧
      spacedTag? names ds = some (name, parameters, after, r.2) := by
  have plain {ds : List Char} (h : (spacedTag? names ds).map
      (fun t => (tag false t.2.2.1 t.1 t.2.1, t.2.2.2)) = some r) :
      ∃ before after name parameters ds, r.1 = tag before after name parameters ∧
        spacedTag? names ds = some (name, parameters, after, r.2) := by
    obtain ⟨⟨name, parameters, after, rest⟩, read, rfl⟩ := Option.map_eq_some_iff.1 h
    exact ⟨false, after, name, parameters, ds, rfl, read⟩
  unfold tag? at h
  split at h
  · rename_i inner
    split at h
    · rename_i name parameters after rest read
      obtain rfl := Option.some.inj h
      exact ⟨true, after, name, parameters, inner, rfl, read⟩
    · exact plain h
  · exact plain h

theorem isText_tag? {names : List (List Char)} {cs : List Char} {r : Lexeme × List Char}
    (h : tag? names cs = some r) : r.1.isText = false := by
  obtain ⟨before, after, name, parameters, ds, tagged, -⟩ := exists_of_tag? h
  rw [tagged]
  rfl

theorem isText_interpolation? {cs : List Char} {r : Lexeme × List Char}
    (h : interpolation? cs = some r) : r.1.isText = false := by
  have named {before : Bool} {ds : List Char} (h : variableFrom? before ds = some r) :
      r.1.isText = false := by
    unfold variableFrom? at h
    split at h
    · exact nomatch h
    · obtain ⟨t, -, rfl⟩ := Option.map_eq_some_iff.1 h
      rfl
  unfold interpolation? at h
  split at h <;> exact named h

theorem scan_text_append {names : List (List Char)} {c : Char} {cs : List Char}
    (h : (scan names c cs).1.isText = true) :
    (scan names c cs).1.textChars ++ (scan names c cs).2 = c :: cs := by
  unfold scan at h ⊢
  split at h
  · rename_i inner
    cases ht : tag? names inner with
    | none => exact scanText_append _ _
    | some r =>
      rw [ht, Option.getD_some, isText_tag? ht] at h
      exact absurd h Bool.false_ne_true
  · rename_i inner
    cases hi : interpolation? inner with
    | none => exact scanText_append _ _
    | some r =>
      rw [hi, Option.getD_some, isText_interpolation? hi] at h
      exact absurd h Bool.false_ne_true
  · exact scanText_append c cs

theorem anyTag?_nil (cs : List Char) : anyTag? [] cs = none := rfl

theorem tag?_nil (cs : List Char) : tag? [] cs = none := by
  have none_of_spaced : ∀ ds : List Char, spacedTag? [] ds = none := by
    intro ds
    exact List.findSome?_eq_none_iff.2 fun _ _ => anyTag?_nil _
  unfold tag?
  split
  · rw [none_of_spaced, none_of_spaced]
    rfl
  · rw [none_of_spaced]
    rfl

def braces : List Char := ['{', '{']

theorem isText_scan_nil {c : Char} {cs : List Char} (h : ¬ braces <:+: c :: cs) :
    (scan [] c cs).1.isText = true := by
  unfold scan
  split
  · rw [tag?_nil]
    rfl
  · rename_i inner
    exact absurd ⟨[], inner, rfl⟩ h
  · rfl

theorem scan_suffix_of_isText {names : List (List Char)} {c : Char} {cs : List Char}
    (h : (scan names c cs).1.isText = true) : (scan names c cs).2 <:+ c :: cs :=
  ⟨_, scan_text_append h⟩

theorem all_nil_texts {cs : List Char} (h : ¬ braces <:+: cs) :
    (∀ l ∈ all [] cs, l.1.isText = true) ∧ (all [] cs).flatMap (fun l => l.1.textChars) = cs := by
  induction cs using all.induct [] with
  | case1 =>
    rw [all]
    exact ⟨fun l hl => absurd hl List.not_mem_nil, rfl⟩
  | case2 c cs read ih =>
    have first := isText_scan_nil h
    have rest : ¬ braces <:+: read.2 := fun hi =>
      h (hi.trans (scan_suffix_of_isText first).isInfix)
    obtain ⟨texts, whole⟩ := ih rest
    rw [all]
    refine ⟨?_, ?_⟩
    · intro l hl
      rcases List.mem_cons.1 hl with rfl | hl
      · exact first
      · exact texts l hl
    · rw [List.flatMap_cons, whole]
      exact scan_text_append first

end Stencil.Template.Lexeme
