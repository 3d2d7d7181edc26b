import Stencil.Proofs.WrittenConditions

set_option autoImplicit false

/-!
# Decoding literals

Two replacements take the backslashes out of a literal, and the second runs over what the first has
made. On every literal that the readers accept they come to what one walk from left to right gives,
which takes a backslash and the character behind it together.
-/

namespace Stencil.Text

/-- What may stand between two quotes `q`: characters other than the quote and the backslash, and
backslashes that take the next character along, whatever it is. -/
inductive LiteralBody (q : Char) : List Char → Prop
  | nil : LiteralBody q []
  | char {c : Char} {cs : List Char} (quote : c ≠ q) (slash : c ≠ '\\')
      (others : LiteralBody q cs) : LiteralBody q (c :: cs)
  | pair {c : Char} {cs : List Char} (others : LiteralBody q cs) : LiteralBody q ('\\' :: c :: cs)

/-- Walks once from left to right: a backslash goes away in front of the quote and in front of
another backslash, and stays in front of any other character. -/
def decodeBody (q : Char) : List Char → List Char
  | '\\' :: c :: cs =>
    if c = q ∨ c = '\\' then c :: decodeBody q cs else '\\' :: c :: decodeBody q cs
  | c :: cs => c :: decodeBody q cs
  | [] => []

theorem decodeBody_char {q c : Char} (slash : c ≠ '\\') (cs : List Char) :
    decodeBody q (c :: cs) = c :: decodeBody q cs := by
  rw [decodeBody]
  exact fun _ _ same => absurd same slash

theorem decodeBody_pair (q c : Char) (cs : List Char) :
    decodeBody q ('\\' :: c :: cs) =
      if c = q ∨ c = '\\' then c :: decodeBody q cs else '\\' :: c :: decodeBody q cs := by
  rw [decodeBody]

section Body

variable {q : Char} (hq : q ≠ '\\')
include hq

theorem LiteralBody.head?_ne {body : List Char} (h : LiteralBody q body) : body.head? ≠ some q := by
  cases h with
  | nil => exact nofun
  | char quote _ _ => exact fun first => quote (Option.some.inj first)
  | pair _ => exact fun first => hq (Option.some.inj first).symm

/-- The first replacement takes no backslash away that the second would have paired: what it leaves
behind a backslash is never a quote of its own. -/
theorem replacePair_twice {body : List Char} (h : LiteralBody q body) :
    replacePair '\\' '\\' '\\' (replacePair '\\' q q body) = decodeBody q body := by
  induction h with
  | nil => rfl
  | char _ slash _ ih =>
    rw [replacePair_miss fun same => absurd same slash,
      replacePair_miss fun same => absurd same slash, ih, decodeBody_char slash]
  | @pair c cs others ih =>
    rw [decodeBody_pair]
    by_cases quote : c = q
    · rw [if_pos (.inl quote), quote, replacePair_hit,
        replacePair_miss fun same => absurd same hq, ih]
    · have apart : (c :: cs).head? ≠ some q := fun first => quote (Option.some.inj first)
      rw [replacePair_miss fun _ => apart]
      by_cases slash : c = '\\'
      · rw [if_pos (.inr slash), slash, replacePair_miss fun _ => others.head?_ne hq,
          replacePair_hit, ih]
      · have alone (b by' : Char) (ds : List Char) :
            replacePair '\\' b by' (c :: ds) = c :: replacePair '\\' b by' ds :=
          replacePair_miss fun same => absurd same slash
        have unpaired (ds : List Char) : (c :: ds).head? ≠ some '\\' :=
          fun first => slash (Option.some.inj first)
        rw [if_neg (not_or.2 ⟨quote, slash⟩), alone, replacePair_miss fun _ => unpaired _, alone,
          ih]

theorem literalBody?_append {body : List Char} (h : LiteralBody q body) (rest : List Char) :
    literalBody? true q (body ++ q :: rest) = some (body, rest) := by
  induction h with
  | nil =>
    rw [List.nil_append, literalBody?]
    · simp
    · exact fun _ _ same => absurd same hq
  | char quote slash _ ih =>
    rw [List.cons_append, literalBody?]
    · simp [quote, slash, ih]
    · exact fun _ _ same => absurd same slash
  | pair _ ih => simp [literalBody?, ih]

end Body

theorem literalBody_of_literalBody? {newlines : Bool} {q : Char} {cs body rest : List Char}
    (h : literalBody? newlines q cs = some (body, rest)) : LiteralBody q body := by
  fun_induction literalBody? newlines q cs generalizing body rest with
  | case1 => exact nomatch h
  | case2 => exact nomatch h
  | case3 c cs _ ih =>
    obtain ⟨⟨more, later⟩, read, same⟩ := Option.map_eq_some_iff.1 h
    obtain ⟨rfl, rfl⟩ := Prod.mk.inj same
    exact .pair (ih read)
  | case4 =>
    obtain ⟨rfl, rfl⟩ := Prod.mk.inj (Option.some.inj h)
    exact .nil
  | case5 => exact nomatch h
  | case6 c cs _ quote slash ih =>
    obtain ⟨⟨more, later⟩, read, same⟩ := Option.map_eq_some_iff.1 h
    obtain ⟨rfl, rfl⟩ := Prod.mk.inj same
    exact .char (by simpa using quote) (by simpa using slash) (ih read)

/-- A text between two quotes of one kind is read whole as a literal exactly if it is the body of
one, and then unescaping decodes it. -/
theorem literal_is_decoded {q : Char} (quote : isQuote q = true) (body : List Char) :
    (literal? true (q :: body ++ [q]) = some (q :: body ++ [q], []) ↔ LiteralBody q body) ∧
      (LiteralBody q body → unescape (q :: body ++ [q]) = decodeBody q body) := by
  have backslash := ne_backslash_of_isQuote quote
  refine ⟨⟨fun read => ?_, fun form => ?_⟩, fun form => ?_⟩
  · rw [List.cons_append, literal?, if_pos quote] at read
    obtain ⟨⟨inside, rest⟩, taken, same⟩ := Option.map_eq_some_iff.1 read
    obtain rfl : inside = body := by simpa using (Prod.mk.inj same).1
    exact literalBody_of_literalBody? taken
  · rw [List.cons_append, literal?, if_pos quote, literalBody?_append backslash form]
    rfl
  · rw [unescape_between quote, replacePair_twice backslash form]

def tangledBody : List Char := "it\\\\\\'s \" \\n \\\n".toList

theorem tangled_literal_is_decoded :
    isQuote '\'' = true ∧ LiteralBody '\'' tangledBody ∧
      unescape ('\'' :: tangledBody ++ ['\'']) = "it\\'s \" \\n \\\n".toList := by
  have read : literal? true ('\'' :: tangledBody ++ ['\'']) =
      some ('\'' :: tangledBody ++ ['\''], []) := by decide
  obtain ⟨accepted, decoded⟩ := @literal_is_decoded '\'' (by decide) tangledBody
  have form := accepted.1 read
  exact ⟨by decide, form, (decoded form).trans (by decide)⟩

end Stencil.Text
