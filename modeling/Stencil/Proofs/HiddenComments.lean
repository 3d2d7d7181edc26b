import Mathlib
import Stencil.Dialect.Php
import Stencil.Proofs.Brackets
import Stencil.Proofs.CompileEquations
import Stencil.Proofs.Outcome
import Stencil.Transform

set_option autoImplicit false

/-!
# Comments that PHP hides

A comment that is not shown stands between `<?php /* ` and ` */ ?>` just as it was compiled, and
PHP ends a comment at the first `*/`. Whether the whole body is hidden is therefore a question
about the pieces that the body is spelled with: the fixed texts of the dialect keep what stands on
their two sides apart, so a `*/` comes from one of the words that a piece spells out, from texts
that stand side by side, or from a comment inside the comment.
-/

namespace Stencil

namespace Dialect.Php

def closer : List Char := ['*', '/']

/-- What PHP reads on with once a comment has been opened: all that is behind the first closer. -/
def behindComment : List Char → Option (List Char)
  | [] => none
  | c :: cs => if closer <+: c :: cs then some (cs.drop 1) else behindComment cs

/-- The output is one comment of PHP and nothing else: the comment that it opens is ended by the
closer at its very end. -/
def Hides (out : String) : Prop :=
  ∃ inside, out.toList = "<?php /*".toList ++ inside ∧ behindComment inside = some " ?>".toList

theorem closer_prefix_cons {c : Char} {cs : List Char} :
    closer <+: c :: cs ↔ c = '*' ∧ cs.head? = some '/' := by
  rw [closer, List.cons_prefix_cons, eq_comm]
  refine and_congr_right fun _ => ?_
  cases cs with
  | nil => simp
  | cons d ds => simp [List.cons_prefix_cons, eq_comm]

theorem closer_infix_cons {c : Char} {cs : List Char} :
    closer <:+: c :: cs ↔ (c = '*' ∧ cs.head? = some '/') ∨ closer <:+: cs := by
  rw [List.infix_cons_iff, closer_prefix_cons]

theorem not_closer_infix_nil : ¬ closer <:+: [] := by
  decide

theorem closer_infix_append {a b : List Char} :
    closer <:+: a ++ b ↔
      closer <:+: a ∨ closer <:+: b ∨ (a.getLast? = some '*' ∧ b.head? = some '/') := by
  induction a with
  | nil => simp [closer]
  | cons c cs ih =>
    rw [List.cons_append, closer_infix_cons, closer_infix_cons, ih]
    cases cs with
    | nil => simp [closer, or_comm]
    | cons d ds => simp [List.getLast?_cons_cons, or_assoc]

theorem behindComment_eq_some_iff {cs rest : List Char} :
    behindComment cs = some rest ↔
      ∃ hidden, cs = hidden ++ closer ++ rest ∧ ¬ closer <:+: hidden := by
  induction cs with
  | nil => simp [behindComment, closer]
  | cons c cs ih =>
    rw [behindComment]
    split
    case isTrue first =>
      obtain ⟨t, same⟩ := first
      obtain ⟨rfl, rfl⟩ := List.cons.inj same
      constructor
      · intro h
        obtain rfl : t = rest := by simpa using h
        exact ⟨[], rfl, not_closer_infix_nil⟩
      · rintro ⟨hidden, cut, unclosed⟩
        match hidden, cut, unclosed with
        | [], cut, _ => simpa [closer] using cut
        | [_], cut, _ => simp [closer] at cut
        | d :: e :: hidden, cut, unclosed =>
          obtain ⟨rfl, rfl, -⟩ : '*' = d ∧ '/' = e ∧ _ := by simpa [closer] using cut
          exact absurd ⟨[], hidden, rfl⟩ unclosed
    case isFalse first =>
      rw [ih]
      constructor
      · rintro ⟨hidden, rfl, unclosed⟩
        refine ⟨c :: hidden, rfl, fun found => ?_⟩
        rcases List.infix_cons_iff.1 found with early | found
        · exact first (early.trans ⟨closer ++ rest, by simp⟩)
        · exact unclosed found
      · rintro ⟨hidden, cut, unclosed⟩
        cases hidden with
        | nil => exact absurd ⟨rest, cut.symm⟩ first
        | cons d hidden =>
          obtain ⟨rfl, rfl⟩ := List.cons.inj cut
          exact ⟨hidden, rfl, fun found => unclosed (List.infix_cons found)⟩

/-- A text that keeps what stands on its two sides apart: no closer reaches into it. -/
structure Fence (cs : List Char) : Prop where
  nonempty : cs ≠ []
  first : cs.head? ≠ some '/'
  last : cs.getLast? ≠ some '*'
  whole : ¬ closer <:+: cs

theorem Fence.closer_infix {f : List Char} (fence : Fence f) (a b : List Char) :
    closer <:+: a ++ (f ++ b) ↔ closer <:+: a ∨ closer <:+: b := by
  have last : ¬ (f.getLast? = some '*' ∧ b.head? = some '/') := fun h => fence.last h.1
  have first : ¬ (a.getLast? = some '*' ∧ (f ++ b).head? = some '/') := by
    rw [List.head?_append_of_ne_nil _ fence.nonempty]
    exact fun h => fence.first h.2
  rw [closer_infix_append, closer_infix_append]
  simp only [fence.whole, last, first, false_or, or_false]

theorem Fence.closer_infix_front {f : List Char} (fence : Fence f) (b : List Char) :
    closer <:+: f ++ b ↔ closer <:+: b := by
  have := fence.closer_infix [] b
  rwa [List.nil_append, or_iff_right not_closer_infix_nil] at this

theorem Fence.closer_infix_back {f : List Char} (fence : Fence f) (a : List Char) :
    closer <:+: a ++ f ↔ closer <:+: a := by
  have := fence.closer_infix a []
  rwa [List.append_nil, or_iff_left not_closer_infix_nil] at this

theorem hides_hiddenComment_iff (body : String) :
    Hides (fragments.hiddenComment body) ↔ ¬ closer <:+: body.toList := by
  have blank : Fence [' '] := ⟨by decide, by decide, by decide, by decide⟩
  have spelled : (fragments.hiddenComment body).toList =
      "<?php /*".toList ++ (([' '] ++ (body.toList ++ [' '])) ++ closer ++ " ?>".toList) := by
    simp [fragments, closer]
  have inner : closer <:+: [' '] ++ (body.toList ++ [' ']) ↔ closer <:+: body.toList := by
    rw [blank.closer_infix_front, blank.closer_infix_back]
  rw [Hides, spelled]
  constructor
  · rintro ⟨inside, same, read⟩
    obtain ⟨hidden, cut, unclosed⟩ := behindComment_eq_some_iff.1 read
    have := List.append_cancel_left same
    rw [cut, List.append_left_inj, List.append_left_inj] at this
    rwa [← this, inner] at unclosed
  · intro unclosed
    exact ⟨_, rfl, behindComment_eq_some_iff.2 ⟨_, rfl, fun found => unclosed (inner.1 found)⟩⟩

theorem head?_escape (cs : List Char) : (escape cs).head? = some '/' ↔ cs.head? = some '/' := by
  cases cs with
  | nil => rfl
  | cons c cs =>
    rw [escape]
    split <;> grind

theorem closer_infix_escape (cs : List Char) : closer <:+: escape cs ↔ closer <:+: cs := by
  induction cs with
  | nil => rfl
  | cons c cs ih =>
    rw [escape]
    split
    case isTrue quoted =>
      have : c ≠ '*' := by grind
      simp [closer_infix_cons, this, ih]
    case isFalse =>
      rw [closer_infix_cons, closer_infix_cons, ih, head?_escape]

def fixedTexts : List String :=
  ["<?php if (", "<?php elseif (", "$", " ", "'", ") : ?>", "<?php else : ?>", "<?php endif; ?>",
    "<?php if (!$", "<?php echo $", "; ?>"]

theorem fences : ∀ text ∈ fixedTexts, Fence text.toList := by
  have checked : ∀ text ∈ fixedTexts, text.toList ≠ [] ∧ text.toList.head? ≠ some '/' ∧
      text.toList.getLast? ≠ some '*' ∧ ¬ closer <:+: text.toList := by decide
  intro text mem
  obtain ⟨nonempty, first, last, whole⟩ := checked text mem
  exact ⟨nonempty, first, last, whole⟩

end Dialect.Php

def Condition.words (c : Condition) : List String :=
  c.name :: match c.comparison with
    | some cmp => [cmp.operator, cmp.value]
    | none => []

namespace Dialect.Php

theorem closer_infix_between {opening closing : String} (before : Fence opening.toList)
    (behind : Fence closing.toList) (word : String) (front back : List Char) :
    closer <:+: front ++ ((opening ++ word ++ closing).toList ++ back) ↔
      closer <:+: front ∨ closer <:+: word.toList ∨ closer <:+: back := by
  simp only [String.toList_append, List.append_assoc, before.closer_infix, behind.closer_infix]

theorem closer_infix_condition {opening : String} (before : Fence opening.toList) (c : Condition)
    (front back : List Char) :
    closer <:+: front ++ ((opening ++ expression c ++ ") : ?>").toList ++ back) ↔
      closer <:+: front ∨ (∃ w ∈ c.words, closer <:+: w.toList) ∨ closer <:+: back := by
  have dollar := fences "$" (by simp [fixedTexts])
  have blank := fences " " (by simp [fixedTexts])
  have sign := fences "'" (by simp [fixedTexts])
  have behind := fences ") : ?>" (by simp [fixedTexts])
  have quoted (s : String) : (quote s).toList = "'".toList ++ (escape s.toList ++ "'".toList) := by
    simp [quote]
  rcases c with ⟨name, none | ⟨operator, value⟩⟩
  · simp only [expression, Condition.words, String.toList_append, String.toList_empty,
      List.append_assoc, List.nil_append, before.closer_infix, dollar.closer_infix_front,
      behind.closer_infix, List.mem_singleton, exists_eq_left]
  · simp only [expression, Condition.words, String.toList_append, List.append_assoc, quoted,
      before.closer_infix, dollar.closer_infix_front, blank.closer_infix,
      sign.closer_infix_front, sign.closer_infix, behind.closer_infix_front, closer_infix_escape,
      List.exists_mem_cons_iff, List.not_mem_nil, false_and, exists_false, or_false, or_assoc]

end Dialect.Php

namespace Piece

open Dialect.Php

/-- What a piece spells out of a template's own words, beside the fixed texts of the dialect. -/
def words : Piece → List String
  | echo name => [name]
  | openUnless name => [name]
  | openIf c => c.words
  | openElseif c => c.words
  | _ => []

/-- What closes a comment that is spelled around the pieces: a comment among them, whatever it
holds; a word of one of them; or texts side by side. -/
inductive Closes (ps : List Piece) : Prop
  | comment {body : List Piece} (inside : .comment body ∈ ps)
  | word {p : Piece} {w : String} (inside : p ∈ ps) (spelled : w ∈ p.words)
      (closes : closer <:+: w.toList)
  | texts {run : List String} (inside : run.map .text <:+: ps)
      (closes : closer <:+: (String.join run).toList)

theorem Closes.mono {ps qs : List Piece} (h : Closes qs) (inside : qs <:+: ps) : Closes ps := by
  cases h with
  | comment mem => exact .comment (inside.mem mem)
  | word mem spelled closes => exact .word (inside.mem mem) spelled closes
  | texts run closes => exact .texts (run.trans inside) closes

theorem texts_prefix_cons {p : Piece} (other : ∀ v, p ≠ .text v) {run : List String}
    {ps : List Piece} (h : run.map .text <+: p :: ps) : run = [] := by
  cases run with
  | nil => rfl
  | cons v run => exact absurd (List.cons_prefix_cons.1 h).1.symm (other v)

theorem texts_infix_append_cons {p : Piece} (other : ∀ v, p ≠ .text v) {run : List String}
    {qs ps : List Piece} (h : run.map .text <:+: qs ++ p :: ps) :
    run.map .text <:+: qs ∨ run.map .text <:+: ps := by
  rcases List.infix_append_iff.1 h with inside | inside | ⟨_, _, same, front, back⟩
  · exact .inl inside
  · rcases List.infix_cons_iff.1 inside with early | inside
    · obtain rfl := texts_prefix_cons other early
      exact .inr List.nil_infix
    · exact .inr inside
  · obtain ⟨r, r', rfl, rfl, rfl⟩ := List.map_eq_append_iff.1 same
    obtain rfl := texts_prefix_cons other back
    exact .inl (by simpa using front.isInfix)

theorem closes_append_cons {p : Piece} (other : ∀ v, p ≠ .text v) (qs ps : List Piece) :
    Closes (qs ++ p :: ps) ↔ Closes qs ∨ Closes [p] ∨ Closes ps := by
  constructor
  · rintro (⟨mem⟩ | ⟨mem, spelled, closes⟩ | ⟨run, closes⟩)
    · rcases List.mem_append.1 mem with mem | mem
      · exact .inl (.comment mem)
      · rcases List.mem_cons.1 mem with rfl | mem
        · exact .inr (.inl (.comment (List.mem_singleton_self _)))
        · exact .inr (.inr (.comment mem))
    · rcases List.mem_append.1 mem with mem | mem
      · exact .inl (.word mem spelled closes)
      · rcases List.mem_cons.1 mem with rfl | mem
        · exact .inr (.inl (.word (List.mem_singleton_self _) spelled closes))
        · exact .inr (.inr (.word mem spelled closes))
    · rcases texts_infix_append_cons other run with run | run
      · exact .inl (.texts run closes)
      · exact .inr (.inr (.texts run closes))
  · rintro (h | h | h)
    · exact h.mono (List.prefix_append _ _).isInfix
    · exact h.mono ⟨qs, ps, by simp⟩
    · exact h.mono ⟨qs ++ [p], [], by simp⟩

theorem closes_texts_iff (run : List String) :
    Closes (run.map .text) ↔ closer <:+: (String.join run).toList := by
  constructor
  · rintro (⟨mem⟩ | ⟨mem, spelled, -⟩ | ⟨inside, closes⟩)
    · simp at mem
    · obtain ⟨v, -, rfl⟩ := List.mem_map.1 mem
      exact absurd spelled List.not_mem_nil
    · obtain ⟨run', inside, same⟩ := List.infix_map_iff.1 inside
      obtain rfl := List.map_injective_iff.2 (fun _ _ => Piece.text.inj) same
      rw [String.toList_join] at closes ⊢
      obtain ⟨front, back, rfl⟩ := inside
      exact closes.trans ⟨front.flatMap String.toList, back.flatMap String.toList, by simp⟩
  · exact .texts List.infix_rfl

theorem closes_singleton_iff {p : Piece} (other : ∀ v, p ≠ .text v) :
    Closes [p] ↔ (∃ body, p = .comment body) ∨ ∃ w ∈ p.words, closer <:+: w.toList := by
  constructor
  · rintro (⟨mem⟩ | ⟨mem, spelled, closes⟩ | ⟨run, closes⟩)
    · exact .inl ⟨_, (List.mem_singleton.1 mem).symm⟩
    · obtain rfl := List.mem_singleton.1 mem
      exact .inr ⟨_, spelled, closes⟩
    · have none := (@texts_infix_append_cons p other _ [] [] run).elim id id
      rw [List.infix_nil, List.map_eq_nil_iff] at none
      rw [none, String.join_nil, String.toList_empty] at closes
      exact absurd closes not_closer_infix_nil
  · rintro (⟨body, rfl⟩ | ⟨w, spelled, closes⟩)
    · exact .comment (List.mem_singleton_self _)
    · exact .word (List.mem_singleton_self _) spelled closes

theorem closer_infix_spell {p : Piece} (other : ∀ v, p ≠ .text v) (front back : List Char) :
    closer <:+: front ++ ((spell fragments false p).toList ++ back) ↔
      closer <:+: front ∨ Closes [p] ∨ closer <:+: back := by
  rw [closes_singleton_iff other]
  cases p with
  | text v => exact absurd rfl (other v)
  | comment body =>
    have closed : closer <:+: (spell fragments false (.comment body)).toList :=
      ⟨("<?php /* " ++ spellAll fragments false body ++ " ").toList, " ?>".toList, by
        simp [spell, fragments, Fragments.comment, closer]⟩
    exact iff_of_true (closed.trans ⟨front, back, by simp⟩) (.inr (.inl (.inl ⟨body, rfl⟩)))
  | echo name =>
    have opening := fences "<?php echo $" (by simp [fixedTexts])
    have closing := fences "; ?>" (by simp [fixedTexts])
    simpa only [spell, fragments, words, List.mem_singleton, exists_eq_left, reduceCtorEq,
      exists_false, false_or] using closer_infix_between opening closing name front back
  | openUnless name =>
    have opening := fences "<?php if (!$" (by simp [fixedTexts])
    have closing := fences ") : ?>" (by simp [fixedTexts])
    simpa only [spell, fragments, words, List.mem_singleton, exists_eq_left, reduceCtorEq,
      exists_false, false_or] using closer_infix_between opening closing name front back
  | openIf c =>
    have opening := fences "<?php if (" (by simp [fixedTexts])
    simpa only [spell, fragments, words, reduceCtorEq, exists_false, false_or] using
      closer_infix_condition opening c front back
  | openElseif c =>
    have opening := fences "<?php elseif (" (by simp [fixedTexts])
    simpa only [spell, fragments, words, reduceCtorEq, exists_false, false_or] using
      closer_infix_condition opening c front back
  | openElse =>
    have fixed := fences "<?php else : ?>" (by simp [fixedTexts])
    simpa only [spell, fragments, words, List.not_mem_nil, false_and, reduceCtorEq, exists_false,
      false_or] using fixed.closer_infix front back
  | closeIf | closeUnless =>
    have fixed := fences "<?php endif; ?>" (by simp [fixedTexts])
    simpa only [spell, fragments, words, List.not_mem_nil, false_and, reduceCtorEq, exists_false,
      false_or] using fixed.closer_infix front back

theorem closer_infix_spellAll (ps : List Piece) (run : List String) :
    closer <:+: (String.join run).toList ++ (spellAll fragments false ps).toList ↔
      Closes (run.map .text ++ ps) := by
  -- A text makes the run longer, any other piece ends it: the run is general in the induction.
  induction ps generalizing run with
  | nil =>
    rw [spellAll, String.toList_empty, List.append_nil, List.append_nil, closes_texts_iff]
  | cons p ps ih =>
    by_cases other : ∀ v, p ≠ .text v
    · have behind := ih []
      rw [String.join_nil, String.toList_empty, List.nil_append, List.map_nil,
        List.nil_append] at behind
      rw [spellAll, String.toList_append, closer_infix_spell other, closes_append_cons other,
        behind, closes_texts_iff]
    · obtain ⟨v, rfl⟩ := not_forall_not.1 other
      have longer := ih (run ++ [v])
      rwa [String.toList_join, List.flatMap_append, List.flatMap_singleton, List.append_assoc,
        List.map_append, List.append_assoc, ← String.toList_join,
        ← String.toList_append] at longer

theorem closes_iff (ps : List Piece) :
    Closes ps ↔ closer <:+: (spellAll fragments false ps).toList := by
  simpa only [String.join_nil, String.toList_empty, List.nil_append, List.map_nil] using
    (closer_infix_spellAll ps []).symm

end Piece

namespace Compile

open Template Dialect.Php

theorem acts_comment {env : Env} (target : env.dialect = .php) {n : Node}
    (commented : n.kind = "comment") {s s' : Session} {rs : List Residual}
    (done : (node env n).outcome s = (.ok rs, s')) : Acts env n .comment := by
  have shared : env.dialect.extension? n.kind = none := by
    rw [target, commented]
    decide
  cases n with
  | text v i => exact absurd commented (show "text" ≠ "comment" by decide)
  | block k p i cs => exact ⟨rfl, shared, by rw [commented]; rfl⟩
  | leaf k p i =>
    change k = "comment" at commented
    subst commented
    change env.dialect.extension? "comment" = none at shared
    rw [node, leaf, shared] at done
    have fails : Except.error Failure.missingPart = Except.ok rs := congrArg Prod.fst done
    cases fails

/-- What a `comment` node comes to hides the whole of its body just when nothing in the body
closes it: no word that a piece spells out, no texts side by side, and no comment of its own. -/
theorem comment_hides_iff {env : Env} (target : env.dialect = .php) {n : Node}
    (commented : n.kind = "comment") {s s' : Session} {rs : List Residual}
    (done : (node env n).outcome s = (.ok rs, s')) :
    ∃ body, (nodes env n.children).outcome s = (.ok body, s') ∧ rs = [.comment body] ∧
      Residual.renderAll env.dialect.fragments false rs =
        "<?php /* " ++ Residual.renderAll env.dialect.fragments false body ++ " */ ?>" ∧
      (Hides (Residual.renderAll env.dialect.fragments false rs) ↔
        ¬ Piece.Closes (Residual.piecesAll body)) := by
  rw [node_comment (acts_comment target commented done)] at done
  obtain ⟨body, u, compiled, done⟩ := Eval.outcome_bind_eq_ok.1 done
  obtain ⟨⟨⟩, rfl⟩ := Prod.mk.inj done
  have spelled : Residual.renderAll env.dialect.fragments false [.comment body] =
      fragments.hiddenComment (Residual.renderAll fragments false body) := by
    rw [target, Residual.renderAll, Residual.renderAll, Residual.render, String.append_empty]
    rfl
  refine ⟨body, compiled, rfl, ?_, ?_⟩
  · rw [spelled, target]
    rfl
  · rw [spelled, hides_hiddenComment_iff, Piece.closes_iff, Residual.spellAll_piecesAll]

def pageSettings : Settings := ⟨.php, ".liquid", ⟨[], [], []⟩⟩

def remark : Node :=
  .block "comment" none 0
    [.text "Hi " 0, .leaf "variable" (some "name") 0,
      .block "if" (some "a == 'b'") 0 [.text "*" 0], .text "/" 0]

def remarkBody : List Residual :=
  [.text "Hi ", .echo "name", .cond ⟨"a", some ⟨"==", "b"⟩⟩ [.text "*"] [] none, .text "/"]

theorem remark_is_hidden :
    (node (Transform.env pageSettings (Transform.contents pageSettings)) remark).outcome .empty =
        (.ok [.comment remarkBody], .empty) ∧
      Residual.renderAll Dialect.php.fragments false [.comment remarkBody] =
        "<?php /* Hi <?php echo $name; ?><?php if ($a == 'b') : ?>*<?php endif; ?>/ */ ?>" ∧
      Hides (Residual.renderAll Dialect.php.fragments false [.comment remarkBody]) := by
  have done : (node (Transform.env pageSettings (Transform.contents pageSettings)) remark).outcome
      .empty = (.ok [.comment remarkBody], .empty) := by cbv
  obtain ⟨body, -, same, -, hides⟩ := comment_hides_iff rfl rfl done
  obtain rfl : remarkBody = body := by simpa using same
  have unclosed : ¬ Piece.Closes (Residual.piecesAll remarkBody) :=
    (Piece.closes_iff _).not.2 (by decide +kernel)
  exact ⟨done, by decide, hides.2 unclosed⟩

def page (template : String) : Except Failure (Option String) :=
  ((Transform.output pageSettings false none template).outcome .empty).1

/-- A text may close the comment that it stands in, and a comment inside a comment does. -/
theorem comments_end_early :
    page "\x7b% comment %\x7da */ b\x7b% endcomment %\x7d" =
        .ok (some "<?php /* a */ b */ ?>") ∧
      ¬ Hides "<?php /* a */ b */ ?>" ∧
      page ("\x7b% comment %\x7d\x7b% comment %\x7dx\x7b% endcomment %\x7dy" ++
          "\x7b% endcomment %\x7d") =
        .ok (some "<?php /* <?php /* x */ ?>y */ ?>") ∧
      ¬ Hides "<?php /* <?php /* x */ ?>y */ ?>" := by
  have text : ¬ Hides (fragments.hiddenComment "a */ b") :=
    (hides_hiddenComment_iff _).not.2 (not_not.2 (by decide))
  have nested : ¬ Hides (fragments.hiddenComment "<?php /* x */ ?>y") :=
    (hides_hiddenComment_iff _).not.2 (not_not.2 (by decide))
  exact ⟨by cbv, text, by cbv, nested⟩

end Compile

end Stencil
