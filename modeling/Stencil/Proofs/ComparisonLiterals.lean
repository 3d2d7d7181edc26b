import Stencil.Proofs.PlainText
import Stencil.Proofs.RuntimeIndependence
import Stencil.Proofs.TagGrammar
import Stencil.Proofs.WrittenConditions

set_option autoImplicit false

/-!
# Literals of comparisons

A text that is written between quotes in a comparison passes a tag, a condition and the quoting of
the target language. Every layer has its own rule for backslashes and quotes; what comes out is a
literal of the target language that stands for the same text.
-/

namespace Stencil.Template

namespace Unended

theorem append {front back after : List Char} (hfront : Unended front (back ++ after))
    (hback : Unended back after) : Unended (front ++ back) after := by
  intro k hk ends
  rw [List.append_assoc] at ends
  by_cases inside : k < front.length
  · exact hfront k inside ends
  · obtain ⟨j, rfl⟩ := Nat.exists_eq_add_of_le (Nat.le_of_not_lt inside)
    rw [List.drop_length_add_append] at ends
    rw [List.length_append] at hk
    exact hback j (by omega) ends

theorem cons {c : Char} {inside after : List Char} (h : Unended inside after)
    (first : c = '%' → (inside ++ after).head? ≠ some '}') : Unended (c :: inside) after := by
  intro k hk
  cases k with
  | zero =>
    rintro ⟨rest, same⟩
    obtain ⟨percent, brace⟩ := List.cons.inj same
    exact first percent.symm (congrArg List.head? brace.symm)
  | succ k => exact h k (Nat.lt_of_succ_lt_succ hk)

theorem of_not_mem {inside : List Char} (h : '%' ∉ inside) (after : List Char) :
    Unended inside after := by
  induction inside with
  | nil => exact .nil after
  | cons c inside ih =>
    obtain ⟨first, others⟩ := not_or.1 (mt List.mem_cons.2 h)
    exact (ih others).cons fun percent => absurd percent.symm first

theorem escapeWith {q : Char} (hq : Text.isQuote q = true) {cs : List Char}
    (h : ¬ tagEnd <:+: cs) (after : List Char) :
    Unended (Text.escapeWith q cs) (q :: after) := by
  have brace : q ≠ '}' := by
    rintro rfl
    exact absurd hq (by decide)
  have percent : q ≠ '%' := by
    rintro rfl
    exact absurd hq (by decide)
  induction cs with
  | nil => exact .nil _
  | cons c cs ih =>
    have others := ih fun inner => h (List.infix_cons inner)
    by_cases mark : c = '\\' ∨ c = q
    · rw [Text.escapeWith_mark mark]
      refine (others.cons fun same => ?_).cons fun same => absurd same (by decide)
      rcases mark with rfl | rfl
      · exact absurd same (by decide)
      · exact absurd same percent
    · rw [Text.escapeWith_plain mark]
      refine others.cons fun same first => h ?_
      cases cs with
      | nil => exact absurd (Option.some.inj first) brace
      | cons d cs =>
        by_cases next : d = '\\' ∨ d = q
        · rw [Text.escapeWith_mark next] at first
          exact absurd (Option.some.inj first) (by decide)
        · rw [Text.escapeWith_plain next] at first
          rw [same, Option.some.inj first]
          exact (List.prefix_append tagEnd cs).isInfix

end Unended

def PlainName (name : List Char) : Prop :=
  name ≠ [] ∧ ∀ c ∈ name, Text.isWord c = true

theorem PlainName.namePart {cs : List Char} (h : ∀ c ∈ cs, Text.isWord c = true) : NamePart cs := by
  induction cs with
  | nil => exact .nil
  | cons c cs ih =>
    obtain ⟨first, others⟩ := List.forall_mem_cons.1 h
    exact .char (Bool.or_eq_true_iff.2 (.inl first)) (ih others)

theorem PlainName.nameForm {name : List Char} (h : PlainName name) : NameForm name := by
  obtain ⟨filled, word⟩ := h
  obtain ⟨c, others, rfl⟩ := List.exists_cons_of_ne_nil filled
  obtain ⟨first, later⟩ := List.forall_mem_cons.1 word
  exact .mk (Bool.or_eq_true_iff.2 (.inl first)) (PlainName.namePart later)

end Stencil.Template

namespace Stencil

open Template

def Condition.comparing (name : List Char) (op : Operator) (q : Char) (v : List Char) : List Char :=
  name ++ ' ' :: (op.text.toList ++ ' ' :: Text.literalOf q v)

namespace Condition

theorem isBlank_space : ∀ c ∈ [' '], Text.isBlank c = true :=
  List.forall_mem_singleton.2 (by decide)

theorem comparing_eq_written (name : List Char) (op : Operator) (q : Char) (v : List Char) :
    comparing name op q v = written name [' '] op [' '] q v := by
  simp [comparing, written]

theorem read?_comparing {name : List Char} (plain : PlainName name) (op : Operator)
    {q : Char} (hq : Text.isQuote q = true) (v : List Char) :
    read? (comparing name op q v) =
      some ⟨String.ofList name, some ⟨op.text, String.ofList v⟩⟩ := by
  rw [comparing_eq_written, read?_written plain.nameForm isBlank_space op isBlank_space hq]

end Condition

end Stencil

namespace Stencil.Template

open Condition

def chainText (name : List Char) (op : Operator) (q : Char) (v : List Char) : List Char :=
  '\x7b' :: '%' :: (" if ".toList ++ comparing name op q v ++ [' '] ++ tagEnd ++
    "A\x7b% endif %\x7d".toList)

section Chain

variable {name : List Char} (plain : PlainName name) (op : Operator) {q : Char}
  (hq : Text.isQuote q = true) {v : List Char}
include plain hq

theorem unended_comparing (h : ¬ tagEnd <:+: v) (after : List Char) :
    Unended (" if ".toList ++ comparing name op q v ++ [' ']) after := by
  have percent : q ≠ '%' := by
    rintro rfl
    exact absurd hq (by decide)
  have named : '%' ∉ name := fun mem => absurd (plain.2 _ mem) (by decide)
  have signed : '%' ∉ op.text.toList := fun mem => absurd (op.signs.2 _ mem) (by decide)
  have split : " if ".toList ++ comparing name op q v ++ [' '] =
      (" if ".toList ++ name ++ [' '] ++ op.text.toList ++ [' ', q]) ++
        (Text.escapeWith q v ++ [q, ' ']) := by
    simp [comparing, Text.literalOf]
  rw [split]
  refine .append (.of_not_mem ?_ _) (.append ?_ (.of_not_mem ?_ _))
  · simp [named, signed, percent.symm]
  · exact .escapeWith hq h _
  · simp [percent.symm]

theorem trim_comparing {lead trail : List Char} (blankLead : ∀ c ∈ lead, Text.isBlank c = true)
    (blankTrail : ∀ c ∈ trail, Text.isBlank c = true) :
    Text.trim (lead ++ (comparing name op q v ++ trail)) = comparing name op q v := by
  rw [comparing_eq_written]
  exact Text.trim_between blankLead blankTrail (written_ne_nil plain.nameForm op v)
    (head?_written plain.nameForm op v) (getLast?_written op hq v)

theorem read?_comparing {names : List (List Char)} (known : "if".toList ∈ names) :
    TagParts.read? names (" if ".toList ++ comparing name op q v ++ [' ']) =
      some ⟨false, false, "if".toList, some (comparing name op q v)⟩ := by
  have blank : ∀ c ∈ [' '], Text.isBlank c = true := List.forall_mem_singleton.2 (by decide)
  have inside : " if ".toList ++ comparing name op q v ++ [' '] =
      ' ' :: 'i' :: 'f' :: ' ' :: (comparing name op q v ++ [' ']) := rfl
  have led : Text.trimStart (' ' :: 'i' :: 'f' :: ' ' :: (comparing name op q v ++ [' '])) =
      'i' :: 'f' :: ' ' :: (comparing name op q v ++ [' ']) := by
    rw [Text.trimStart, List.dropWhile_cons_of_pos (by decide),
      List.dropWhile_cons_of_neg (by decide)]
  have word : ('i' :: 'f' :: ' ' :: (comparing name op q v ++ [' '])).takeWhile Text.isWord =
      "if".toList := by
    rw [List.takeWhile_cons_of_pos (by decide), List.takeWhile_cons_of_pos (by decide),
      List.takeWhile_cons_of_neg (by decide)]
    rfl
  have behind : ('i' :: 'f' :: ' ' :: (comparing name op q v ++ [' '])).dropWhile Text.isWord =
      ' ' :: (comparing name op q v ++ [' ']) := by
    rw [List.dropWhile_cons_of_pos (by decide), List.dropWhile_cons_of_pos (by decide),
      List.dropWhile_cons_of_neg (by decide)]
  have undashed : Lexeme.dropDash (' ' :: (comparing name op q v ++ [' '])) =
      (' ' :: (comparing name op q v ++ [' ']), false) := by
    unfold Lexeme.dropDash
    rw [← List.cons_append, List.getLast?_concat, if_neg (by decide)]
  have parameters : Lexeme.parametersOf (' ' :: (comparing name op q v ++ [' '])) =
      some (comparing name op q v) := by
    unfold Lexeme.parametersOf
    have trimmed : Text.trim (' ' :: (comparing name op q v ++ [' '])) = comparing name op q v :=
      trim_comparing plain op hq blank blank
    rw [trimmed]
    cases given : comparing name op q v with
    | nil => exact absurd given (List.append_ne_nil_of_left_ne_nil plain.1 _)
    | cons c cs => rfl
  unfold TagParts.read?
  rw [inside, leadDash_plain (by simp)]
  simp only [led, word, behind, undashed, parameters, List.contains_iff_mem.2 known]
  rfl

end Chain

end Stencil.Template

namespace Stencil.Dialect.Php

/-- The text that stands inside a literal: two backslashes are one, a backslash in front of a quote
keeps the quote in, and all else stands for itself. -/
def decode : List Char → List Char
  | [] => []
  | '\\' :: '\\' :: cs => '\\' :: decode cs
  | '\\' :: '\'' :: cs => '\'' :: decode cs
  | c :: cs => c :: decode cs

def bareQuotes (place : Nat) : List Char → List Nat
  | [] => []
  | '\\' :: '\\' :: cs => bareQuotes (place + 2) cs
  | '\\' :: '\'' :: cs => bareQuotes (place + 2) cs
  | c :: cs => (if c = '\'' then [place] else []) ++ bareQuotes (place + 1) cs

/-- A literal in single quotes, which stand nowhere but at its two ends, for a given text. -/
structure LiteralFor (text literal : List Char) : Prop where
  ends : bareQuotes 0 literal = [0, literal.length - 1]
  stands : ∃ inside, literal = '\'' :: inside ++ ['\''] ∧ decode inside = text

theorem escape_eq (cs : List Char) : escape cs = Text.escapeWith '\'' cs := by
  induction cs with
  | nil => rfl
  | cons c cs ih => rw [escape, Text.escapeWith, ih]

theorem decode_escape (cs : List Char) : decode (escape cs) = cs := by
  rw [escape_eq]
  induction cs with
  | nil => rfl
  | cons c cs ih =>
    by_cases mark : c = '\\' ∨ c = '\''
    · rw [Text.escapeWith_mark mark]
      rcases mark with rfl | rfl
      · rw [decode, ih]
      · rw [decode, ih]
    · rw [Text.escapeWith_plain mark]
      obtain ⟨slash, -⟩ := not_or.1 mark
      rw [decode, ih]
      · exact fun _ same => absurd same slash
      · exact fun _ same => absurd same slash

theorem bareQuotes_escape (cs rest : List Char) (place : Nat) :
    bareQuotes place (escape cs ++ rest) = bareQuotes (place + (escape cs).length) rest := by
  rw [escape_eq]
  induction cs generalizing place with
  | nil => rfl
  | cons c cs ih =>
    by_cases mark : c = '\\' ∨ c = '\''
    · rw [Text.escapeWith_mark mark, List.length_cons, List.length_cons, List.cons_append,
        List.cons_append]
      have next : bareQuotes place ('\\' :: c :: (Text.escapeWith '\'' cs ++ rest)) =
          bareQuotes (place + 2) (Text.escapeWith '\'' cs ++ rest) := by
        rcases mark with rfl | rfl
        · rw [bareQuotes]
        · rw [bareQuotes]
      rw [next, ih]
      congr 1
      omega
    · rw [Text.escapeWith_plain mark, List.length_cons, List.cons_append]
      obtain ⟨slash, quote⟩ := not_or.1 mark
      rw [bareQuotes, if_neg quote, List.nil_append, ih]
      · congr 1
        omega
      · exact fun _ same => absurd same slash
      · exact fun _ same => absurd same slash

theorem literalFor_quote (text : String) : LiteralFor text.toList (quote text).toList := by
  have written : (quote text).toList = '\'' :: escape text.toList ++ ['\''] :=
    String.toList_ofList
  constructor
  · rw [written, List.cons_append, bareQuotes, if_pos rfl, bareQuotes_escape]
    · change [0] ++ [0 + 1 + (escape text.toList).length] = _
      simp only [List.length_cons, List.length_append, List.length_nil, List.singleton_append]
      congr 2
      omega
    · exact fun _ same => absurd same (by decide)
    · exact fun _ same => absurd same (by decide)
  · exact ⟨escape text.toList, written, decode_escape _⟩

end Stencil.Dialect.Php

namespace Stencil.Transform

open Template Compile Condition

section Comparison

variable {name v : List Char} (plain : PlainName name) (op : Operator) {q : Char}
  (hq : Text.isQuote q = true) (unended : ¬ tagEnd <:+: v)
include plain hq unended

theorem all_chainText :
    ∃ source, Lexeme.all (tagNames Dialect.php.tags) (chainText name op q v) =
      [(.tag false false "if".toList (some (comparing name op q v)), source),
        (.text ['A'], ['A']),
        (.tag false false "endif".toList none, "\x7b% endif %\x7d".toList)] := by
  have words : Lexeme.Words (tagNames Dialect.php.tags) :=
    (@words_builtin ("php", .php) (List.mem_cons_of_mem _ List.mem_cons_self)).1
  have tag := Lexeme.tag?_eq_read? words
    (unended_comparing plain op hq unended (tagEnd ++ "A\x7b% endif %\x7d".toList))
  rw [Template.read?_comparing plain op hq (by decide)] at tag
  have scanned : Lexeme.scan (tagNames Dialect.php.tags) '\x7b'
      ('%' :: (" if ".toList ++ comparing name op q v ++ [' '] ++ tagEnd ++
        "A\x7b% endif %\x7d".toList)) =
      (.tag false false "if".toList (some (comparing name op q v)),
        "A\x7b% endif %\x7d".toList) := by
    change (Lexeme.tag? _ _).getD _ = _
    rw [tag]
    rfl
  have rest : Lexeme.all (tagNames Dialect.php.tags) "A\x7b% endif %\x7d".toList =
      [(.text ['A'], ['A']),
        (.tag false false "endif".toList none, "\x7b% endif %\x7d".toList)] := by cbv
  rw [chainText, Lexeme.all, scanned, rest]
  exact ⟨_, rfl⟩

theorem ofText_chainText :
    ∃ place indentation place' indentation',
      Token.ofText Dialect.php.tags (String.ofList (chainText name op q v)) = .ok
        [⟨"if", 0, false, false, some (String.ofList (comparing name op q v)), none, 0⟩,
          ⟨"text", indentation, false, false, none, some "A", place⟩,
          ⟨"endif", indentation', false, false, none, none, place'⟩] := by
  obtain ⟨source, lexemes⟩ := all_chainText plain op hq unended
  refine ⟨0 + source.length, (source.foldl Margin.step .start).blanks, 0 + source.length + 1,
    (Margin.step (source.foldl Margin.step .start) 'A').blanks, ?_⟩
  change Token.obeyAll false (Token.place 0 .start
    (Lexeme.all (tagNames Dialect.php.tags) (String.ofList (chainText name op q v)).toList)) = _
  rw [String.toList_ofList, lexemes]
  rfl

omit unended in
theorem ofParameters_comparing :
    Condition.ofParameters (some (String.ofList (comparing name op q v))) =
      .ok ⟨String.ofList name, some ⟨op.text, String.ofList v⟩⟩ := by
  apply ofParameters_of_read?
  · rw [String.toList_ofList, comparing_eq_written]
    exact written_ne_nil plain.nameForm op v
  · rw [String.toList_ofList, comparing_eq_written]
    exact head?_written plain.nameForm op v
  · rw [String.toList_ofList, comparing_eq_written]
    exact getLast?_written op hq v
  · rw [String.toList_ofList, Condition.read?_comparing plain op hq]

omit unended in
theorem quietly_comparing {env : Env} (shared : env.dialect.extension? "if" = none) {s : Session}
    (unknown : s.scope.condition? (String.ofList name) = none) (indentation : Nat) :
    (nodes env [.block "if" (some (String.ofList (comparing name op q v))) 0
        [.text "A" indentation]]).Quietly s
      [.cond ⟨String.ofList name, some ⟨op.text, String.ofList v⟩⟩ [.text "A"] [] none] := by
  have body (t : Session) : (nodes env [.text "A" indentation]).Quietly t [.text "A"] :=
    quietly_texts (.cons ⟨indentation, rfl⟩ .nil) env t
  have compiled : (node env (.block "if" (some (String.ofList (comparing name op q v))) 0
      [.text "A" indentation])).Quietly s
      [.cond ⟨String.ofList name, some ⟨op.text, String.ofList v⟩⟩ [.text "A"] [] none] := by
    rw [node_cond ⟨rfl, shared, rfl⟩, chain_if (by simp [Node.kind])]
    refine .read (ofParameters_comparing plain op hq) (.bind ⟨s, rfl, rfl, rfl⟩ fun t _ => ?_)
    simp only [unknown]
    refine .bind (body t) fun u _ => ?_
    rw [branches_none rfl]
    exact .bind (.pure _) fun w _ => .pure _
  rw [nodes, nodes]
  exact .bind compiled fun t _ => .bind (.pure []) fun u _ => .pure _

theorem quietly_chainText {settings : Settings} (dialect : settings.dialect = .php) {s : Session}
    (unknown : s.scope.condition? (String.ofList name) = none) :
    (contents settings (String.ofList (chainText name op q v))).Quietly s
      [.cond ⟨String.ofList name, some ⟨op.text, String.ofList v⟩⟩ [.text "A"] [] none] := by
  obtain ⟨place, indentation, place', indentation', read⟩ := ofText_chainText plain op hq unended
  have built : Forest.ofTokens Dialect.php.tags
      [⟨"if", 0, false, false, some (String.ofList (comparing name op q v)), none, 0⟩,
        ⟨"text", indentation, false, false, none, some "A", place⟩,
        ⟨"endif", indentation', false, false, none, none, place'⟩] =
      .ok ⟨[.block "if" (some (String.ofList (comparing name op q v))) 0
        [.text "A" indentation]], []⟩ := rfl
  have shared : settings.dialect.extension? "if" = none := by
    rw [dialect]
    rfl
  rw [← dialect] at read built
  refine .bind (quietly_parse read built s) fun t scope => ?_
  exact quietly_comparing plain op hq shared (by rw [scope, unknown]) indentation

end Comparison

/-- A text between quotes in a comparison of an unknown name becomes a literal of PHP that stands
for the same text, whichever quotes the template uses. -/
theorem comparison_literal_survives (extension : String) (files : FileTree) (shown : Bool)
    (path : Option String) (s : Session) (name : String) (op : Operator) (q : Char) (v : String)
    (plain : PlainName name.toList) (unbound : s.scope.lookup? name = none)
    (noConstant : name ≠ "true" ∧ name ≠ "false") (hq : Text.isQuote q = true)
    (unended : ¬ tagEnd <:+: v.toList) :
    ∃ literal t,
      (output ⟨.php, extension, files⟩ shown path
          (String.ofList (chainText name.toList op q v.toList))).outcome s =
        (.ok (some ("<?php if ($" ++ name ++ " " ++ op.text ++ " " ++ String.ofList literal ++
          ") : ?>A<?php endif; ?>")), t) ∧
      Dialect.Php.LiteralFor v.toList literal ∧
      t.scope = (about path s).scope ∧ t.warnings = s.warnings := by
  have unknown : (begun path s).scope.condition? (String.ofList name.toList) = none := by
    unfold Scope.condition?
    rw [String.ofList_toList, lookup?_begun, unbound]
    split
    · rename_i other
      cases other
    · split
      · exact absurd rfl noConstant.1
      · exact absurd rfl noConstant.2
      · rfl
  have quiet := @quietly_chainText _ _ plain op q hq unended ⟨.php, extension, files⟩ rfl _ unknown
  obtain ⟨t, run, scope, warnings⟩ := outcome_of_quietly quiet shown
  refine ⟨(Dialect.Php.quote v).toList, t, ?_, Dialect.Php.literalFor_quote v, scope, warnings⟩
  have opened : "<?php if (" ++ ("$" ++ name) = "<?php if ($" ++ name := by
    rw [← String.append_assoc]
    rfl
  rw [run]
  simp [Residual.renderAll, Residual.render, Residual.renderFurther, Residual.renderElse,
    Dialect.php, Dialect.Php.fragments, Dialect.Php.expression, ← opened, String.append_assoc]

theorem backslash_before_quote_survives :
    ∃ literal t,
      (output ⟨.php, ".liquid", ⟨[], [], []⟩⟩ false none
          "\x7b% if kind == 'a\\\\\\'\"b' %\x7dA\x7b% endif %\x7d").outcome .empty =
        (.ok (some ("<?php if ($kind == " ++ String.ofList literal ++
          ") : ?>A<?php endif; ?>")), t) ∧
      Dialect.Php.LiteralFor "a\\'\"b".toList literal ∧ t.warnings = [] := by
  have word : ∀ c ∈ ['k', 'i', 'n', 'd'], Text.isWord c = true := by simp [Text.isWord]
  obtain ⟨literal, t, run, stands, -, quiet⟩ := comparison_literal_survives ".liquid" ⟨[], [], []⟩
    false none .empty "kind" .eq '\'' "a\\'\"b"
    ⟨by decide, word⟩ rfl (by decide) (by decide) (by decide)
  exact ⟨literal, t, run, stands, quiet⟩

end Stencil.Transform
