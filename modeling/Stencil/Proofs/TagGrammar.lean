import Stencil.Proofs.Segmentation
import Stencil.Registry

set_option autoImplicit false

/-!
# The grammar of tags

The patterns of tags may match in several ways. Where the names of the tags are words, there is only
one way left: what stands up to the first `%}` is a dash or none, blanks, a word that is the name,
and a remainder. `TagParts.read?` reads a tag like that, without going back, and it agrees with the
scanner on every text.
-/

namespace Stencil.Template

/-- What stands between the delimiters of a tag. -/
structure TagParts where
  before : Bool
  after : Bool
  name : List Char
  parameters : Option (List Char)
  deriving Repr, DecidableEq

def leadDash : List Char → List Char × Bool
  | '-' :: cs => (cs, true)
  | cs => (cs, false)

theorem leadDash_plain {cs : List Char} (h : cs.head? ≠ some '-') :
    leadDash cs = (cs, false) := by
  unfold leadDash
  split
  · exact absurd rfl h
  · rfl

theorem leadDash_suffix (cs : List Char) : (leadDash cs).1 <:+ cs := by
  unfold leadDash
  split
  · exact List.suffix_cons _ _
  · exact List.suffix_rfl

namespace TagParts

def read? (names : List (List Char)) (inside : List Char) : Option TagParts :=
  let led := leadDash inside
  let named := Text.trimStart led.1
  let name := named.takeWhile Text.isWord
  let ended := Lexeme.dropDash (named.dropWhile Text.isWord)
  if names.contains name && Lexeme.setOff ended.1 then
    some ⟨led.2, ended.2, name, Lexeme.parametersOf ended.1⟩
  else none

def lexeme (p : TagParts) : Lexeme :=
  .tag p.before p.after p.name p.parameters

theorem name_mem_of_read? {names : List (List Char)} {inside : List Char} {p : TagParts}
    (h : read? names inside = some p) : p.name ∈ names := by
  unfold read? at h
  simp only at h
  split at h
  · rename_i known
    obtain rfl := Option.some.inj h
    exact List.contains_iff_mem.1 (Bool.and_eq_true_iff.1 known).1
  · exact nomatch h

end TagParts

section Stop

variable {p : Char → Bool} {x : Char}

theorem takeWhile_stop (h : p x = false) (cs rest : List Char) :
    (cs ++ x :: rest).takeWhile p = cs.takeWhile p := by
  induction cs with
  | nil => exact List.takeWhile_cons_of_neg (Bool.eq_false_iff.1 h)
  | cons c cs ih => rw [List.cons_append, List.takeWhile_cons, List.takeWhile_cons, ih]

theorem dropWhile_stop (h : p x = false) (cs rest : List Char) :
    (cs ++ x :: rest).dropWhile p = cs.dropWhile p ++ x :: rest := by
  induction cs with
  | nil => exact List.dropWhile_cons_of_neg (Bool.eq_false_iff.1 h)
  | cons c cs ih =>
    rw [List.cons_append, List.dropWhile_cons, List.dropWhile_cons, ih]
    split <;> rfl

theorem leadDash_stop (h : x ≠ '-') (cs rest : List Char) :
    leadDash (cs ++ x :: rest) = ((leadDash cs).1 ++ x :: rest, (leadDash cs).2) := by
  cases cs with
  | nil => exact leadDash_plain fun same => h (Option.some.inj same)
  | cons c cs =>
    by_cases dash : c = '-'
    · rw [dash]
      rfl
    · have plain (ds : List Char) : leadDash (c :: ds) = (c :: ds, false) :=
        leadDash_plain fun same => dash (Option.some.inj same)
      rw [List.cons_append, plain, plain]
      rfl

end Stop

theorem Unended.of_suffix {inside back after : List Char} (h : Unended inside after)
    (suffix : back <:+ inside) : Unended back after := by
  obtain ⟨front, rfl⟩ := suffix
  exact h.of_append_left

theorem exists_tagEnd_of_tagForm {names : List (List Char)} {cs rest : List Char}
    (h : TagForm names cs rest) : ∃ inside, cs = inside ++ tagEnd ++ rest := by
  obtain ⟨-, -, -, form⟩ := h
  rename_i before lead name tail
  obtain ⟨-, -, -, -⟩ := form
  rename_i after gap parameters trail
  refine ⟨dash before ++ lead ++ name ++ (gap ++ parameters ++ trail ++ dash after), ?_⟩
  simp only [List.append_assoc]

namespace Lexeme

def Words (names : List (List Char)) : Prop :=
  ∀ name ∈ names, name ≠ [] ∧ ∀ c ∈ name, Text.isWord c = true

section Word

variable {names : List (List Char)} (words : Words names)
include words

theorem takeWhile_mem_names {name tail : List Char} (known : name ∈ names)
    (ends : ∀ c ∈ tail.head?, Text.isWord c = false) :
    (name ++ tail).takeWhile Text.isWord = name ∧ (name ++ tail).dropWhile Text.isWord = tail := by
  have word := (words name known).2
  rw [List.takeWhile_append_of_pos word, List.dropWhile_append_of_pos word]
  cases tail with
  | nil => exact ⟨List.append_nil name, rfl⟩
  | cons c tail =>
    have stop : ¬ Text.isWord c = true := Bool.eq_false_iff.1 (ends c rfl)
    rw [List.takeWhile_cons_of_neg stop, List.dropWhile_cons_of_neg stop]
    exact ⟨List.append_nil name, rfl⟩

theorem anyTag?_eq (cs : List Char) :
    anyTag? names cs =
      if names.contains (cs.takeWhile Text.isWord) then
        (tagTail? (cs.dropWhile Text.isWord)).map fun t => (cs.takeWhile Text.isWord, t)
      else none := by
  have longest := longest_anyTag? names cs
  have only (r : TagReading) (h : anyTag? names cs = some r) :
      cs.takeWhile Text.isWord ∈ names ∧
        tagTail? (cs.dropWhile Text.isWord) = some r.2 ∧ cs.takeWhile Text.isWord = r.1 := by
    obtain ⟨name, known, read⟩ := longest.read r h
    obtain ⟨tail, rfl, ends, form⟩ := append_of_tagNamed? read
    obtain ⟨word, behind⟩ := takeWhile_mem_names words known ends
    rw [word, behind]
    exact ⟨known, form, (name_of_tagNamed? read).1.symm⟩
  cases read : anyTag? names cs with
  | some r =>
    obtain ⟨known, tail, name⟩ := only r read
    rw [if_pos (List.contains_iff_mem.2 known), tail, name]
    rfl
  | none =>
    split
    · rename_i known
      cases tail : tagTail? (cs.dropWhile Text.isWord) with
      | none => rfl
      | some t =>
        have named : tagNamed? cs (cs.takeWhile Text.isWord) =
            some (cs.takeWhile Text.isWord, t) := by
          have ends : ∀ c ∈ (cs.dropWhile Text.isWord).head?, Text.isWord c = false := by
            intro c hc
            have := List.head?_dropWhile_not Text.isWord cs
            rw [hc] at this
            exact this
          have := @tagNamed?_append (cs.takeWhile Text.isWord) _ ends
          rw [List.takeWhile_append_dropWhile, tail] at this
          exact this
        obtain ⟨b, hb, -⟩ := longest.longest _ (List.contains_iff_mem.1 known) _ named
        exact nomatch read.symm.trans hb
    · rfl

theorem anyTag?_of_not_isWord {c : Char} (h : Text.isWord c = false) (cs : List Char) :
    anyTag? names (c :: cs) = none := by
  rw [anyTag?_eq words, List.takeWhile_cons_of_neg (Bool.eq_false_iff.1 h), if_neg]
  exact fun known => (words [] (List.contains_iff_mem.1 known)).1 rfl

theorem spacedTag?_eq (cs : List Char) :
    spacedTag? names cs = anyTag? names (Text.trimStart cs) := by
  unfold spacedTag? Text.trimStart
  induction cs with
  | nil => exact List.findSome?_singleton
  | cons c cs ih =>
    rw [blankDrops, List.dropWhile_cons]
    split
    · rename_i blank
      rw [List.findSome?_append, ih, List.findSome?_singleton,
        anyTag?_of_not_isWord words (Text.isWord_of_isBlank blank), Option.or_none]
    · exact List.findSome?_singleton

theorem tag?_eq (cs : List Char) :
    tag? names cs = (spacedTag? names (leadDash cs).1).map fun r =>
      (tag (leadDash cs).2 r.2.2.1 r.1 r.2.1, r.2.2.2) := by
  unfold tag?
  split
  · rename_i inner
    rw [show leadDash ('-' :: inner) = (inner, true) from rfl]
    cases read : spacedTag? names inner with
    | some r => rfl
    | none =>
      have dashed : spacedTag? names ('-' :: inner) = none := by
        rw [spacedTag?_eq words, Text.trimStart, List.dropWhile_cons_of_neg (by decide)]
        exact anyTag?_of_not_isWord words (by decide) _
      rw [dashed]
      rfl
  · rename_i plain
    have undashed : cs.head? ≠ some '-' := by
      intro dashed
      obtain ⟨inner, rfl⟩ := List.head?_eq_some_iff.1 dashed
      exact plain inner rfl
    rw [leadDash_plain undashed]

theorem tag?_eq_read? {inside rest : List Char} (h : Unended inside (tagEnd ++ rest)) :
    tag? names (inside ++ tagEnd ++ rest) =
      (TagParts.read? names inside).map fun p => (p.lexeme, rest) := by
  let led := leadDash inside
  let named := Text.trimStart led.1
  let remainder := named.dropWhile Text.isWord
  have left : Unended remainder (tagEnd ++ rest) := by
    refine h.of_suffix ?_
    exact (List.dropWhile_suffix _).trans ((List.dropWhile_suffix _).trans (leadDash_suffix inside))
  have skipped : Text.trimStart (led.1 ++ (tagEnd ++ rest)) = named ++ (tagEnd ++ rest) :=
    dropWhile_stop (by decide) _ _
  have word : (named ++ (tagEnd ++ rest)).takeWhile Text.isWord = named.takeWhile Text.isWord :=
    takeWhile_stop (by decide) _ _
  have behind : (named ++ (tagEnd ++ rest)).dropWhile Text.isWord = remainder ++ (tagEnd ++ rest) :=
    dropWhile_stop (by decide) _ _
  have dashed : leadDash (inside ++ (tagEnd ++ rest)) = (led.1 ++ (tagEnd ++ rest), led.2) :=
    leadDash_stop (by decide) _ _
  have read : TagParts.read? names inside =
      if names.contains (named.takeWhile Text.isWord) && setOff (dropDash remainder).1 then
        some ⟨led.2, (dropDash remainder).2, named.takeWhile Text.isWord,
          parametersOf (dropDash remainder).1⟩
      else none := rfl
  rw [List.append_assoc, tag?_eq words, dashed, spacedTag?_eq words, skipped, anyTag?_eq words,
    word, behind, tagTail?_eq left, read]
  cases names.contains (named.takeWhile Text.isWord) with
  | false => rfl
  | true => cases setOff (dropDash remainder).1 <;> rfl

end Word

end Lexeme

section Places

variable {text : List Char}

/-- The first end of a tag at or behind an offset. -/
def FirstTagEnd (text : List Char) (start stop : Nat) : Prop :=
  IsLeast {j | start ≤ j ∧ tagEnd <+: text.drop j} stop

theorem firstTagEnd_of_unended {start : Nat} {inside rest : List Char}
    (split : text.drop start = inside ++ (tagEnd ++ rest))
    (unended : Unended inside (tagEnd ++ rest)) :
    FirstTagEnd text start (start + inside.length) ∧
      between text start (start + inside.length) = inside := by
  refine ⟨⟨⟨Nat.le_add_right _ _, ?_⟩, ?_⟩, ?_⟩
  · rw [← List.drop_drop, split, List.drop_left]
    exact List.prefix_append _ _
  · rintro j ⟨from_start, ends⟩
    by_contra early
    obtain ⟨k, rfl⟩ := Nat.exists_eq_add_of_le from_start
    rw [← List.drop_drop, split] at ends
    exact unended k (by omega) ends
  · rw [between, List.drop_take, Nat.add_sub_cancel_left, split, List.take_left]

theorem FirstTagEnd.unended {start stop : Nat} (h : FirstTagEnd text start stop) :
    text.drop start = between text start stop ++ (tagEnd ++ text.drop (stop + 2)) ∧
      Unended (between text start stop) (tagEnd ++ text.drop (stop + 2)) ∧
      stop + 2 ≤ text.length := by
  obtain ⟨⟨le, rest, ends⟩, least⟩ := h
  have later : text.drop (stop + 2) = rest := by
    rw [← List.drop_drop, ← ends]
    rfl
  have long : stop + 2 ≤ text.length := by
    have := congrArg List.length ends
    rw [List.length_append, List.length_drop] at this
    change 2 + _ = _ at this
    omega
  have split : text.drop start = between text start stop ++ (tagEnd ++ rest) := by
    rw [ends, between, List.drop_take]
    conv_lhs => rw [← List.take_append_drop (stop - start) (text.drop start)]
    rw [List.drop_drop, Nat.add_sub_cancel' le]
  rw [later]
  refine ⟨split, fun k hk starts => ?_, long⟩
  rw [← split, List.drop_drop] at starts
  have first := least ⟨Nat.le_add_right _ _, starts⟩
  have : (between text start stop).length ≤ stop - start := by
    rw [between, List.drop_take]
    exact List.length_take_le _ _
  omega

end Places

section Tokens

variable {names : List (List Char)} {text : List Char} {previous next : Option Token} {t : Token}
  {c : Char} {cs inner : List Char}

theorem ReadAt.tag (h : ReadAt names text previous t next c cs)
    (opens : c :: cs = Lexeme.tagStart ++ inner) {l : Lexeme} {rest : List Char}
    (read : Lexeme.tag? names inner = some (l, rest)) :
    t = (Token.ofLexeme t.position (indentationAt text t.position) l).obeyed
        (trimsAfter previous) (trimsBefore next) ∧
      text.drop (sliceEnd text next) = rest := by
  obtain ⟨rfl, rfl⟩ := List.cons.inj opens
  have scanned : Lexeme.scan names '{' ('%' :: inner) = (l, rest) := by
    change (Lexeme.tag? names inner).getD _ = _
    rw [read]
    rfl
  have token := h.token
  have left := h.rest
  change t = (Token.ofLexeme _ _ (Lexeme.scan names '{' ('%' :: inner)).1).obeyed _ _ at token
  change _ = (Lexeme.scan names '{' ('%' :: inner)).2 at left
  rw [scanned] at token left
  exact ⟨token, left⟩

theorem ReadAt.no_tag (h : ReadAt names text previous t next c cs)
    (opens : c :: cs = Lexeme.tagStart ++ inner) (unread : Lexeme.tag? names inner = none) :
    t.kind = "text" := by
  obtain ⟨rfl, rfl⟩ := List.cons.inj opens
  have token := congrArg Token.kind h.token
  change t.kind = (Token.ofLexeme _ _ ((Lexeme.tag? names inner).getD _).1).kind at token
  rw [unread] at token
  exact token

end Tokens

def Token.IsTag (tags : List Tag) (t : Token) : Prop :=
  ∃ tag ∈ tags, t.kind = canonicalName tag.name

/-- The token is the tag of the given parts, and ends at the given offset. -/
structure Token.Shows (text : List Char) (parts : TagParts) (stop : Nat) (t : Token)
    (next : Option Token) : Prop where
  kind : t.kind = canonicalName (String.ofList parts.name)
  before : t.trimBefore = parts.before
  after : t.trimAfter = parts.after
  parameters : t.parameters = parts.parameters.map String.ofList
  stop : sliceEnd text next = stop

section Vocabulary

variable {tags : List Tag} (words : Lexeme.Words (tagNames tags)) {text : List Char}
  {previous next : Option Token} {t : Token} {c : Char} {cs : List Char}
  (h : ReadAt (tagNames tags) text previous t next c cs)
  (opens : Lexeme.tagStart <+: text.drop t.position)
include words h opens

theorem ReadAt.shows {stop : Nat} {parts : TagParts}
    (first : FirstTagEnd text (t.position + 2) stop)
    (read : TagParts.read? (tagNames tags) (between text (t.position + 2) stop) = some parts) :
    t.Shows text parts (stop + 2) next := by
  obtain ⟨inner, begins⟩ := opens
  obtain ⟨split, unended, long⟩ := first.unended
  rw [← List.drop_drop, ← begins] at split
  have tagged := Lexeme.tag?_eq_read? words unended
  rw [read, List.append_assoc, ← split] at tagged
  obtain ⟨token, left⟩ := h.tag (h.here.symm.trans begins.symm) tagged
  refine ⟨congrArg Token.kind token, congrArg Token.trimBefore token,
    congrArg Token.trimAfter token, congrArg Token.parameters token, ?_⟩
  have same := congrArg List.length left
  rw [List.length_drop, List.length_drop] at same
  have := h.inside
  omega

theorem ReadAt.isTag_iff (noText : ∀ tag ∈ tags, tag.name ≠ "text") :
    t.IsTag tags ↔ ∃ stop parts, FirstTagEnd text (t.position + 2) stop ∧
      TagParts.read? (tagNames tags) (between text (t.position + 2) stop) = some parts := by
  constructor
  · rintro ⟨tag, mem, kind⟩
    obtain ⟨inner, begins⟩ := opens
    have start := h.here.symm.trans begins.symm
    cases tagged : Lexeme.tag? (tagNames tags) inner with
    | none =>
      rw [h.no_tag start tagged] at kind
      exact absurd (Token.canonicalName_eq_text kind.symm) (noText tag mem)
    | some r =>
      obtain ⟨inside, ends⟩ := exists_tagEnd_of_tagForm (Lexeme.tagForm_of_tag? tagged)
      obtain ⟨⟨inside, rest⟩, first⟩ :=
        Option.isSome_iff_exists.1 (ends ▸ Lexeme.isSome_untilTagEnd inside r.2)
      obtain ⟨rfl, unended⟩ := Lexeme.untilTagEnd_sound first
      rw [Lexeme.tag?_eq_read? words unended] at tagged
      obtain ⟨parts, read, -⟩ := Option.map_eq_some_iff.1 tagged
      have split : text.drop (t.position + 2) = inside ++ (tagEnd ++ rest) := by
        rw [← List.drop_drop, ← begins, List.append_assoc inside]
        rfl
      obtain ⟨least, same⟩ := firstTagEnd_of_unended split unended
      refine ⟨_, parts, least, ?_⟩
      rw [same]
      exact read
  · rintro ⟨stop, parts, first, read⟩
    obtain ⟨tag, mem, same⟩ := List.mem_map.1 (TagParts.name_mem_of_read? read)
    refine ⟨tag, mem, ?_⟩
    rw [(h.shows words opens first read).kind, ← same, String.ofList_toList]

end Vocabulary

theorem words_builtin {entry : String × Dialect} (builtin : entry ∈ Registry.builtin.entries) :
    Lexeme.Words (tagNames entry.2.tags) ∧ ∀ tag ∈ entry.2.tags, tag.name ≠ "text" := by
  have words : (Registry.builtin.entries.all fun e => (tagNames e.2.tags).all fun name =>
      !name.isEmpty && name.all Text.isWord) = true := by decide +kernel
  have others : ∀ e ∈ Registry.builtin.entries, ∀ tag ∈ e.2.tags, tag.name ≠ "text" := by decide
  refine ⟨fun name known => ?_, others entry builtin⟩
  have word := List.all_eq_true.1 (List.all_eq_true.1 words entry builtin) name known
  simpa using word

/-- A token that starts where a tag may is a tag exactly if the text up to the first end of a tag
follows the grammar, and then it shows the parts that the grammar gives. -/
theorem tags_follow_grammar (entry : String × Dialect)
    (builtin : entry ∈ Registry.builtin.entries) (text : String) :
    ∃ tokens, Token.ofText entry.2.tags text = .ok tokens ∧
      ∀ before t after, tokens = before ++ t :: after →
        Lexeme.tagStart <+: text.toList.drop t.position →
        (t.IsTag entry.2.tags ↔ ∃ stop parts,
          FirstTagEnd text.toList (t.position + 2) stop ∧
          TagParts.read? (tagNames entry.2.tags) (between text.toList (t.position + 2) stop) =
            some parts) ∧
        ∀ stop parts, FirstTagEnd text.toList (t.position + 2) stop →
          TagParts.read? (tagNames entry.2.tags) (between text.toList (t.position + 2) stop) =
            some parts →
          t.Shows text.toList parts (stop + 2) after.head? := by
  obtain ⟨words, noText⟩ := words_builtin builtin
  obtain ⟨tokens, read, cut⟩ := exists_cut noText text
  refine ⟨tokens, read, ?_⟩
  rintro before t after rfl opens
  obtain ⟨c, cs, here⟩ := cut.readAt
  exact ⟨here.isTag_iff words opens noText, fun stop parts => here.shows words opens⟩

def dashedTag : String := "\x7b%-elsif a - -%\x7d"

theorem dashed_tag_follows_grammar :
    ("php", Dialect.php) ∈ Registry.builtin.entries ∧
      ∃ t, Token.ofText Dialect.php.tags dashedTag = .ok [t] ∧ t.IsTag Dialect.php.tags ∧
        t.Shows dashedTag.toList ⟨true, true, "elsif".toList, some "a -".toList⟩ 16 none := by
  have builtin : ("php", Dialect.php) ∈ Registry.builtin.entries :=
    List.mem_cons_of_mem _ List.mem_cons_self
  have single : Token.ofText Dialect.php.tags dashedTag =
      .ok [⟨"elseif", 0, true, true, some "a -", none, 0⟩] := by decide +kernel
  obtain ⟨tokens, read, grammar⟩ := tags_follow_grammar _ builtin dashedTag
  obtain rfl := Except.ok.inj (read.symm.trans single)
  have unended : Unended "-elsif a - -".toList (tagEnd ++ []) := by
    unfold Unended
    decide
  have first := (@firstTagEnd_of_unended dashedTag.toList 2 _ _ (by decide) unended).1
  have parts : TagParts.read? (tagNames Dialect.php.tags) (between dashedTag.toList 2 14) =
      some ⟨true, true, "elsif".toList, some "a -".toList⟩ := by decide +kernel
  obtain ⟨isTag, shows⟩ := grammar [] _ [] rfl (by decide)
  exact ⟨builtin, _, single, isTag.2 ⟨14, _, first, parts⟩, shows 14 _ first parts⟩

end Stencil.Template
