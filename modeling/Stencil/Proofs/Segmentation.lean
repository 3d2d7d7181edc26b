import Stencil.Proofs.Patterns

set_option autoImplicit false

/-!
# Tokens cut a text into slices

The tokens of a text start where the text does and follow each other without a gap. A text token
holds its slice, without the blanks that its neighbours ask to be trimmed, and goes up to the next
place where a tag or a variable may begin.
-/

namespace Stencil.Template

namespace Margin

def lastLine (done : List Char) : List Char :=
  (done.reverse.takeWhile (· != '\n')).reverse

theorem lastLine_concat (done : List Char) (c : Char) :
    lastLine (done ++ [c]) = if c = '\n' then [] else lastLine done ++ [c] := by
  unfold lastLine
  rw [List.reverse_concat, List.takeWhile_cons]
  split
  · rename_i other
    rw [if_neg (bne_iff_ne.1 other), List.reverse_cons]
  · rename_i same
    have newline : c = '\n' := by simpa using same
    rw [if_pos newline]
    rfl

theorem foldl_step (done : List Char) :
    (done.foldl step start).blanks = ((lastLine done).takeWhile Text.isBlank).length ∧
      (done.foldl step start).ended = (lastLine done).any fun c => !Text.isBlank c := by
  induction done using List.reverseRecOn with
  | nil => exact ⟨rfl, rfl⟩
  | append_singleton done c ih =>
    obtain ⟨blanks, ended⟩ := ih
    rw [List.foldl_append, List.foldl_cons, List.foldl_nil, lastLine_concat, step]
    by_cases newline : c = '\n'
    · rw [if_pos newline, if_pos (beq_iff_eq.2 newline)]
      exact ⟨rfl, rfl⟩
    · rw [if_neg newline, if_neg (mt eq_of_beq newline), ended, blanks, List.any_append]
      cases dark : (lastLine done).any fun c => !Text.isBlank c with
      | true =>
        obtain ⟨d, hd, hb⟩ := List.any_eq_true.1 dark
        have short : ((lastLine done).takeWhile Text.isBlank).length ≠ (lastLine done).length := by
          intro same
          have whole := (List.takeWhile_prefix Text.isBlank).eq_of_length same
          rw [List.takeWhile_eq_self_iff.1 whole d hd] at hb
          exact Bool.false_ne_true hb
        rw [List.takeWhile_append, if_neg short]
        exact ⟨rfl, rfl⟩
      | false =>
        have blank : ∀ d ∈ lastLine done, Text.isBlank d = true := by simpa using dark
        rw [List.takeWhile_append_of_pos blank, List.takeWhile_eq_self_iff.2 blank]
        cases hc : Text.isBlank c <;> simp [hc]

theorem blanks_eq_indentationAt (done rest : List Char) :
    (done.foldl step start).blanks = indentationAt (done ++ rest) done.length := by
  rw [(foldl_step done).1, indentationAt, List.take_left]
  rfl

end Margin

namespace Lexeme

theorem scan_suffix (names : List (List Char)) (c : Char) (cs : List Char) :
    (scan names c cs).2 <:+ c :: cs := by
  have text : (scanText c cs).2 <:+ c :: cs := ⟨_, scanText_append c cs⟩
  unfold scan
  split
  · rename_i inner
    cases h : tag? names inner with
    | none => exact text
    | some r =>
      have rest := suffix_of_tagForm (tagForm_of_tag? h)
      exact rest.trans ((List.suffix_cons _ _).trans (List.suffix_cons _ _))
  · rename_i inner
    cases h : interpolation? inner with
    | none => exact text
    | some r =>
      have rest := suffix_of_variableForm (variableForm_of_interpolation? h)
      exact rest.trans ((List.suffix_cons _ _).trans (List.suffix_cons _ _))
  · exact text

theorem unread_of_isText {names : List (List Char)} {c : Char} {cs inner : List Char}
    (h : (scan names c cs).1.isText = true) :
    (c :: cs = '{' :: '%' :: inner → ¬ ∃ rest, TagForm names inner rest) ∧
      (c :: cs = '{' :: '{' :: inner → ¬ ∃ rest, VariableForm inner rest) := by
  constructor
  · intro opens form
    obtain ⟨rfl, rfl⟩ := List.cons.inj opens
    obtain ⟨r, hr⟩ := Option.isSome_iff_exists.1 (isSome_tag?_iff.2 form)
    change ((tag? names inner).getD _).1.isText = true at h
    rw [hr, Option.getD_some, isText_tag? hr] at h
    exact Bool.false_ne_true h
  · intro opens form
    obtain ⟨rfl, rfl⟩ := List.cons.inj opens
    obtain ⟨r, hr⟩ := Option.isSome_iff_exists.1 (isSome_interpolation?_iff.2 form)
    change ((interpolation? inner).getD _).1.isText = true at h
    rw [hr, Option.getD_some, isText_interpolation? hr] at h
    exact Bool.false_ne_true h

def tagStart : List Char := ['{', '%']

theorem startsDelimiter_of_start {cs : List Char} (h : tagStart <+: cs ∨ braces <+: cs) :
    startsDelimiter cs = true := by
  rcases h with ⟨rest, rfl⟩ | ⟨rest, rfl⟩ <;> rfl

theorem spanText_plain {cs : List Char} {k : Nat} (h : k < (spanText cs).1.length) :
    startsDelimiter (cs.drop k) = false := by
  induction cs generalizing k with
  | nil => exact absurd h (Nat.not_lt_zero k)
  | cons c cs ih =>
    unfold spanText at h
    split at h
    · exact absurd h (Nat.not_lt_zero k)
    · rename_i plain
      cases k with
      | zero => exact Bool.eq_false_iff.2 plain
      | succ k => exact ih (Nat.lt_of_succ_lt_succ h)

theorem scan_of_isText {names : List (List Char)} {c : Char} {cs : List Char}
    (h : (scan names c cs).1.isText = true) : scan names c cs = scanText c cs := by
  unfold scan at h ⊢
  split at h
  · rename_i inner
    cases ht : tag? names inner with
    | none => rfl
    | some r =>
      rw [ht, Option.getD_some, isText_tag? ht] at h
      exact absurd h Bool.false_ne_true
  · rename_i inner
    cases hi : interpolation? inner with
    | none => rfl
    | some r =>
      rw [hi, Option.getD_some, isText_interpolation? hi] at h
      exact absurd h Bool.false_ne_true
  · rfl

theorem plain_of_isText {names : List (List Char)} {c : Char} {cs : List Char}
    (h : (scan names c cs).1.isText = true) {k : Nat} (pos : 0 < k)
    (lt : k < (scan names c cs).1.textChars.length) :
    ¬ tagStart <+: (c :: cs).drop k ∧ ¬ braces <+: (c :: cs).drop k := by
  rw [scan_of_isText h] at lt
  obtain ⟨j, rfl⟩ := Nat.exists_eq_succ_of_ne_zero (Nat.ne_of_gt pos)
  have plain : startsDelimiter (cs.drop j) = false := spanText_plain (Nat.lt_of_succ_lt_succ lt)
  rw [List.drop_succ_cons]
  refine ⟨fun start => ?_, fun start => ?_⟩
  · rw [startsDelimiter_of_start (.inl start)] at plain
    exact absurd plain.symm Bool.false_ne_true
  · rw [startsDelimiter_of_start (.inr start)] at plain
    exact absurd plain.symm Bool.false_ne_true

theorem mem_names_of_tag? {names : List (List Char)} {cs name : List Char} {r : Lexeme × List Char}
    (h : tag? names cs = some r) (named : r.1.tagName? = some name) : name ∈ names := by
  obtain ⟨before, after, name', parameters, ds, tagged, spaced⟩ := exists_of_tag? h
  rw [tagged] at named
  obtain rfl : name' = name := Option.some.inj named
  obtain ⟨d, -, read⟩ := List.exists_of_findSome?_eq_some spaced
  obtain ⟨other, known, read⟩ := (longest_anyTag? names d).read _ read
  obtain rfl : name' = other := (name_of_tagNamed? read).1
  exact known

theorem mem_names_of_scan {names : List (List Char)} {c : Char} {cs name : List Char}
    (named : (scan names c cs).1.tagName? = some name) : name ∈ names := by
  unfold scan at named
  split at named
  · rename_i inner
    cases h : tag? names inner with
    | none =>
      rw [h] at named
      exact nomatch named
    | some r =>
      rw [h] at named
      exact mem_names_of_tag? h named
  · rename_i inner
    cases h : interpolation? inner with
    | none =>
      rw [h] at named
      exact nomatch named
    | some r =>
      obtain ⟨l, rest⟩ := r
      obtain ⟨before, after, lead, written, trail, rfl, -⟩ := exists_of_interpolation? h
      rw [h] at named
      exact nomatch named
  · exact nomatch named

end Lexeme

namespace Token

def obeyed (before after : Bool) (t : Token) : Token :=
  { t with
    indentation := if t.trimBefore || before then 0 else t.indentation
    value := if t.isText then t.value.map (trimValue before after) else t.value }

theorem obey_eq_ok {t : Token} (h : t.isText = true → t.value.isSome = true) (before after : Bool) :
    t.obey before after = .ok (t.obeyed before after) := by
  unfold obey obeyed
  simp only
  cases text : t.isText with
  | false => rfl
  | true =>
    obtain ⟨value, hv⟩ := Option.isSome_iff_exists.1 (h text)
    rw [hv]
    cases before <;> cases after <;> simp [trimValue]

@[simp] theorem obeyed_trimBefore (before after : Bool) (t : Token) :
    (t.obeyed before after).trimBefore = t.trimBefore := rfl

@[simp] theorem obeyed_trimAfter (before after : Bool) (t : Token) :
    (t.obeyed before after).trimAfter = t.trimAfter := rfl

@[simp] theorem obeyed_position (before after : Bool) (t : Token) :
    (t.obeyed before after).position = t.position := rfl

@[simp] theorem obeyed_isText (before after : Bool) (t : Token) :
    (t.obeyed before after).isText = t.isText := rfl

theorem obeyed_value {t : Token} (h : t.isText = true) (before after : Bool) :
    (t.obeyed before after).value = t.value.map (trimValue before after) :=
  if_pos h

@[simp] theorem ofLexeme_position (position indentation : Nat) (l : Lexeme) :
    (ofLexeme position indentation l).position = position := by
  cases l <;> rfl

@[simp] theorem ofLexeme_indentation (position indentation : Nat) (l : Lexeme) :
    (ofLexeme position indentation l).indentation = indentation := by
  cases l <;> rfl

theorem canonicalName_eq_text {name : String} (h : canonicalName name = "text") :
    name = "text" := by
  unfold canonicalName at h
  split at h
  · exact absurd h (by decide)
  · exact h

theorem isText_ofLexeme {l : Lexeme} (h : l.tagName? ≠ some "text".toList)
    (position indentation : Nat) : (ofLexeme position indentation l).isText = l.isText := by
  cases l with
  | text value => rfl
  | interpolation before after name => rfl
  | tag before after name parameters =>
    refine Bool.eq_false_iff.2 fun text => h ?_
    have same := congrArg String.toList (canonicalName_eq_text (eq_of_beq text))
    rw [String.toList_ofList] at same
    exact congrArg some same

theorem value_ofLexeme {l : Lexeme} (h : l.isText = true) (position indentation : Nat) :
    (ofLexeme position indentation l).value = some (String.ofList l.textChars) := by
  cases l with
  | text value => rfl
  | interpolation before after name => exact nomatch h
  | tag before after name parameters => exact nomatch h

end Token

section Cut

variable {names : List (List Char)} {text : List Char}

def trimsAfter (previous : Option Token) : Bool := (previous.map Token.trimAfter).getD false

def trimsBefore (next : Option Token) : Bool := (next.map Token.trimBefore).getD false

/-- A token ends where the next one starts, and the last one with the text. -/
def sliceEnd (text : List Char) (next : Option Token) : Nat :=
  (next.map Token.position).getD text.length

def between (text : List Char) (start stop : Nat) : List Char :=
  (text.take stop).drop start

def slice (text : List Char) (t : Token) (next : Option Token) : List Char :=
  between text t.position (sliceEnd text next)

def slices (text : List Char) : List Token → List (List Char)
  | [] => []
  | t :: ts => slice text t ts.head? :: slices text ts

/-- The token was read where it stands, between its neighbours. -/
structure ReadAt (names : List (List Char)) (text : List Char) (previous : Option Token)
    (t : Token) (next : Option Token) (c : Char) (cs : List Char) : Prop where
  here : text.drop t.position = c :: cs
  token : t = (Token.ofLexeme t.position (indentationAt text t.position)
    (Lexeme.scan names c cs).1).obeyed (trimsAfter previous) (trimsBefore next)
  rest : text.drop (sliceEnd text next) = (Lexeme.scan names c cs).2
  inside : sliceEnd text next ≤ text.length

/-- The tokens behind a given one, and where the first of them starts. -/
inductive Cut (names : List (List Char)) (text : List Char) :
    Option Token → Nat → List Token → Prop
  | nil {previous : Option Token} : Cut names text previous text.length []
  | cons {previous : Option Token} {t : Token} {ts : List Token} {c : Char} {cs : List Char}
      (read : ReadAt names text previous t ts.head? c cs)
      (later : Cut names text (some t) (sliceEnd text ts.head?) ts) :
    Cut names text previous t.position (t :: ts)

theorem Cut.start_eq {previous : Option Token} {start : Nat} {ts : List Token}
    (h : Cut names text previous start ts) : sliceEnd text ts.head? = start := by
  cases h <;> rfl

theorem cut_obeyAll (noText : "text".toList ∉ names) {cs done : List Char}
    (whole : text = done ++ cs) (previous : Option Token) :
    ∃ tokens,
      Token.obeyAll (trimsAfter previous)
        (Token.place done.length (done.foldl Margin.step .start) (Lexeme.all names cs)) =
          .ok tokens ∧
      trimsBefore tokens.head? = trimsBefore
        (Token.place done.length (done.foldl Margin.step .start) (Lexeme.all names cs)).head? ∧
      Cut names text previous done.length tokens := by
  induction cs using Lexeme.all.induct names generalizing done previous with
  | case1 =>
    rw [List.append_nil] at whole
    rw [Lexeme.all, ← whole]
    exact ⟨[], rfl, rfl, .nil⟩
  | case2 c cs read =>
    rename_i ih
    obtain ⟨source, split⟩ := Lexeme.scan_suffix names c cs
    have taken : (c :: cs).take ((c :: cs).length - read.2.length) = source := by
      rw [← split, List.length_append, Nat.add_sub_cancel, List.take_left]
    have further : text = (done ++ source) ++ read.2 := by
      rw [whole, List.append_assoc, split]
    let first := Token.ofLexeme done.length (done.foldl Margin.step .start).blanks read.1
    let later := Token.place (done ++ source).length ((done ++ source).foldl Margin.step .start)
      (Lexeme.all names read.2)
    have placed : Token.place done.length (done.foldl Margin.step .start)
        (Lexeme.all names (c :: cs)) = first :: later := by
      rw [Lexeme.all, Token.place, taken, ← List.foldl_append, ← List.length_append]
    let t := first.obeyed (trimsAfter previous) (trimsBefore later.head?)
    obtain ⟨ts, obeyed, marks, cut⟩ := ih further (some t)
    have valued : first.isText = true → first.value.isSome = true := by
      intro text
      rw [Token.isText_ofLexeme fun named => noText (Lexeme.mem_names_of_scan named)] at text
      rw [Token.value_ofLexeme text]
      rfl
    have position : t.position = done.length := Token.ofLexeme_position _ _ _
    refine ⟨t :: ts, ?_, ?_, ?_⟩
    · rw [placed, Token.obeyAll]
      change (first.obey _ (trimsBefore later.head?) >>= _) = _
      rw [Token.obey_eq_ok valued]
      change (Token.obeyAll t.trimAfter later >>= _) = _
      rw [show t.trimAfter = trimsAfter (some t) from rfl, obeyed]
      rfl
    · rw [placed]
      rfl
    · rw [← position]
      refine @Cut.cons _ _ _ _ _ c cs ⟨?_, ?_, ?_, ?_⟩ ?_
      · rw [position, whole, List.drop_left]
      · rw [position, marks, whole, ← Margin.blanks_eq_indentationAt]
      · rw [cut.start_eq, further, List.drop_left]
      · rw [cut.start_eq, further]
        exact (List.prefix_append _ _).length_le
      · rw [cut.start_eq]
        exact cut

theorem ReadAt.position_lt {previous next : Option Token} {t : Token} {c : Char}
    {cs : List Char} (h : ReadAt names text previous t next c cs) :
    t.position < sliceEnd text next := by
  have longer := Lexeme.scan_length names c cs
  rw [← h.rest, ← h.here, List.length_drop, List.length_drop] at longer
  have := h.inside
  omega

theorem ReadAt.slice_append {previous next : Option Token} {t : Token} {c : Char}
    {cs : List Char} (h : ReadAt names text previous t next c cs) :
    slice text t next ++ (Lexeme.scan names c cs).2 = c :: cs := by
  have lt := h.position_lt
  rw [← h.rest, ← h.here, slice, between]
  conv_rhs => rw [← List.take_append_drop (sliceEnd text next) text]
  rw [List.drop_append_of_le_length]
  rw [List.length_take]
  have := h.inside
  omega

theorem Cut.start_le {previous : Option Token} {start : Nat} {ts : List Token}
    (h : Cut names text previous start ts) : ∀ t ∈ ts, start ≤ t.position := by
  induction h with
  | nil => exact nofun
  | cons read later ih =>
    refine List.forall_mem_cons.2 ⟨Nat.le_refl _, fun t ht => ?_⟩
    exact Nat.le_trans (Nat.le_of_lt read.position_lt) (ih t ht)

theorem Cut.increasing {previous : Option Token} {start : Nat} {ts : List Token}
    (h : Cut names text previous start ts) :
    ts.Pairwise fun t u => t.position < u.position := by
  induction h with
  | nil => exact .nil
  | cons read later ih =>
    refine .cons (fun u hu => ?_) ih
    exact Nat.lt_of_lt_of_le read.position_lt (later.start_le u hu)

theorem Cut.flatten_slices {previous : Option Token} {start : Nat} {ts : List Token}
    (h : Cut names text previous start ts) : (slices text ts).flatten = text.drop start := by
  induction h with
  | nil => exact List.drop_length.symm
  | cons read later ih =>
    rw [slices, List.flatten_cons, ih, read.rest, read.slice_append, read.here]

theorem Cut.readAt {previous : Option Token} {start : Nat} {before after : List Token}
    {t : Token} (h : Cut names text previous start (before ++ t :: after)) :
    ∃ c cs, ReadAt names text (before.getLast?.or previous) t after.head? c cs := by
  induction before generalizing previous start with
  | nil =>
    cases h with
    | cons read later => exact ⟨_, _, read⟩
  | cons b before ih =>
    cases h with
    | cons read later =>
      have := ih later
      rw [List.getLast?_cons]
      cases last : before.getLast? with
      | none => rwa [last] at this
      | some u => rwa [last] at this

/-- What a token says of the text between its neighbours. -/
structure Fits (names : List (List Char)) (text : List Char) (previous : Option Token)
    (t : Token) (next : Option Token) : Prop where
  value : t.isText = true →
    t.value = some (Token.trimValue (trimsAfter previous) (trimsBefore next)
      (String.ofList (slice text t next)))
  plain : t.isText = true → ∀ k < (slice text t next).length,
    Lexeme.tagStart <+: text.drop (t.position + k) ∨ Lexeme.braces <+: text.drop (t.position + k) →
      k = 0
  untagged : t.isText = true → ∀ inner, text.drop t.position = Lexeme.tagStart ++ inner →
    ¬ ∃ rest, TagForm names inner rest
  unbraced : t.isText = true → ∀ inner, text.drop t.position = Lexeme.braces ++ inner →
    ¬ ∃ rest, VariableForm inner rest
  indented : t.indentation =
    if t.trimBefore || trimsAfter previous then 0 else indentationAt text t.position

/-- The tokens cut the text into slices, from its start to its end, and each fits its slice. -/
structure Segmentation (names : List (List Char)) (text : List Char) (tokens : List Token) :
    Prop where
  empty_iff : tokens = [] ↔ text = []
  starts : ∀ t ∈ tokens.head?, t.position = 0
  increasing : tokens.Pairwise fun t u => t.position < u.position
  within : ∀ t ∈ tokens, t.position < text.length
  lossless : (slices text tokens).flatten = text
  fits : ∀ before t after, tokens = before ++ t :: after →
    Fits names text before.getLast? t after.head?

theorem ReadAt.isText (noText : "text".toList ∉ names) {previous next : Option Token} {t : Token}
    {c : Char} {cs : List Char} (h : ReadAt names text previous t next c cs) :
    t.isText = (Lexeme.scan names c cs).1.isText := by
  rw [h.token, Token.obeyed_isText]
  exact Token.isText_ofLexeme (fun named => noText (Lexeme.mem_names_of_scan named)) _ _

theorem ReadAt.textChars {previous next : Option Token} {t : Token} {c : Char} {cs : List Char}
    (h : ReadAt names text previous t next c cs)
    (isText : (Lexeme.scan names c cs).1.isText = true) :
    (Lexeme.scan names c cs).1.textChars = slice text t next :=
  List.append_cancel_right ((Lexeme.scan_text_append isText).trans h.slice_append.symm)

theorem ReadAt.fits (noText : "text".toList ∉ names) {previous next : Option Token} {t : Token}
    {c : Char} {cs : List Char} (h : ReadAt names text previous t next c cs) :
    Fits names text previous t next := by
  have scanned (isText : t.isText = true) : (Lexeme.scan names c cs).1.isText = true := by
    rw [← h.isText noText]
    exact isText
  constructor
  · intro isText
    have read := scanned isText
    have value := congrArg Token.value h.token
    rw [h.token, Token.obeyed_isText] at isText
    rw [Token.obeyed_value isText, Token.value_ofLexeme read, h.textChars read] at value
    exact value
  · intro isText k lt starts
    by_contra nonzero
    rw [← h.textChars (scanned isText)] at lt
    obtain ⟨noTag, noVariable⟩ :=
      Lexeme.plain_of_isText (scanned isText) (Nat.pos_of_ne_zero nonzero) lt
    rw [← h.here, List.drop_drop] at noTag noVariable
    exact starts.elim noTag noVariable
  · intro isText inner opens
    exact (Lexeme.unread_of_isText (scanned isText)).1 (h.here.symm.trans opens)
  · intro isText inner opens
    exact (Lexeme.unread_of_isText (scanned isText)).2 (h.here.symm.trans opens)
  · rw [h.token]
    simp only [Token.obeyed, Token.ofLexeme_position, Token.ofLexeme_indentation]

theorem Cut.segmentation (noText : "text".toList ∉ names) {tokens : List Token}
    (h : Cut names text none 0 tokens) : Segmentation names text tokens := by
  have within : ∀ t ∈ tokens, t.position < text.length := by
    intro t ht
    obtain ⟨before, after, rfl⟩ := List.append_of_mem ht
    obtain ⟨c, cs, read⟩ := h.readAt
    exact Nat.lt_of_lt_of_le read.position_lt read.inside
  have lossless : (slices text tokens).flatten = text := h.flatten_slices
  refine ⟨⟨?_, ?_⟩, ?_, h.increasing, within, lossless, ?_⟩
  · rintro rfl
    exact lossless.symm
  · rintro rfl
    exact List.eq_nil_iff_forall_not_mem.2 fun t ht => Nat.not_lt_zero _ (within t ht)
  · intro t ht
    have start := h.start_eq
    rw [ht] at start
    exact start
  · rintro before t after rfl
    obtain ⟨c, cs, read⟩ := h.readAt
    rw [Option.or_none] at read
    exact read.fits noText

def tagNames (tags : List Tag) : List (List Char) :=
  tags.map fun tag => tag.name.toList

theorem not_mem_names {tags : List Tag} (noText : ∀ tag ∈ tags, tag.name ≠ "text") :
    "text".toList ∉ tagNames tags := by
  intro known
  obtain ⟨tag, mem, same⟩ := List.mem_map.1 known
  exact noText tag mem (String.toList_inj.1 same)

theorem exists_cut {tags : List Tag} (noText : ∀ tag ∈ tags, tag.name ≠ "text") (text : String) :
    ∃ tokens, Token.ofText tags text = .ok tokens ∧
      Cut (tagNames tags) text.toList none 0 tokens := by
  obtain ⟨tokens, obeyed, -, cut⟩ :=
    @cut_obeyAll _ text.toList (not_mem_names noText) _ [] rfl none
  exact ⟨tokens, obeyed, cut⟩

/-- For every text and every vocabulary without a tag called `text`, the tokens cut the text into
consecutive slices. -/
theorem tokens_segment_text (tags : List Tag) (noText : ∀ tag ∈ tags, tag.name ≠ "text")
    (text : String) :
    ∃ tokens, Token.ofText tags text = .ok tokens ∧
      Segmentation (tagNames tags) text.toList tokens := by
  obtain ⟨tokens, read, cut⟩ := exists_cut noText text
  exact ⟨tokens, read, cut.segmentation (not_mem_names noText)⟩

theorem three_braces_segment :
    Token.ofText Tag.shared "\x7b\x7b\x7bx-\x7d\x7d y" = .ok
      [⟨"text", 0, false, false, none, some "\x7b", 0⟩,
        ⟨"variable", 0, false, true, some "x", none, 1⟩,
        ⟨"text", 0, false, false, none, some "y", 7⟩] ∧
      ∃ tokens, Token.ofText Tag.shared "\x7b\x7b\x7bx-\x7d\x7d y" = .ok tokens ∧
        Segmentation (tagNames Tag.shared)
          "\x7b\x7b\x7bx-\x7d\x7d y".toList tokens :=
  ⟨by decide +kernel, tokens_segment_text Tag.shared (by decide) _⟩

end Cut

end Stencil.Template
