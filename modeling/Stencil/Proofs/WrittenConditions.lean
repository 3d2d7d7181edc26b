import Stencil.Condition
import Stencil.Proofs.Patterns

set_option autoImplicit false

/-!
# Written conditions

A comparison can be written down for any name, operator and text: the text between quotes, with a
backslash in front of each backslash and each quote of the kind around it. It is read back as it
was meant, whatever the brackets of the name hold and whatever blanks stand around the operator.
-/

namespace Stencil.Text

section Escape

variable {q : Char}

theorem escapeWith_mark {c : Char} (h : c = '\\' ∨ c = q) (cs : List Char) :
    escapeWith q (c :: cs) = '\\' :: c :: escapeWith q cs := by
  rw [escapeWith, if_pos]
  simpa using h

theorem escapeWith_plain {c : Char} (h : ¬ (c = '\\' ∨ c = q)) (cs : List Char) :
    escapeWith q (c :: cs) = c :: escapeWith q cs := by
  rw [escapeWith, if_neg]
  simpa using h

theorem replacePair_hit (a b by' : Char) (cs : List Char) :
    replacePair a b by' (a :: b :: cs) = by' :: replacePair a b by' cs := by
  rw [replacePair, if_pos]
  simp

theorem replacePair_miss {a b by' x : Char} {cs : List Char} (h : x = a → cs.head? ≠ some b) :
    replacePair a b by' (x :: cs) = x :: replacePair a b by' cs := by
  cases cs with
  | nil => rw [replacePair, replacePair] <;> simp
  | cons y cs =>
    rw [replacePair, if_neg]
    intro both
    obtain ⟨first, second⟩ := Bool.and_eq_true_iff.1 both
    exact h (eq_of_beq first) (congrArg some (eq_of_beq second))

variable (hq : q ≠ '\\')
include hq

theorem head?_escapeWith (cs : List Char) : (escapeWith q cs).head? ≠ some q := by
  cases cs with
  | nil => exact nofun
  | cons c cs =>
    intro first
    by_cases h : c = '\\' ∨ c = q
    · rw [escapeWith_mark h] at first
      exact hq (Option.some.inj first).symm
    · rw [escapeWith_plain h] at first
      exact h (.inr (Option.some.inj first))

/-- Taking the backslash of each quote off leaves the doubled backslashes. -/
theorem replacePair_escapeWith (cs : List Char) :
    replacePair '\\' q q (escapeWith q cs) = escapeWith '\\' cs := by
  induction cs with
  | nil => rfl
  | cons c cs ih =>
    by_cases slash : c = '\\'
    · rw [escapeWith_mark (.inl slash), escapeWith_mark (.inl slash), slash,
        replacePair_miss, replacePair_miss fun _ => head?_escapeWith hq cs, ih]
      exact fun _ first => hq (Option.some.inj first).symm
    · by_cases quote : c = q
      · rw [escapeWith_mark (.inr quote), quote, replacePair_hit, ih, escapeWith_plain]
        rintro (h | h) <;> exact hq h
      · have plain : ¬ (c = '\\' ∨ c = q) := fun h => h.elim slash quote
        rw [escapeWith_plain plain, replacePair_miss fun h => absurd h slash, ih, escapeWith_plain]
        exact fun h => h.elim slash slash

omit hq in
theorem replacePair_doubled (cs : List Char) :
    replacePair '\\' '\\' '\\' (escapeWith '\\' cs) = cs := by
  induction cs with
  | nil => rfl
  | cons c cs ih =>
    by_cases slash : c = '\\'
    · rw [escapeWith_mark (.inl slash), slash, replacePair_hit, ih]
    · rw [escapeWith_plain (fun h => h.elim slash slash),
        replacePair_miss fun h => absurd h slash, ih]

end Escape

theorem ne_backslash_of_isQuote {q : Char} (h : isQuote q = true) : q ≠ '\\' := by
  rintro rfl
  exact absurd h (by decide)

theorem isBlank_of_isQuote {q : Char} (h : isQuote q = true) : isBlank q = false := by
  rcases Bool.or_eq_true_iff.1 h with single | double
  · rw [eq_of_beq single]
    decide
  · rw [eq_of_beq double]
    decide

theorem trim_between {lead cs trail : List Char} (blankLead : ∀ c ∈ lead, isBlank c = true)
    (blankTrail : ∀ c ∈ trail, isBlank c = true) (filled : cs ≠ [])
    (first : ∀ c ∈ cs.head?, isBlank c = false) (last : ∀ c ∈ cs.getLast?, isBlank c = false) :
    trim (lead ++ (cs ++ trail)) = cs := by
  have start : trimStart (lead ++ (cs ++ trail)) = cs ++ trail := by
    refine trimStart_append blankLead ?_
    rwa [List.head?_append_of_ne_nil _ filled]
  have back : trimStart (trail.reverse ++ cs.reverse) = cs.reverse := by
    refine trimStart_append (fun c hc => blankTrail c (List.mem_reverse.1 hc)) ?_
    rwa [List.head?_reverse]
  rw [trim, start, trimEnd, List.reverse_append]
  change (trimStart (trail.reverse ++ cs.reverse)).reverse = cs
  rw [back, List.reverse_reverse]

/-- A text between two quotes, with a backslash in front of each backslash and quote of that
kind. -/
def literalOf (q : Char) (cs : List Char) : List Char :=
  q :: escapeWith q cs ++ [q]

section Quoted

variable {q : Char} (hq : isQuote q = true)
include hq

/-- Between two quotes of one kind, first the pairs with the quote are replaced and then the doubled
backslashes. -/
theorem unescape_between (inner : List Char) :
    unescape (q :: inner ++ [q]) = replacePair '\\' '\\' '\\' (replacePair '\\' q q inner) := by
  obtain ⟨c, rest, split⟩ : ∃ c rest, inner ++ [q] = c :: rest :=
    List.exists_cons_of_ne_nil (List.append_ne_nil_of_right_ne_nil _ (List.cons_ne_nil _ _))
  have last : (c :: rest).getLast? = some q := by
    rw [← split, List.getLast?_concat]
  unfold unescape
  rw [List.cons_append, split]
  simp only [hq, last, beq_self_eq_true, Bool.and_self, if_true]
  rw [← split, List.dropLast_concat]

theorem unescape_literalOf (cs : List Char) : unescape (literalOf q cs) = cs := by
  rw [literalOf, unescape_between hq, replacePair_escapeWith (ne_backslash_of_isQuote hq),
    replacePair_doubled]

theorem literalBody?_escapeWith (newlines : Bool) (cs rest : List Char) :
    literalBody? newlines q (escapeWith q cs ++ q :: rest) = some (escapeWith q cs, rest) := by
  have backslash := ne_backslash_of_isQuote hq
  induction cs with
  | nil =>
    change literalBody? newlines q (q :: rest) = some ([], rest)
    rw [literalBody?]
    · simp
    · simp [backslash]
  | cons c cs ih =>
    by_cases h : c = '\\' ∨ c = q
    · have line : c ≠ '\n' := by
        rcases h with rfl | rfl
        · decide
        · rintro rfl
          exact absurd hq (by decide)
      rw [escapeWith_mark h]
      simp [literalBody?, ih, line]
    · rw [escapeWith_plain h, List.cons_append]
      obtain ⟨slash, quote⟩ := not_or.1 h
      rw [literalBody?]
      · simp [slash, quote, ih]
      · simp [slash]

theorem literal?_literalOf (newlines : Bool) (cs rest : List Char) :
    literal? newlines (literalOf q cs ++ rest) = some (literalOf q cs, rest) := by
  have whole : literalOf q cs ++ rest = q :: (escapeWith q cs ++ q :: rest) := by
    simp [literalOf]
  rw [whole, literal?, if_pos hq, literalBody?_escapeWith hq]
  rfl

end Quoted

end Stencil.Text

namespace Stencil

open Template

theorem Operator.signs (op : Operator) :
    op.text.toList ≠ [] ∧ ∀ c ∈ op.text.toList, Condition.isSign c = true := by
  cases op <;> exact ⟨by decide, by simp [Operator.text, Condition.isSign]⟩

namespace Condition

theorem isBlank_of_isSign {c : Char} (h : isSign c = true) : Text.isBlank c = false := by
  simp only [isSign, Bool.or_eq_true, beq_iff_eq] at h
  rcases h with ((rfl | rfl) | rfl) | rfl <;> decide

theorem value?_literalOf {q : Char} (hq : Text.isQuote q = true) (v : List Char) :
    value? (Text.literalOf q v) = some (Text.literalOf q v) := by
  have whole := Text.literal?_literalOf hq true v []
  rw [List.append_nil] at whole
  unfold value?
  rw [whole]

/-- A comparison with a literal, with blanks or none around the operator. -/
def written (name before : List Char) (op : Operator) (after : List Char) (q : Char)
    (v : List Char) : List Char :=
  name ++ (before ++ (op.text.toList ++ (after ++ Text.literalOf q v)))

theorem stops_of_isSign {c : Char} (h : isSign c = true) : Stops c := by
  simp only [isSign, Bool.or_eq_true, beq_iff_eq] at h
  rcases h with ((rfl | rfl) | rfl) | rfl <;> exact ⟨by decide, by decide⟩

section Written

variable {name before after : List Char} (named : NameForm name)
  (blankBefore : ∀ c ∈ before, Text.isBlank c = true) (op : Operator)
  (blankAfter : ∀ c ∈ after, Text.isBlank c = true) {q : Char} (hq : Text.isQuote q = true)
  (v : List Char)

include named in
theorem written_ne_nil : written name before op after q v ≠ [] :=
  List.append_ne_nil_of_left_ne_nil named.ne_nil _

include named in
theorem head?_written :
    ∀ c ∈ (written name before op after q v).head?, Text.isBlank c = false := by
  rw [written, List.head?_append_of_ne_nil _ named.ne_nil]
  exact fun c hc => isBlank_of_isNameChar (named.first c hc)

include hq in
theorem getLast?_written :
    ∀ c ∈ (written name before op after q v).getLast?, Text.isBlank c = false := by
  have ends : written name before op after q v =
      name ++ (before ++ (op.text.toList ++ (after ++ q :: Text.escapeWith q v))) ++ [q] := by
    simp [written, Text.literalOf]
  rw [ends, List.getLast?_concat]
  rintro _ ⟨⟩
  exact Text.isBlank_of_isQuote hq

include blankAfter hq

theorem takeWhile_isSign :
    (op.text.toList ++ (after ++ Text.literalOf q v)).takeWhile isSign = op.text.toList := by
  rw [List.takeWhile_append_of_pos op.signs.2]
  have unsigned : ∀ c ∈ (after ++ Text.literalOf q v).head?, ¬ isSign c = true := by
    intro c hc sign
    cases after with
    | nil =>
      obtain rfl := Option.some.inj hc
      simp [Text.isQuote] at hq
      rcases hq with rfl | rfl <;> exact absurd sign (by decide)
    | cons d after =>
      obtain rfl := Option.some.inj hc
      have blank := blankAfter d List.mem_cons_self
      rw [isBlank_of_isSign sign] at blank
      exact Bool.false_ne_true blank
  cases rest : after ++ Text.literalOf q v with
  | nil => simp
  | cons c cs =>
    rw [rest] at unsigned
    rw [List.takeWhile_cons_of_neg (unsigned c rfl), List.append_nil]

include blankBefore in
theorem signOperator?_written :
    signOperator? (before ++ (op.text.toList ++ (after ++ Text.literalOf q v))) =
      some (op.text.toList, Text.literalOf q v) := by
  obtain ⟨filled, signs⟩ := op.signs
  have start : Text.trimStart (before ++ (op.text.toList ++ (after ++ Text.literalOf q v))) =
      op.text.toList ++ (after ++ Text.literalOf q v) := by
    refine Text.trimStart_append blankBefore ?_
    rw [List.head?_append_of_ne_nil _ filled]
    exact fun c hc => isBlank_of_isSign (signs c (List.mem_of_head? hc))
  have behind : Text.trimStart (after ++ Text.literalOf q v) = Text.literalOf q v := by
    refine Text.trimStart_append blankAfter fun c hc => ?_
    rw [← Option.some.inj hc]
    exact Text.isBlank_of_isQuote hq
  obtain ⟨k, length⟩ : ∃ k, op.text.toList.length = k + 1 :=
    Nat.exists_eq_succ_of_ne_zero (mt List.length_eq_zero_iff.1 filled)
  unfold signOperator?
  simp only [start, takeWhile_isSign op blankAfter hq]
  rw [length, signed?, ← length, List.drop_left, behind, value?_literalOf hq, List.take_left]

include named blankBefore in
theorem read?_written :
    read? (written name before op after q v) =
      some ⟨String.ofList name, some ⟨op.text, String.ofList v⟩⟩ := by
  obtain ⟨filled, signs⟩ := op.signs
  have stop : ∀ c ∈ (before ++ (op.text.toList ++ (after ++ Text.literalOf q v))).head?,
      Stops c := by
    intro c hc
    cases before with
    | nil =>
      rw [List.nil_append, List.head?_append_of_ne_nil _ filled] at hc
      exact stops_of_isSign (signs c (List.mem_of_head? hc))
    | cons d before =>
      obtain rfl := Option.some.inj hc
      exact stops_of_isBlank (blankBefore d List.mem_cons_self)
  have compared := signOperator?_written blankBefore op blankAfter hq v
  obtain ⟨c, cs, behind⟩ :
      ∃ c cs, before ++ (op.text.toList ++ (after ++ Text.literalOf q v)) = c :: cs :=
    List.exists_cons_of_ne_nil (by simp [filled])
  unfold read? written
  rw [name?_complete named stop, behind]
  rw [behind] at compared
  simp only [compared, Option.some_or, Option.map_some, Text.unescape_literalOf hq,
    String.ofList_toList]

end Written

theorem read?_name {name : List Char} (named : NameForm name) :
    read? name = some ⟨String.ofList name, none⟩ := by
  have whole : name? (name ++ []) = some (name, []) := name?_complete named nofun
  rw [List.append_nil] at whole
  unfold read?
  rw [whole]

theorem ofParameters_of_read? {p : String} {c : Condition} (filled : p.toList ≠ [])
    (first : ∀ c ∈ p.toList.head?, Text.isBlank c = false)
    (last : ∀ c ∈ p.toList.getLast?, Text.isBlank c = false) (read : read? p.toList = some c) :
    ofParameters (some p) = .ok c := by
  have given : p.isEmpty = false := by
    rw [← Bool.not_eq_true, String.isEmpty_iff]
    rintro rfl
    exact filled rfl
  have trimmed : Text.trim ([] ++ (p.toList ++ [])) = p.toList :=
    Text.trim_between (List.forall_mem_nil _) (List.forall_mem_nil _) filled first last
  rw [List.nil_append, List.append_nil] at trimmed
  unfold ofParameters
  simp only [given, trimmed, read]
  rfl

/-- A condition is read back as it was written down: a name alone, and a name that any of the
operators compares with any text between quotes. -/
theorem ofParameters_written (name : String) (named : NameForm name.toList) :
    ofParameters (some name) = .ok ⟨name, none⟩ ∧
    ∀ (before after : List Char) (op : Operator) (q : Char) (v : String),
      (∀ c ∈ before, Text.isBlank c = true) → (∀ c ∈ after, Text.isBlank c = true) →
      Text.isQuote q = true →
      ofParameters (some (String.ofList (written name.toList before op after q v.toList))) =
        .ok ⟨name, some ⟨op.text, v⟩⟩ := by
  constructor
  · refine ofParameters_of_read? named.ne_nil ?_ named.last ?_
    · exact fun c hc => isBlank_of_isNameChar (named.first c hc)
    · rw [read?_name named, String.ofList_toList]
  · intro before after op q v blankBefore blankAfter hq
    apply ofParameters_of_read?
    · rw [String.toList_ofList]
      exact written_ne_nil named op v.toList
    · rw [String.toList_ofList]
      exact head?_written named op v.toList
    · rw [String.toList_ofList]
      exact getLast?_written op hq v.toList
    · rw [String.toList_ofList, read?_written named blankBefore op blankAfter hq,
        String.ofList_toList, String.ofList_toList]

theorem comparison_behind_brackets_is_read :
    ofParameters (some "a[ == 'x'].b>=\n'\\\\\\'\n'") =
      .ok ⟨"a[ == 'x'].b", some ⟨">=", "\\'\n"⟩⟩ := by
  have inside : NamePart "[ == 'x'].b".toList :=
    @NamePart.index " == 'x'".toList ['.', 'b'] (by simp)
      (.char (by decide) (.char (by decide) .nil))
  have named : NameForm "a[ == 'x'].b".toList := .mk (by decide) inside
  exact (ofParameters_written "a[ == 'x'].b" named).2 [] ['\n'] .ge '\'' "\\'\n"
    (List.forall_mem_nil _) (List.forall_mem_singleton.2 (by decide)) (by decide)

end Condition

end Stencil
