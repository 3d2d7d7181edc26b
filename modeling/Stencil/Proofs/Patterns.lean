import Mathlib
import Stencil.Proofs.Lexemes
import Stencil.Proofs.Vocabularies

set_option autoImplicit false

/-!
# The patterns of tags and variables

`TagForm` and `VariableForm` say what a tag and a variable look like behind their opening, as
patterns that may match in several ways. The readers of lexemes find a tag or a variable exactly
where the pattern matches, for vocabularies of any names.
-/

namespace Stencil.Text

theorem isWord_of_isBlank {c : Char} (h : isBlank c = true) : isWord c = false := by
  have apart : ∀ b ∈ blankTable.ranges, ∀ w ∈ wordTable.ranges, b.2 < w.1 ∨ w.2 < b.1 := by
    decide +kernel
  have plain : ∀ b ∈ blankTable.ranges, ∀ n < 128, b.1 ≤ n → n ≤ b.2 →
      ((Char.ofNat n).isAlphanum || Char.ofNat n == '_') = false := by decide +kernel
  obtain ⟨b, hb, low, high⟩ := (CharSet.contains_iff _ _).1 h
  unfold isWord
  split
  · rename_i ascii
    have := plain b hb c.toNat ascii low high
    rwa [Char.ofNat_toNat] at this
  · refine Bool.eq_false_iff.2 fun word => ?_
    obtain ⟨w, hw, low', high'⟩ := (CharSet.contains_iff _ _).1 word
    rcases apart b hb w hw with lt | lt <;> omega

theorem isBlank_of_isWord {c : Char} (h : isWord c = true) : isBlank c = false := by
  refine Bool.eq_false_iff.2 fun blank => ?_
  rw [isWord_of_isBlank blank] at h
  exact Bool.false_ne_true h

theorem trimStart_append {lead cs : List Char} (blank : ∀ c ∈ lead, isBlank c = true)
    (stop : ∀ c ∈ cs.head?, isBlank c = false) : trimStart (lead ++ cs) = cs := by
  unfold trimStart
  rw [List.dropWhile_append_of_pos blank]
  cases cs with
  | nil => rfl
  | cons c cs => rw [List.dropWhile_cons_of_neg (by simp [stop c rfl])]

theorem exists_trimStart (cs : List Char) :
    ∃ lead, cs = lead ++ trimStart cs ∧ ∀ c ∈ lead, isBlank c = true :=
  ⟨cs.takeWhile isBlank, List.takeWhile_append_dropWhile.symm,
    fun _ hc => List.all_eq_true.1 List.all_takeWhile _ hc⟩

theorem trimEnd_blank {cs : List Char} (h : cs.all isBlank = true) : trimEnd cs = [] := by
  unfold trimEnd
  rw [List.dropWhile_eq_nil_iff.2, List.reverse_nil]
  exact fun c hc => List.all_eq_true.1 h c (List.mem_reverse.1 hc)

theorem trimEnd_cons {c : Char} {cs : List Char} (h : (c :: cs).all isBlank = false) :
    trimEnd (c :: cs) = c :: trimEnd cs := by
  unfold trimEnd
  rw [List.reverse_cons, List.dropWhile_append]
  split
  · rename_i empty
    have blank : cs.all isBlank = true := by
      rw [List.isEmpty_iff, List.dropWhile_eq_nil_iff] at empty
      exact List.all_eq_true.2 fun d hd => empty d (List.mem_reverse.2 hd)
    rw [List.all_cons, blank, Bool.and_true] at h
    rw [List.dropWhile_cons_of_neg (Bool.eq_false_iff.1 h)]
    rw [List.isEmpty_iff] at empty
    rw [empty]
    rfl
  · rw [List.reverse_append]
    rfl

end Stencil.Text

namespace Stencil.Template

def dash (there : Bool) : List Char := if there then ['-'] else []

def tagEnd : List Char := ['%', '}']

def variableEnd : List Char := ['}', '}']

def Unended (inside after : List Char) : Prop :=
  ∀ k < inside.length, ¬ tagEnd <+: (inside ++ after).drop k

/-- What may stand behind the name of a tag: parameters set off by blanks or none, blanks, a dash
or none, and the end. -/
inductive TailForm : List Char → List Char → Prop
  | mk {after : Bool} {gap parameters trail rest : List Char}
      (blankGap : ∀ c ∈ gap, Text.isBlank c = true) (apart : gap = [] → parameters = [])
      (inside : Unended parameters (trail ++ dash after ++ tagEnd ++ rest))
      (blankTrail : ∀ c ∈ trail, Text.isBlank c = true) :
    TailForm (gap ++ parameters ++ trail ++ dash after ++ tagEnd ++ rest) rest

/-- What may stand behind the opening of a tag: a dash or none, blanks, a name of the vocabulary
that no word character continues, and what may follow it. -/
inductive TagForm (names : List (List Char)) : List Char → List Char → Prop
  | mk {before : Bool} {lead name tail rest : List Char}
      (blankLead : ∀ c ∈ lead, Text.isBlank c = true) (known : name ∈ names)
      (ends : ∀ c ∈ tail.head?, Text.isWord c = false) (form : TailForm tail rest) :
    TagForm names (dash before ++ lead ++ name ++ tail) rest

/-- Name characters and bracketed indices in any order. -/
inductive NamePart : List Char → Prop
  | nil : NamePart []
  | char {c : Char} {cs : List Char} (named : isNameChar c = true) (others : NamePart cs) :
    NamePart (c :: cs)
  | index {inside cs : List Char} (closed : ∀ c ∈ inside, c ≠ ']') (others : NamePart cs) :
    NamePart ('[' :: inside ++ ']' :: cs)

/-- A name character, and then name characters and bracketed indices. -/
inductive NameForm : List Char → Prop
  | mk {c : Char} {others : List Char} (first : isNameChar c = true) (part : NamePart others) :
    NameForm (c :: others)

/-- What may stand behind the opening of a variable: a dash or none, blanks, a name, blanks, a dash
or none, and the end. -/
inductive VariableForm : List Char → List Char → Prop
  | mk {before after : Bool} {lead name trail rest : List Char} {c : Char}
      (blankLead : ∀ c ∈ lead, Text.isBlank c = true) (first : isNameChar c = true)
      (others : NamePart name) (blankTrail : ∀ c ∈ trail, Text.isBlank c = true) :
    VariableForm (dash before ++ lead ++ c :: name ++ trail ++ dash after ++ variableEnd ++ rest)
      rest

namespace Unended

variable {front inside back after : List Char}

theorem nil (after : List Char) : Unended [] after :=
  fun k hk => absurd hk (Nat.not_lt_zero k)

theorem of_append_left (h : Unended (front ++ inside) after) : Unended inside after := by
  intro k hk
  have := h (front.length + k) (by simp only [List.length_append]; omega)
  rwa [List.append_assoc, List.drop_length_add_append] at this

theorem of_append_right (h : Unended (inside ++ back) after) : Unended inside (back ++ after) := by
  intro k hk
  have := h k (by simp only [List.length_append]; omega)
  rwa [List.append_assoc] at this

end Unended

namespace Lexeme

theorem untilTagEnd_cons {c : Char} {cs : List Char} (h : ¬ tagEnd <+: c :: cs) :
    untilTagEnd (c :: cs) =
      (untilTagEnd cs).map fun (inside, rest) => (c :: inside, rest) := by
  refine untilTagEnd.eq_3 c cs fun rest percent brace => h ⟨rest, ?_⟩
  rw [percent, brace]
  rfl

theorem untilTagEnd_sound {cs inside rest : List Char}
    (h : untilTagEnd cs = some (inside, rest)) :
    cs = inside ++ tagEnd ++ rest ∧ Unended inside (tagEnd ++ rest) := by
  fun_induction untilTagEnd cs generalizing inside rest with
  | case1 => cases h
  | case2 r =>
    obtain ⟨rfl, rfl⟩ := Prod.mk.inj (Option.some.inj h)
    exact ⟨rfl, Unended.nil _⟩
  | case3 c cs noEnd ih =>
    obtain ⟨⟨i, r⟩, hr, he⟩ := Option.map_eq_some_iff.1 h
    obtain ⟨rfl, rfl⟩ := Prod.mk.inj he
    obtain ⟨split, unended⟩ := ih hr
    refine ⟨congrArg (c :: ·) split, fun k hk => ?_⟩
    cases k with
    | zero =>
      rintro ⟨t, ht⟩
      obtain ⟨percent, brace⟩ := List.cons.inj ht
      rw [List.append_assoc] at split
      exact noEnd t percent.symm (split.trans brace.symm)
    | succ k => exact unended k (Nat.lt_of_succ_lt_succ hk)

theorem untilTagEnd_complete {inside rest : List Char} (h : Unended inside (tagEnd ++ rest)) :
    untilTagEnd (inside ++ tagEnd ++ rest) = some (inside, rest) := by
  rw [List.append_assoc]
  induction inside with
  | nil => rfl
  | cons c inside ih =>
    have later : Unended inside (tagEnd ++ rest) := @Unended.of_append_left [c] _ _ h
    have first : ¬ tagEnd <+: c :: (inside ++ (tagEnd ++ rest)) := h 0 (Nat.succ_pos _)
    rw [List.cons_append, untilTagEnd_cons first, ih later]
    rfl

theorem isSome_untilTagEnd (inside rest : List Char) :
    (untilTagEnd (inside ++ tagEnd ++ rest)).isSome = true := by
  rw [List.append_assoc]
  induction inside with
  | nil => rfl
  | cons c inside ih =>
    by_cases h : tagEnd <+: c :: (inside ++ (tagEnd ++ rest))
    · obtain ⟨t, ht⟩ := h
      rw [List.cons_append, ← ht]
      rfl
    · rw [List.cons_append, untilTagEnd_cons h, Option.isSome_map]
      exact ih

theorem dropDash_append (cs : List Char) : (dropDash cs).1 ++ dash (dropDash cs).2 = cs := by
  unfold dropDash
  split
  · rename_i last
    obtain ⟨front, rfl⟩ := List.getLast?_eq_some_iff.1 last
    rw [List.dropLast_concat]
    rfl
  · exact List.append_nil cs

section Tail

theorem tagTail?_end (after : Bool) (rest : List Char) :
    tagTail? (dash after ++ tagEnd ++ rest) = some (none, after, rest) := by
  cases after <;> rfl

theorem tagTail?_blank {c : Char} (h : Text.isBlank c = true) (cs : List Char) :
    tagTail? (c :: cs) = (untilTagEnd (c :: cs)).map fun (inside, rest) =>
      (parametersOf (dropDash inside).1, (dropDash inside).2, rest) := by
  unfold tagTail?
  split
  · rename_i same
    obtain ⟨rfl, -⟩ := List.cons.inj same
    exact absurd h (by decide)
  · rename_i same
    obtain ⟨rfl, -⟩ := List.cons.inj same
    exact absurd h (by decide)
  · contradiction
  · rename_i same
    obtain ⟨rfl, rfl⟩ := List.cons.inj same
    rw [if_pos h]

theorem tagTail?_dark {c : Char} {cs : List Char} (dark : Text.isBlank c = false)
    (unended : ¬ tagEnd <+: c :: cs) (undashed : c = '-' → ¬ tagEnd <+: cs) :
    tagTail? (c :: cs) = none := by
  unfold tagTail?
  split
  · rename_i rest same
    obtain ⟨dash, rfl⟩ := List.cons.inj same
    exact absurd ⟨rest, rfl⟩ (undashed dash)
  · rename_i rest same
    exact absurd ⟨rest, same.symm⟩ unended
  · rfl
  · rename_i same
    obtain ⟨rfl, rfl⟩ := List.cons.inj same
    rw [if_neg (by rw [dark]; exact Bool.false_ne_true)]

def setOff (cs : List Char) : Bool := cs.head?.all Text.isBlank

theorem tagTail?_eq {inside rest : List Char} (h : Unended inside (tagEnd ++ rest)) :
    tagTail? (inside ++ (tagEnd ++ rest)) =
      if setOff (dropDash inside).1 then
        some (parametersOf (dropDash inside).1, (dropDash inside).2, rest)
      else none := by
  have whole := dropDash_append inside
  cases front : (dropDash inside).1 with
  | nil =>
    rw [front, List.nil_append] at whole
    rw [← whole, ← List.append_assoc, tagTail?_end, whole]
    rfl
  | cons c more =>
    rw [front, List.cons_append] at whole
    obtain ⟨later, rfl⟩ : ∃ later, inside = c :: later := ⟨_, whole.symm⟩
    cases blank : Text.isBlank c with
    | true =>
      have first : setOff (c :: more) = true := blank
      have read := untilTagEnd_complete h
      rw [List.append_assoc, List.cons_append] at read
      rw [if_pos first, List.cons_append, tagTail?_blank blank, read, ← front]
      rfl
    | false =>
      have first : ¬ setOff (c :: more) = true := Bool.eq_false_iff.1 blank
      rw [if_neg first]
      refine tagTail?_dark blank (h 0 (Nat.succ_pos _)) ?_
      rintro rfl
      cases later with
      | nil => cases front
      | cons d later => exact h 1 (Nat.succ_lt_succ (Nat.succ_pos _))

theorem untilTagEnd_of_tagTail? {cs rest : List Char} {parameters : Option (List Char)}
    {after : Bool} (h : tagTail? cs = some (parameters, after, rest)) :
    ∃ inside, untilTagEnd cs = some (inside, rest) := by
  unfold tagTail? at h
  split at h
  · obtain ⟨-, rfl⟩ := Prod.mk.inj (Prod.mk.inj (Option.some.inj h)).2
    exact ⟨['-'], rfl⟩
  · obtain ⟨-, rfl⟩ := Prod.mk.inj (Prod.mk.inj (Option.some.inj h)).2
    exact ⟨[], rfl⟩
  · cases h
  · split at h
    · obtain ⟨⟨inside, r⟩, hr, he⟩ := Option.map_eq_some_iff.1 h
      obtain ⟨-, rfl⟩ := Prod.mk.inj (Prod.mk.inj he).2
      exact ⟨inside, hr⟩
    · cases h

theorem tailForm_of_tagTail? {cs rest : List Char} {parameters : Option (List Char)}
    {after : Bool} (h : tagTail? cs = some (parameters, after, rest)) : TailForm cs rest := by
  obtain ⟨inside, ends⟩ := untilTagEnd_of_tagTail? h
  obtain ⟨rfl, unended⟩ := untilTagEnd_sound ends
  rw [List.append_assoc, tagTail?_eq unended] at h
  have whole := dropDash_append inside
  cases front : (dropDash inside).1 with
  | nil =>
    rw [front] at whole
    rw [← whole]
    exact @TailForm.mk _ [] [] [] rest (List.forall_mem_nil _) (fun _ => rfl) (Unended.nil _)
      (List.forall_mem_nil _)
  | cons c later =>
    have blank : Text.isBlank c = true := by
      refine Decidable.byContradiction fun dark => ?_
      have first : ¬ setOff (c :: later) = true := dark
      rw [front, if_neg first] at h
      cases h
    rw [front] at whole
    rw [← whole] at unended ⊢
    have after_later : Unended later ([] ++ dash (dropDash inside).2 ++ tagEnd ++ rest) := by
      rw [List.nil_append, List.append_assoc]
      exact Unended.of_append_right (@Unended.of_append_left [c] _ _ unended)
    have form := @TailForm.mk _ [c] later [] rest (List.forall_mem_singleton.2 blank)
      (absurd · (List.cons_ne_nil _ _)) after_later (List.forall_mem_nil _)
    rwa [List.append_nil] at form

theorem isSome_tagTail? {cs rest : List Char} (h : TailForm cs rest) :
    (tagTail? cs).isSome = true := by
  have blank {c : Char} {front : List Char} {rest : List Char} (hc : Text.isBlank c = true) :
      (tagTail? (c :: front ++ tagEnd ++ rest)).isSome = true := by
    rw [List.cons_append, List.cons_append, tagTail?_blank hc, Option.isSome_map]
    exact isSome_untilTagEnd (c :: front) rest
  obtain ⟨blankGap, apart, -, blankTrail⟩ := h
  rename_i after gap parameters trail
  cases gap with
  | cons c gap =>
    exact blank (blankGap c List.mem_cons_self)
  | nil =>
    rw [apart rfl]
    cases trail with
    | cons c trail => exact blank (blankTrail c List.mem_cons_self)
    | nil =>
      rw [show [] ++ [] ++ [] ++ dash after = dash after from rfl, tagTail?_end]
      rfl

end Tail

section Tag

variable {names : List (List Char)}

theorem behind?_append (name rest : List Char) : behind? name (name ++ rest) = some rest := by
  induction name with
  | nil => rfl
  | cons c name ih =>
    rw [List.cons_append, behind?, if_pos rfl]
    exact ih

theorem tagNamed?_append {name tail : List Char} (ends : ∀ c ∈ tail.head?, Text.isWord c = false) :
    tagNamed? (name ++ tail) name =
      (tagTail? tail).map fun (parameters, after, rest) => (name, parameters, after, rest) := by
  unfold tagNamed?
  rw [behind?_append]
  have stop : ¬ (tail.head?.map Text.isWord).getD false = true := by
    cases tail with
    | nil => exact Bool.false_ne_true
    | cons c tail =>
      change ¬ Text.isWord c = true
      rw [ends c rfl]
      exact Bool.false_ne_true
  exact if_neg stop

theorem append_of_tagNamed? {cs name : List Char} {r : TagReading}
    (h : tagNamed? cs name = some r) :
    ∃ tail, cs = name ++ tail ∧ (∀ c ∈ tail.head?, Text.isWord c = false) ∧
      tagTail? tail = some r.2 := by
  unfold tagNamed? at h
  split at h
  · cases h
  · rename_i tail behind
    split at h
    · cases h
    · rename_i stop
      obtain ⟨t, ht, rfl⟩ := Option.map_eq_some_iff.1 h
      refine ⟨tail, (append_of_behind? behind).symm, fun c hc => ?_, ht⟩
      rw [hc] at stop
      exact Bool.eq_false_iff.2 stop

theorem mem_blankDrops {cs d : List Char} :
    d ∈ blankDrops cs ↔ ∃ lead, cs = lead ++ d ∧ ∀ c ∈ lead, Text.isBlank c = true := by
  induction cs with
  | nil =>
    rw [blankDrops, List.mem_singleton]
    constructor
    · rintro rfl
      exact ⟨[], rfl, List.forall_mem_nil _⟩
    · rintro ⟨lead, split, -⟩
      exact (List.append_eq_nil_iff.1 split.symm).2
  | cons c cs ih =>
    have self : ∃ lead, c :: cs = lead ++ c :: cs ∧ ∀ c ∈ lead, Text.isBlank c = true :=
      ⟨[], rfl, List.forall_mem_nil _⟩
    unfold blankDrops
    split
    · rename_i blank
      rw [List.mem_append, ih, List.mem_singleton]
      constructor
      · rintro (⟨lead, rfl, blanks⟩ | rfl)
        · exact ⟨c :: lead, rfl, List.forall_mem_cons.2 ⟨blank, blanks⟩⟩
        · exact self
      · rintro ⟨_ | ⟨c', lead⟩, split, blanks⟩
        · exact .inr split.symm
        · exact .inl ⟨lead, (List.cons.inj split).2, (List.forall_mem_cons.1 blanks).2⟩
    · rename_i dark
      rw [List.mem_singleton]
      constructor
      · rintro rfl
        exact self
      · rintro ⟨_ | ⟨c', lead⟩, split, blanks⟩
        · exact split.symm
        · rw [(List.cons.inj split).1] at dark
          exact absurd (blanks c' List.mem_cons_self) dark

theorem tagForm_of_spacedTag? {cs : List Char} {r : TagReading} (before : Bool)
    (h : spacedTag? names cs = some r) : TagForm names (dash before ++ cs) r.2.2.2 := by
  obtain ⟨d, hd, hr⟩ := List.exists_of_findSome?_eq_some h
  obtain ⟨lead, rfl, blanks⟩ := mem_blankDrops.1 hd
  obtain ⟨name, known, read⟩ := (longest_anyTag? names d).read r hr
  obtain ⟨tail, rfl, ends, form⟩ := append_of_tagNamed? read
  rw [← List.append_assoc, ← List.append_assoc]
  exact .mk blanks known ends (tailForm_of_tagTail? form)

theorem isSome_spacedTag? {lead name tail rest : List Char}
    (blanks : ∀ c ∈ lead, Text.isBlank c = true) (known : name ∈ names)
    (ends : ∀ c ∈ tail.head?, Text.isWord c = false) (form : TailForm tail rest) :
    (spacedTag? names (lead ++ name ++ tail)).isSome = true := by
  have read : (tagNamed? (name ++ tail) name).isSome = true := by
    rw [tagNamed?_append ends, Option.isSome_map]
    exact isSome_tagTail? form
  obtain ⟨r, hr⟩ := Option.isSome_iff_exists.1 read
  obtain ⟨best, hbest, -⟩ := (longest_anyTag? names (name ++ tail)).longest name known r hr
  refine List.findSome?_isSome_iff.2 ⟨name ++ tail, ?_, Option.isSome_iff_exists.2 ⟨best, hbest⟩⟩
  exact mem_blankDrops.2 ⟨lead, List.append_assoc _ _ _, blanks⟩

theorem tagForm_of_tag? {cs rest : List Char} {l : Lexeme} (h : tag? names cs = some (l, rest)) :
    TagForm names cs rest := by
  have plain {ds : List Char} {l : Lexeme} {rest : List Char} {make : _ → Lexeme × List Char}
      (keeps : ∀ r, (make r).2 = r.2.2.2)
      (h : (spacedTag? names ds).map make = some (l, rest)) : TagForm names ds rest := by
    obtain ⟨r, hr, he⟩ := Option.map_eq_some_iff.1 h
    have same : r.2.2.2 = rest := (keeps r).symm.trans (congrArg Prod.snd he)
    exact same ▸ tagForm_of_spacedTag? false hr
  unfold tag? at h
  split at h
  · split at h
    · rename_i hr
      rw [← (Prod.mk.inj (Option.some.inj h)).2]
      exact tagForm_of_spacedTag? true hr
    · exact plain (fun _ => rfl) h
  · exact plain (fun _ => rfl) h

theorem isSome_tag? {cs rest : List Char} (h : TagForm names cs rest) :
    (tag? names cs).isSome = true := by
  obtain ⟨blanks, known, ends, form⟩ := h
  rename_i before lead name tail
  have spaced := isSome_spacedTag? blanks known ends form
  obtain ⟨r, hr⟩ := Option.isSome_iff_exists.1 spaced
  cases before with
  | true =>
    change (tag? names ('-' :: lead ++ name ++ tail)).isSome = true
    rw [List.cons_append, List.cons_append, tag?]
    simp only [hr]
    rfl
  | false =>
    change (tag? names (lead ++ name ++ tail)).isSome = true
    unfold tag?
    rw [hr]
    split
    · split <;> rfl
    · rfl

theorem isSome_tag?_iff {cs : List Char} :
    (tag? names cs).isSome = true ↔ ∃ rest, TagForm names cs rest := by
  constructor
  · intro h
    obtain ⟨r, hr⟩ := Option.isSome_iff_exists.1 h
    exact ⟨r.2, tagForm_of_tag? hr⟩
  · rintro ⟨rest, form⟩
    exact isSome_tag? form

theorem suffix_of_tagForm {cs rest : List Char} (h : TagForm names cs rest) : rest <:+ cs := by
  obtain ⟨-, -, -, form⟩ := h
  obtain ⟨-, -, -, -⟩ := form
  exact (List.suffix_append _ _).trans (List.suffix_append _ _)

end Tag

end Lexeme

section Name

theorem isBlank_of_isNameChar {c : Char} (h : isNameChar c = true) : Text.isBlank c = false := by
  rcases Bool.or_eq_true_iff.1 h with word | dot
  · exact Text.isBlank_of_isWord word
  · rw [eq_of_beq dot]
    decide

def Stops (c : Char) : Prop := isNameChar c = false ∧ c ≠ '['

theorem stops_of_isBlank {c : Char} (h : Text.isBlank c = true) : Stops c := by
  constructor
  · refine Bool.eq_false_iff.2 fun named => ?_
    rw [isBlank_of_isNameChar named] at h
    exact Bool.false_ne_true h
  · rintro rfl
    exact absurd h (by decide)

theorem spanName_index {inside cs name rest : List Char} (closed : ∀ c ∈ inside, c ≠ ']')
    (h : spanName false cs = some (name, rest)) :
    spanName true (inside ++ ']' :: cs) = some (inside ++ ']' :: name, rest) := by
  induction inside with
  | nil =>
    change spanName true (']' :: cs) = _
    rw [spanName, if_pos rfl, bne_self_eq_false, h]
    rfl
  | cons c inside ih =>
    obtain ⟨other, closed⟩ := List.forall_mem_cons.1 closed
    rw [List.cons_append, spanName, if_pos rfl, bne_iff_ne.2 other, ih closed]
    rfl

theorem spanName_complete {name rest : List Char} (h : NamePart name)
    (stop : ∀ c ∈ rest.head?, Stops c) : spanName false (name ++ rest) = some (name, rest) := by
  induction h with
  | nil =>
    cases rest with
    | nil => rfl
    | cons c rest =>
      obtain ⟨unnamed, other⟩ := stop c rfl
      simp [spanName, unnamed, other]
  | char named _ ih => simp [spanName, named, ih]
  | @index inside cs closed _ ih =>
    have bracket : isNameChar '[' = false := by decide
    rw [List.cons_append, List.cons_append, List.append_assoc, List.cons_append, spanName]
    simp [bracket, spanName_index closed ih]

theorem namePart_of_spanName {bracket : Bool} {cs name rest : List Char}
    (h : spanName bracket cs = some (name, rest)) :
    if bracket then
      ∃ inside more, name = inside ++ ']' :: more ∧ (∀ c ∈ inside, c ≠ ']') ∧ NamePart more
    else NamePart name := by
  induction cs generalizing bracket name rest with
  | nil =>
    cases bracket with
    | true => cases h
    | false =>
      obtain ⟨rfl, -⟩ := Prod.mk.inj (Option.some.inj h)
      exact .nil
  | cons c cs ih =>
    cases bracket with
    | true =>
      obtain ⟨⟨more, rest'⟩, hmore, he⟩ := Option.map_eq_some_iff.1 h
      obtain ⟨rfl, -⟩ := Prod.mk.inj he
      have others := ih hmore
      by_cases hc : c = ']'
      · rw [if_neg (by simp [hc])] at others
        exact ⟨[], more, by rw [hc]; rfl, List.forall_mem_nil _, others⟩
      · rw [if_pos (by simp [hc])] at others
        obtain ⟨inside, later, rfl, closed, part⟩ := others
        exact ⟨c :: inside, later, rfl, List.forall_mem_cons.2 ⟨hc, closed⟩, part⟩
    | false =>
      simp only [spanName, Bool.false_eq_true, if_false] at h
      split at h
      · rename_i named
        obtain ⟨⟨more, rest'⟩, hmore, he⟩ := Option.map_eq_some_iff.1 h
        obtain ⟨rfl, -⟩ := Prod.mk.inj he
        exact .char named (ih hmore)
      · split at h
        · rename_i bracket
          split at h
          · rename_i more rest' hmore
            obtain ⟨rfl, -⟩ := Prod.mk.inj (Option.some.inj h)
            obtain ⟨inside, later, rfl, closed, part⟩ := ih hmore
            rw [eq_of_beq bracket]
            exact .index closed part
          · obtain ⟨rfl, -⟩ := Prod.mk.inj (Option.some.inj h)
            exact .nil
        · obtain ⟨rfl, -⟩ := Prod.mk.inj (Option.some.inj h)
          exact .nil

theorem nameForm_of_name? {cs name rest : List Char} (h : name? cs = some (name, rest)) :
    NameForm name := by
  cases cs with
  | nil => cases h
  | cons c cs =>
    rw [name?] at h
    split at h
    · rename_i first
      rw [spanName] at h
      simp only [Bool.false_eq_true, if_false, first, if_true] at h
      obtain ⟨⟨more, rest'⟩, hmore, he⟩ := Option.map_eq_some_iff.1 h
      obtain ⟨rfl, -⟩ := Prod.mk.inj he
      exact .mk first (namePart_of_spanName hmore)
    · cases h

theorem nameForm_of_isName {name : List Char} (h : isName name = true) : NameForm name := by
  unfold isName at h
  split at h
  · rename_i read whole
    have same := append_of_name? whole
    rw [List.append_nil] at same
    exact same ▸ nameForm_of_name? whole
  · exact absurd h Bool.false_ne_true

theorem name?_complete {name rest : List Char} (h : NameForm name)
    (stop : ∀ c ∈ rest.head?, Stops c) : name? (name ++ rest) = some (name, rest) := by
  obtain ⟨first, part⟩ := h
  rw [List.cons_append, name?, if_pos first, ← List.cons_append]
  exact spanName_complete (.char first part) stop

theorem NamePart.last {name : List Char} (h : NamePart name) :
    ∀ c ∈ name.getLast?, Text.isBlank c = false := by
  induction h with
  | nil => exact nofun
  | @char c others named _ ih =>
    cases others with
    | nil =>
      rintro _ ⟨⟩
      exact isBlank_of_isNameChar named
    | cons d others => rwa [List.getLast?_cons_cons]
  | @index inside others _ _ ih =>
    cases others with
    | nil =>
      intro c hc
      rw [List.getLast?_concat] at hc
      rw [← Option.some.inj hc]
      decide
    | cons d others =>
      rwa [List.getLast?_append_of_ne_nil _ (List.cons_ne_nil _ _), List.getLast?_cons_cons]

namespace NameForm

variable {name : List Char}

theorem ne_nil (h : NameForm name) : name ≠ [] := by
  cases h
  exact List.cons_ne_nil _ _

theorem first (h : NameForm name) : ∀ c ∈ name.head?, isNameChar c = true := by
  obtain ⟨first, -⟩ := h
  rintro _ ⟨⟩
  exact first

theorem last (h : NameForm name) : ∀ c ∈ name.getLast?, Text.isBlank c = false := by
  obtain ⟨first, part⟩ := h
  exact (NamePart.char first part).last

end NameForm

end Name

namespace Lexeme

section Variable

theorem variableEnd?_append (after : Bool) (rest : List Char) :
    variableEnd? (dash after ++ variableEnd ++ rest) = some (after, rest) := by
  cases after <;> rfl

theorem append_of_variableEnd? {cs rest : List Char} {after : Bool}
    (h : variableEnd? cs = some (after, rest)) : cs = dash after ++ variableEnd ++ rest := by
  unfold variableEnd? at h
  split at h
  · obtain ⟨rfl, rfl⟩ := Prod.mk.inj (Option.some.inj h)
    rfl
  · obtain ⟨rfl, rfl⟩ := Prod.mk.inj (Option.some.inj h)
    rfl
  · cases h

theorem stops_end (after : Bool) (rest : List Char) :
    ∀ c ∈ (dash after ++ variableEnd ++ rest).head?, Stops c ∧ Text.isBlank c = false := by
  cases after <;>
  · intro c hc
    obtain rfl := Option.some.inj hc
    exact ⟨⟨by decide, by decide⟩, by decide⟩

theorem variableFrom?_written (before after : Bool) {lead name trail : List Char}
    (rest : List Char) (blankLead : ∀ c ∈ lead, Text.isBlank c = true) (named : NameForm name)
    (blankTrail : ∀ c ∈ trail, Text.isBlank c = true) :
    variableFrom? before (lead ++ (name ++ (trail ++ (dash after ++ variableEnd ++ rest)))) =
      some (interpolation before after name, rest) := by
  have read : name? (name ++ (trail ++ (dash after ++ variableEnd ++ rest))) =
      some (name, trail ++ (dash after ++ variableEnd ++ rest)) := by
    refine name?_complete named fun d hd => ?_
    cases trail with
    | nil => exact (stops_end after rest d hd).1
    | cons e trail =>
      obtain rfl := Option.some.inj hd
      exact stops_of_isBlank (blankTrail e List.mem_cons_self)
  have led : Text.trimStart (lead ++ (name ++ (trail ++ (dash after ++ variableEnd ++ rest)))) =
      name ++ (trail ++ (dash after ++ variableEnd ++ rest)) := by
    refine Text.trimStart_append blankLead ?_
    rw [List.head?_append_of_ne_nil _ named.ne_nil]
    exact fun d hd => isBlank_of_isNameChar (named.first d hd)
  have trailed : Text.trimStart (trail ++ (dash after ++ variableEnd ++ rest)) =
      dash after ++ variableEnd ++ rest :=
    Text.trimStart_append blankTrail fun d hd => (stops_end after rest d hd).2
  unfold variableFrom?
  rw [led, read]
  simp only [trailed, variableEnd?_append]
  rfl

theorem exists_of_variableFrom? {before : Bool} {cs rest : List Char} {l : Lexeme}
    (h : variableFrom? before cs = some (l, rest)) :
    ∃ after lead name trail, l = interpolation before after name ∧
      cs = lead ++ (name ++ (trail ++ (dash after ++ variableEnd ++ rest))) ∧
      (∀ c ∈ lead, Text.isBlank c = true) ∧ NameForm name ∧
      ∀ c ∈ trail, Text.isBlank c = true := by
  unfold variableFrom? at h
  split at h
  · cases h
  · rename_i name more hname
    obtain ⟨⟨after, r⟩, hr, he⟩ := Option.map_eq_some_iff.1 h
    obtain ⟨rfl, rfl⟩ := Prod.mk.inj he
    obtain ⟨lead, split, blankLead⟩ := Text.exists_trimStart cs
    obtain ⟨trail, split', blankTrail⟩ := Text.exists_trimStart more
    rw [append_of_variableEnd? hr] at split'
    rw [← append_of_name? hname, split'] at split
    exact ⟨after, lead, name, trail, rfl, split, blankLead, nameForm_of_name? hname, blankTrail⟩

theorem interpolation?_plain {cs : List Char} (h : cs.head? ≠ some '-') :
    interpolation? cs = variableFrom? false cs := by
  unfold interpolation?
  split
  · exact absurd rfl h
  · rfl

theorem interpolation?_written (before after : Bool) {lead name trail : List Char}
    (rest : List Char) (blankLead : ∀ c ∈ lead, Text.isBlank c = true) (named : NameForm name)
    (blankTrail : ∀ c ∈ trail, Text.isBlank c = true) :
    interpolation? (dash before ++
        (lead ++ (name ++ (trail ++ (dash after ++ variableEnd ++ rest))))) =
      some (interpolation before after name, rest) := by
  have read (before : Bool) := variableFrom?_written before after rest blankLead named blankTrail
  cases before with
  | true => exact read true
  | false =>
    rw [show dash false = [] from rfl, List.nil_append, interpolation?_plain, read]
    cases lead with
    | nil =>
      rw [List.nil_append, List.head?_append_of_ne_nil _ named.ne_nil]
      exact fun hd => absurd (named.first '-' hd) (by decide)
    | cons d lead =>
      intro hd
      obtain rfl := Option.some.inj hd
      exact absurd (blankLead '-' List.mem_cons_self) (by decide)

theorem exists_of_interpolation? {cs rest : List Char} {l : Lexeme}
    (h : interpolation? cs = some (l, rest)) :
    ∃ before after lead name trail, l = interpolation before after name ∧
      cs = dash before ++ (lead ++ (name ++ (trail ++ (dash after ++ variableEnd ++ rest)))) ∧
      (∀ c ∈ lead, Text.isBlank c = true) ∧ NameForm name ∧
      ∀ c ∈ trail, Text.isBlank c = true := by
  unfold interpolation? at h
  split at h
  · obtain ⟨after, lead, name, trail, same, rfl, parts⟩ := exists_of_variableFrom? h
    exact ⟨true, after, lead, name, trail, same, rfl, parts⟩
  · obtain ⟨after, lead, name, trail, same, rfl, parts⟩ := exists_of_variableFrom? h
    exact ⟨false, after, lead, name, trail, same, rfl, parts⟩

theorem variableForm_of_interpolation? {cs rest : List Char} {l : Lexeme}
    (h : interpolation? cs = some (l, rest)) : VariableForm cs rest := by
  obtain ⟨before, after, lead, name, trail, -, rfl, blankLead, ⟨first, part⟩, blankTrail⟩ :=
    exists_of_interpolation? h
  have form := @VariableForm.mk before after lead _ trail rest _ blankLead first part blankTrail
  simpa only [List.append_assoc] using form

theorem isSome_interpolation?_iff {cs : List Char} :
    (interpolation? cs).isSome = true ↔ ∃ rest, VariableForm cs rest := by
  constructor
  · intro h
    obtain ⟨r, hr⟩ := Option.isSome_iff_exists.1 h
    exact ⟨r.2, variableForm_of_interpolation? hr⟩
  · rintro ⟨rest, blankLead, first, others, blankTrail⟩
    rename_i before after lead name trail c
    have read := interpolation?_written before after rest blankLead (.mk first others) blankTrail
    simp only [List.append_assoc] at read ⊢
    rw [read]
    rfl

theorem suffix_of_variableForm {cs rest : List Char} (h : VariableForm cs rest) : rest <:+ cs := by
  obtain ⟨-, -, -, -⟩ := h
  exact List.suffix_append _ _

end Variable

end Lexeme

end Stencil.Template
