import Stencil.Proofs.NestedVariables
import Stencil.Proofs.TagGrammar

set_option autoImplicit false

/-!
# Where variables end

The indices of a name may hold anything but a closing bracket, closing braces as well. So a variable
goes on behind the first closing braces exactly if an index is open there. It then takes in what
follows, up to the bracket that closes the index, tags included.
-/

namespace Stencil.Template

/-- Every opening bracket has a closing one somewhere behind it. -/
def ClosesIndices (cs : List Char) : Prop :=
  ∀ back, '[' :: back <:+ cs → ']' ∈ back

/-- What neither opens an index nor belongs to closing braces. -/
def Bare (cs : List Char) : Prop :=
  ∀ c ∈ cs, c ≠ '[' ∧ c ≠ '}'

section Bare

theorem bare_of_isBlank {cs : List Char} (blank : ∀ c ∈ cs, Text.isBlank c = true) : Bare cs := by
  intro c hc
  refine ⟨?_, ?_⟩ <;>
  · rintro rfl
    exact absurd (blank _ hc) (by decide)

theorem bare_dash (there : Bool) : Bare (dash there) := by
  cases there with
  | false => exact List.forall_mem_nil _
  | true => exact List.forall_mem_singleton.2 ⟨by decide, by decide⟩

theorem Bare.append {cs ds : List Char} (h : Bare cs) (h' : Bare ds) : Bare (cs ++ ds) :=
  List.forall_mem_append.2 ⟨h, h'⟩

theorem Bare.brace_behind {front cs inside back : List Char} (bare : Bare front)
    (split : front ++ cs = inside ++ '}' :: back) :
    ∃ more, inside = front ++ more ∧ cs = more ++ '}' :: back := by
  rcases List.append_eq_append_iff.1 split with behind | ⟨rest, rfl, short⟩
  · exact behind
  · cases rest with
    | nil => exact ⟨[], by rw [List.append_nil, List.append_nil], short.symm⟩
    | cons c rest =>
      obtain ⟨rfl, -⟩ := List.cons.inj short
      exact absurd rfl (bare '}' (by simp)).2

theorem Bare.brace_before {trail cs inside back : List Char} (bare : Bare trail)
    (split : cs ++ trail = inside ++ '}' :: back) :
    ∃ more, back = more ++ trail ∧ cs = inside ++ '}' :: more := by
  rcases List.append_eq_append_iff.1 split with ⟨rest, rfl, inTrail⟩ | ⟨rest, rfl, whole⟩
  · rw [inTrail] at bare
    exact absurd rfl (bare '}' (by simp)).2
  · cases rest with
    | nil =>
      rw [List.nil_append] at whole
      rw [← whole] at bare
      exact absurd rfl (bare '}' (by simp)).2
    | cons c more =>
      obtain ⟨rfl, rfl⟩ := List.cons.inj whole
      exact ⟨more, rfl, rfl⟩

end Bare

namespace ClosesIndices

variable {cs ds : List Char}

theorem cons_iff {c : Char} :
    ClosesIndices (c :: cs) ↔ (c = '[' → ']' ∈ cs) ∧ ClosesIndices cs := by
  constructor
  · intro h
    refine ⟨?_, fun back opened => h back (List.suffix_cons_iff.2 (.inr opened))⟩
    rintro rfl
    exact h cs List.suffix_rfl
  · rintro ⟨here, later⟩ back opened
    rcases List.suffix_cons_iff.1 opened with same | opened
    · obtain ⟨rfl, rfl⟩ := List.cons.inj same
      exact here rfl
    · exact later back opened

theorem of_bare (bare : Bare cs) : ClosesIndices cs := by
  intro back opened
  exact absurd rfl (bare '[' (opened.subset List.mem_cons_self)).1

theorem append (h : ClosesIndices cs) (h' : ClosesIndices ds) : ClosesIndices (cs ++ ds) := by
  induction cs with
  | nil => exact h'
  | cons c cs ih =>
    obtain ⟨here, later⟩ := cons_iff.1 h
    exact cons_iff.2 ⟨fun same => List.mem_append_left _ (here same), ih later⟩

theorem concat (cs : List Char) : ClosesIndices (cs ++ [']']) := by
  induction cs with
  | nil => exact .of_bare (List.forall_mem_singleton.2 ⟨by decide, by decide⟩)
  | cons c cs ih => exact cons_iff.2 ⟨fun _ => List.mem_append_right _ List.mem_cons_self, ih⟩

theorem of_suffix (h : ClosesIndices cs) (suffix : ds <:+ cs) : ClosesIndices ds :=
  fun back opened => h back (opened.trans suffix)

end ClosesIndices

namespace NamePart

variable {name : List Char}

theorem closesIndices (h : NamePart name) : ClosesIndices name := by
  induction h with
  | nil => exact .of_bare (List.forall_mem_nil _)
  | @char c cs named _ ih =>
    refine ClosesIndices.cons_iff.2 ⟨?_, ih⟩
    rintro rfl
    exact absurd named (by decide)
  | @index inside cs closed _ ih =>
    have whole := (ClosesIndices.concat ('[' :: inside)).append ih
    rwa [List.append_assoc] at whole

theorem open_at_brace (h : NamePart name) {front back : List Char}
    (split : name = front ++ '}' :: back) : ¬ ClosesIndices front := by
  induction h generalizing front with
  | nil => exact absurd split.symm (by simp)
  | @char c cs named _ ih =>
    cases front with
    | nil =>
      obtain ⟨rfl, -⟩ := List.cons.inj split
      exact absurd named (by decide)
    | cons d front =>
      intro closes
      exact ih (List.cons.inj split).2 (ClosesIndices.cons_iff.1 closes).2
  | @index inside cs closed _ ih =>
    intro closes
    rcases List.append_eq_append_iff.1 split with ⟨more, rfl, later⟩ | ⟨more, early, -⟩
    · cases more with
      | nil => exact absurd (List.cons.inj later).1 (by decide)
      | cons d more =>
        refine ih (List.cons.inj later).2 (closes.of_suffix ?_)
        exact (List.suffix_cons _ _).trans (List.suffix_append _ _)
    · cases front with
      | nil => exact absurd split (by simp)
      | cons d front =>
        obtain ⟨rfl, rfl⟩ := List.cons.inj early
        have shut := closes front List.suffix_rfl
        exact closed ']' (List.mem_append_left _ shut) rfl

theorem ne_concat_brace {front : List Char} (h : NamePart name) :
    name ≠ front ++ ['}'] := by
  rintro rfl
  refine h.open_at_brace rfl fun back opened => ?_
  obtain ⟨rest, rfl⟩ := opened
  have shut := h.closesIndices (back ++ ['}']) ⟨rest, by simp⟩
  rcases List.mem_append.1 shut with shut | brace
  · exact shut
  · exact absurd (List.mem_singleton.1 brace) (by decide)

end NamePart

theorem NameForm.part {name : List Char} (h : NameForm name) : NamePart name := by
  obtain ⟨first, part⟩ := h
  exact .char first part

section Ends

variable {before after : Bool} {name rest cs : List Char}

theorem BeginsWith.exists_around (h : BeginsWith before after name rest cs) :
    NamePart name ∧ ∃ lead trail, Bare lead ∧ Bare trail ∧
      cs = Lexeme.braces ++ ((lead ++ (name ++ trail)) ++ (variableEnd ++ rest)) := by
  obtain ⟨blankLead, named, blankTrail⟩ := h
  rename_i lead trail
  refine ⟨named.part, dash before ++ lead, trail ++ dash after,
    (bare_dash before).append (bare_of_isBlank blankLead),
    (bare_of_isBlank blankTrail).append (bare_dash after), ?_⟩
  simp only [List.append_assoc]

/-- The first closing braces at or behind an offset. -/
def FirstVariableEnd (text : List Char) (start stop : Nat) : Prop :=
  IsLeast {j | start ≤ j ∧ variableEnd <+: text.drop j} stop

section Around

variable {text lead trail : List Char} {start stop : Nat}
  (split : text.drop start = (lead ++ (name ++ trail)) ++ (variableEnd ++ rest))
include split

theorem own_end : start + (lead ++ (name ++ trail)).length ∈
    {j | start ≤ j ∧ variableEnd <+: text.drop j} := by
  refine ⟨Nat.le_add_right _ _, ?_⟩
  rw [← List.drop_drop, split, List.drop_left]
  exact List.prefix_append _ _

theorem exists_firstVariableEnd : ∃ stop, FirstVariableEnd text start stop :=
  ⟨_, Nat.sInf_mem ⟨_, own_end split⟩, fun _ => Nat.sInf_le⟩

theorem between_of_le {k : Nat} (le : k ≤ (lead ++ (name ++ trail)).length) :
    between text start (start + k) = (lead ++ (name ++ trail)).take k := by
  rw [between, List.drop_take, Nat.add_sub_cancel_left, split, List.take_append_of_le_length le]

theorem no_braces_in_name
    (first : FirstVariableEnd text start (start + (lead ++ (name ++ trail)).length)) :
    ¬ variableEnd <:+: name := by
  rintro ⟨front, back, rfl⟩
  have inName : variableEnd <+: text.drop (start + (lead ++ front).length) := by
    rw [← List.drop_drop, split]
    simp only [List.append_assoc]
    rw [← List.append_assoc lead, List.drop_left]
    exact List.prefix_append _ _
  have least := first.2 ⟨Nat.le_add_right _ _, inName⟩
  simp only [List.length_append] at least
  change start + (lead.length + (front.length + 2 + back.length + trail.length)) ≤ _ at least
  omega

variable (part : NamePart name) (bareLead : Bare lead) (bareTrail : Bare trail)
include part bareLead bareTrail

theorem open_at_early_end {k : Nat} (early : k < (lead ++ (name ++ trail)).length)
    (ends : variableEnd <+: text.drop (start + k)) :
    variableEnd <:+: name ∧ ¬ ClosesIndices (between text start (start + k)) := by
  obtain ⟨more, here⟩ := ends
  rw [← List.drop_drop, split, List.drop_append_of_le_length (Nat.le_of_lt early)] at here
  have cut : lead ++ (name ++ trail) = (lead ++ (name ++ trail)).take k ++
      (lead ++ (name ++ trail)).drop k := (List.take_append_drop _ _).symm
  cases left : (lead ++ (name ++ trail)).drop k with
  | nil => exact absurd (List.drop_eq_nil_iff.1 left) (Nat.not_le_of_lt early)
  | cons c back =>
    rw [left] at here cut
    obtain ⟨rfl, following⟩ := List.cons.inj here
    obtain ⟨front, taken, cut⟩ := bareLead.brace_behind cut
    obtain ⟨back, rfl, named⟩ := bareTrail.brace_before cut
    have opened : ¬ ClosesIndices front := part.open_at_brace named
    constructor
    · cases back with
      | nil => exact absurd named part.ne_concat_brace
      | cons d back =>
        obtain ⟨rfl, -⟩ := List.cons.inj following
        exact ⟨front, back, by rw [named, List.append_assoc]; rfl⟩
    · rw [between_of_le split (Nat.le_of_lt early), taken]
      exact fun closes => opened (closes.of_suffix (List.suffix_append _ _))

theorem ends_first_iff {stop : Nat} (first : FirstVariableEnd text start stop) :
    (stop = start + (lead ++ (name ++ trail)).length ↔
        ClosesIndices (between text start stop)) ∧
      (stop = start + (lead ++ (name ++ trail)).length ↔ ¬ variableEnd <:+: name) := by
  have le : stop ≤ start + (lead ++ (name ++ trail)).length := first.2 (own_end split)
  rcases Nat.lt_or_eq_of_le le with early | same
  · obtain ⟨k, rfl⟩ := Nat.exists_eq_add_of_le first.1.1
    obtain ⟨inName, opened⟩ := open_at_early_end split part bareLead bareTrail
      (Nat.lt_of_add_lt_add_left early) first.1.2
    exact ⟨iff_of_false early.ne opened, iff_of_false early.ne (not_not.2 inName)⟩
  · rw [same] at first ⊢
    refine ⟨iff_of_true rfl ?_, iff_of_true rfl (no_braces_in_name split first)⟩
    rw [between_of_le split (Nat.le_refl _), List.take_length]
    exact (ClosesIndices.of_bare bareLead).append
      (part.closesIndices.append (.of_bare bareTrail))

end Around

end Ends

namespace Lexeme

theorem beginsWith_of_scan {names : List (List Char)} {c : Char} {cs name : List Char}
    {before after : Bool} (h : (scan names c cs).1 = interpolation before after name) :
    BeginsWith before after name (scan names c cs).2 (c :: cs) := by
  unfold scan at h ⊢
  split at h
  · rename_i inner
    cases read : tag? names inner with
    | none =>
      rw [read] at h
      cases h
    | some r =>
      obtain ⟨_, _, _, _, _, tagged, -⟩ := exists_of_tag? read
      rw [read, Option.getD_some, tagged] at h
      cases h
  · rename_i inner
    cases read : interpolation? inner with
    | none =>
      rw [read] at h
      cases h
    | some r =>
      rw [read] at h
      obtain ⟨l, rest⟩ := r
      obtain rfl : l = interpolation before after name := h
      exact beginsWith_iff.2 ⟨inner, rfl, read⟩
  · cases h

end Lexeme

/-- The token stands for a variable of the given name, with the braces around it. -/
structure Token.Interpolates (text name : List Char) (t : Token) (next : Option Token) : Prop where
  parameters : t.parameters = some (String.ofList name)
  spelled : BeginsWith t.trimBefore t.trimAfter name (text.drop (sliceEnd text next))
    (text.drop t.position)

section Tokens

variable {names : List (List Char)} {text : List Char} {previous next : Option Token} {t : Token}
  {c : Char} {cs : List Char}

theorem ReadAt.interpolates (h : ReadAt names text previous t next c cs)
    (kind : t.kind = "variable") (other : ∀ name ∈ names, canonicalName (String.ofList name) ≠
      "variable") :
    ∃ name, t.Interpolates text name next := by
  have token := h.token
  cases read : (Lexeme.scan names c cs).1 with
  | text value =>
    rw [read] at token
    have same : "variable" = "text" := kind.symm.trans (congrArg Token.kind token)
    exact absurd same (by decide)
  | tag before after name parameters =>
    rw [read] at token
    have named : (Lexeme.scan names c cs).1.tagName? = some name := by
      rw [read]
      rfl
    have known : name ∈ names := Lexeme.mem_names_of_scan named
    exact absurd ((congrArg Token.kind token).symm.trans kind) (other name known)
  | interpolation before after name =>
    have begins := Lexeme.beginsWith_of_scan read
    rw [← h.rest, ← h.here] at begins
    rw [read] at token
    obtain rfl : t.trimBefore = before := congrArg Token.trimBefore token
    obtain rfl : t.trimAfter = after := congrArg Token.trimAfter token
    exact ⟨name, congrArg Token.parameters token, begins⟩

theorem Token.Interpolates.ends_iff {name : List Char} (h : t.Interpolates text name next)
    (within : sliceEnd text next ≤ text.length) :
    ∃ stop, FirstVariableEnd text (t.position + 2) stop ∧
      (sliceEnd text next = stop + 2 ↔
        ClosesIndices (between text (t.position + 2) stop)) ∧
      (sliceEnd text next = stop + 2 ↔ ¬ variableEnd <:+: name) := by
  obtain ⟨part, lead, trail, bareLead, bareTrail, whole⟩ := h.spelled.exists_around
  have split : text.drop (t.position + 2) =
      (lead ++ (name ++ trail)) ++ (variableEnd ++ text.drop (sliceEnd text next)) := by
    rw [← List.drop_drop, whole]
    rfl
  have ends : sliceEnd text next = t.position + 2 + (lead ++ (name ++ trail)).length + 2 := by
    have lengths := congrArg List.length split
    rw [List.length_drop, List.length_append] at lengths
    change _ = _ + ((text.drop (sliceEnd text next)).length + 2) at lengths
    rw [List.length_drop] at lengths
    omega
  obtain ⟨stop, first⟩ := exists_firstVariableEnd split
  have iffs := ends_first_iff split part bareLead bareTrail first
  have same : sliceEnd text next = stop + 2 ↔
      stop = t.position + 2 + (lead ++ (name ++ trail)).length := by
    rw [ends, Nat.add_right_cancel_iff, eq_comm]
  exact ⟨stop, first, same.trans iffs.1, same.trans iffs.2⟩

end Tokens

theorem not_variable_builtin {entry : String × Dialect}
    (builtin : entry ∈ Registry.builtin.entries) :
    ∀ name ∈ tagNames entry.2.tags, canonicalName (String.ofList name) ≠ "variable" := by
  have others : ∀ e ∈ Registry.builtin.entries, ∀ tag ∈ e.2.tags,
      canonicalName tag.name ≠ "variable" := by decide
  intro name known
  obtain ⟨tag, mem, rfl⟩ := List.mem_map.1 known
  rw [String.ofList_toList]
  exact others entry builtin tag mem

/-- A variable stands for the text from its opening braces to the first closing ones exactly if
every index that is opened between them is closed there, and exactly if its name holds no closing
braces. -/
theorem variable_ends_at_braces_iff (entry : String × Dialect)
    (builtin : entry ∈ Registry.builtin.entries) (text : String) :
    ∃ tokens, Token.ofText entry.2.tags text = .ok tokens ∧
      ∀ before t after, tokens = before ++ t :: after → t.kind = "variable" →
        ∃ name stop, t.Interpolates text.toList name after.head? ∧
          FirstVariableEnd text.toList (t.position + 2) stop ∧
          (sliceEnd text.toList after.head? = stop + 2 ↔
            ClosesIndices (between text.toList (t.position + 2) stop)) ∧
          (sliceEnd text.toList after.head? = stop + 2 ↔ ¬ variableEnd <:+: name) := by
  obtain ⟨-, noText⟩ := words_builtin builtin
  obtain ⟨tokens, read, cut⟩ := exists_cut noText text
  refine ⟨tokens, read, ?_⟩
  rintro before t after rfl kind
  obtain ⟨c, cs, here⟩ := cut.readAt
  obtain ⟨name, shown⟩ := here.interpolates kind (not_variable_builtin builtin)
  obtain ⟨stop, first, ends⟩ := shown.ends_iff here.inside
  exact ⟨name, stop, shown, first, ends⟩

def twoIndices : String := "\x7b\x7b a[0] \x7d\x7d\x7b\x7b b[ \x7d\x7d] \x7d\x7d"

theorem two_indices_end :
    ("php", Dialect.php) ∈ Registry.builtin.entries ∧
      ∃ t u, Token.ofText Dialect.php.tags twoIndices = .ok [t, u] ∧
        t.kind = "variable" ∧ u.kind = "variable" ∧
        (∃ stop, FirstVariableEnd twoIndices.toList 2 stop ∧ u.position = stop + 2) ∧
        ∃ stop, FirstVariableEnd twoIndices.toList 12 stop ∧
          twoIndices.toList.length ≠ stop + 2 := by
  have builtin : ("php", Dialect.php) ∈ Registry.builtin.entries :=
    List.mem_cons_of_mem _ List.mem_cons_self
  let t : Token := ⟨"variable", 0, false, false, some "a[0]", none, 0⟩
  let u : Token := ⟨"variable", 0, false, false, some "b[ \x7d\x7d]", none, 10⟩
  have two : Token.ofText Dialect.php.tags twoIndices = .ok [t, u] := by decide +kernel
  obtain ⟨tokens, read, ends⟩ := variable_ends_at_braces_iff _ builtin twoIndices
  obtain rfl := Except.ok.inj (read.symm.trans two)
  obtain ⟨closed, stop, ⟨named, -⟩, first, -, closes⟩ := ends [] t [u] rfl rfl
  obtain ⟨opened, stop', ⟨named', -⟩, first', -, opens⟩ := ends [t] u [] rfl rfl
  obtain rfl : "a[0]".toList = closed :=
    (congrArg String.toList (Option.some.inj named)).trans String.toList_ofList
  obtain rfl : "b[ \x7d\x7d]".toList = opened :=
    (congrArg String.toList (Option.some.inj named')).trans String.toList_ofList
  exact ⟨builtin, t, u, two, rfl, rfl, ⟨stop, first, closes.2 (by decide)⟩,
    ⟨stop', first', fun same => opens.1 same (by decide)⟩⟩

def openIndex : String := "\x7b\x7b a[ \x7d\x7d\x7b% if b %\x7d]\x7d\x7d"

theorem open_index_takes_in_tag :
    Token.ofText Dialect.php.tags openIndex =
        .ok [⟨"variable", 0, false, false, some "a[ \x7d\x7d\x7b% if b %\x7d]", none, 0⟩] ∧
      FirstVariableEnd openIndex.toList 2 6 ∧ sliceEnd openIndex.toList none ≠ 6 + 2 ∧
      variableEnd <:+: "a[ \x7d\x7d\x7b% if b %\x7d]".toList := by
  have early : ∀ j < 6, 2 ≤ j → ¬ variableEnd <+: openIndex.toList.drop j := by decide
  have first : FirstVariableEnd openIndex.toList 2 6 := by
    refine ⟨⟨by decide, by decide⟩, ?_⟩
    rintro j ⟨le, ends⟩
    exact Nat.le_of_not_lt fun lt => early j lt le ends
  exact ⟨by decide +kernel, first, by decide, by decide⟩

end Stencil.Template
