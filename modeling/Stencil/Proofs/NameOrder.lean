import Stencil.Proofs.Reindentation
import Stencil.Proofs.WellMade

set_option autoImplicit false

/-!
# The order of the names

A tag can be tried in many ways: with a dash or without, behind more blanks or fewer, under each
name of the vocabulary, with longer parameters or shorter ones. `tagWays` lists the ways that come
to an end, in the order of the attempts, and the tag that is read is the first of them. The names
are tried longest first; in which order equally long ones are tried cannot be seen, since no two of
them begin one text. So the tokens depend on the set of the names alone.
-/

namespace Stencil.Text

theorem trim_trim (cs : List Char) : trim (trim cs) = trim cs := by
  have start : trimStart (trimEnd (trimStart cs)) = trimEnd (trimStart cs) := by
    cases first : trimStart cs with
    | nil => rfl
    | cons c rest =>
      have dark : isBlank c = false := by
        have := List.head?_dropWhile_not isBlank cs
        rw [show cs.dropWhile isBlank = c :: rest from first] at this
        exact this
      have some_dark : (c :: rest).all isBlank = false := by
        rw [List.all_cons, dark, Bool.false_and]
      rw [trimEnd_cons some_dark, trimStart, List.dropWhile_cons_of_neg (Bool.eq_false_iff.1 dark)]
  rw [trim, trim, start, trimEnd, trimEnd, List.reverse_reverse, List.dropWhile_idempotent]

end Stencil.Text

namespace Stencil.Template.Lexeme

section Ways

def dashWays : List Char → List (Bool × List Char)
  | '-' :: cs => [(true, cs), (false, '-' :: cs)]
  | cs => [(false, cs)]

def closings (cs : List Char) : List (Bool × List Char) :=
  (dashWays cs).filterMap fun d => (behind? tagEnd d.2).map fun rest => (d.1, rest)

/-- Takes blanks, as many as there are first, and then a dash or none and the end of a tag. -/
def endWays (cs : List Char) : List (Bool × List Char) :=
  (blankDrops cs).flatMap closings

def gapWays : List Char → List (List Char)
  | [] => []
  | c :: cs => if Text.isBlank c then blankDrops cs else []

/-- Takes parameters, as few characters as possible first; no end of a tag begins in them. -/
def parameterWays : List Char → List (List Char × List Char)
  | [] => [([], [])]
  | c :: cs =>
    ([], c :: cs) ::
      if (behind? tagEnd (c :: cs)).isSome then []
      else (parameterWays cs).map fun w => (c :: w.1, w.2)

def parameterTails (cs : List Char) : List (List Char × Bool × List Char) :=
  (parameterWays cs).flatMap fun w => (endWays w.2).map fun e => (w.1, e)

def tailWays (cs : List Char) : List (Option (List Char) × Bool × List Char) :=
  ((gapWays cs).flatMap parameterTails).map (fun t => (parametersOf t.1, t.2)) ++
    (endWays cs).map fun e => (none, e)

/-- Takes one name, which no word character may continue, and what may stand behind it. -/
def nameWays (cs name : List Char) : List TagReading :=
  match behind? name cs with
  | none => []
  | some rest =>
    if (rest.head?.map Text.isWord).getD false then []
    else (tailWays rest).map fun t => (name, t)

/-- Takes a tag behind its `{%`, with the names in the order in which they are given. -/
def tagWays (order : List (List Char)) (cs : List Char) : List (Lexeme × List Char) :=
  (dashWays cs).flatMap fun d => (blankDrops d.2).flatMap fun inner =>
    (order.flatMap (nameWays inner)).map fun (name, parameters, after, rest) =>
      (tag d.1 after name parameters, rest)

end Ways

section Tail

theorem dropDash_cons {c : Char} {cs : List Char} (h : cs = [] → c ≠ '-') :
    dropDash (c :: cs) = (c :: (dropDash cs).1, (dropDash cs).2) := by
  unfold dropDash
  cases cs with
  | nil =>
    rw [if_neg]
    · rfl
    · exact fun last => h rfl (Option.some.inj last)
  | cons d ds =>
    rw [List.getLast?_cons_cons]
    split <;> rfl

theorem ne_dash_of_isBlank {c : Char} (h : Text.isBlank c = true) : c ≠ '-' := by
  rintro rfl
  exact absurd h (by decide)

theorem dropDash_trimStart (cs : List Char) :
    dropDash (Text.trimStart cs) = (Text.trimStart (dropDash cs).1, (dropDash cs).2) := by
  induction cs with
  | nil => rfl
  | cons c cs ih =>
    cases blank : Text.isBlank c with
    | true =>
      have skipped (ds : List Char) : Text.trimStart (c :: ds) = Text.trimStart ds :=
        List.dropWhile_cons_of_pos blank
      rw [skipped, ih, dropDash_cons fun _ => ne_dash_of_isBlank blank, skipped]
    | false =>
      have kept (ds : List Char) : Text.trimStart (c :: ds) = c :: ds :=
        List.dropWhile_cons_of_neg (Bool.eq_false_iff.1 blank)
      rw [kept]
      by_cases dashed : cs = [] ∧ c = '-'
      · rw [dashed.1, dashed.2]
        rfl
      · rw [dropDash_cons (not_and.1 dashed), kept]

theorem dashWays_plain {c : Char} (h : c ≠ '-') (cs : List Char) :
    dashWays (c :: cs) = [(false, c :: cs)] := by
  rw [dashWays]
  exact fun _ same => h (List.cons.inj same).1

theorem behind?_eq_none {front cs : List Char} (h : ¬ front <+: cs) : behind? front cs = none := by
  cases read : behind? front cs with
  | none => rfl
  | some rest => exact absurd ⟨rest, append_of_behind? read⟩ h

theorem closings_plain {c : Char} {cs : List Char} (undashed : c ≠ '-')
    (unended : ¬ tagEnd <+: c :: cs) : closings (c :: cs) = [] := by
  simp only [closings, dashWays_plain undashed, List.filterMap_cons, behind?_eq_none unended,
    Option.map_none, List.filterMap_nil]

theorem closings_dash (cs : List Char) :
    closings ('-' :: cs) = ((behind? tagEnd cs).map fun rest => (true, rest)).toList := by
  have unended : behind? tagEnd ('-' :: cs) = none := behind?_eq_none fun ⟨_, same⟩ => by
    cases (List.cons.inj same).1
  simp only [closings, dashWays, List.filterMap_cons, unended, Option.map_none, List.filterMap_nil]
  cases behind? tagEnd cs <;> rfl

theorem endWays_blank {c : Char} (h : Text.isBlank c = true) (cs : List Char) :
    endWays (c :: cs) = endWays cs := by
  have unended : ¬ tagEnd <+: c :: cs := by
    rintro ⟨rest, same⟩
    obtain ⟨rfl, -⟩ := List.cons.inj same
    exact absurd h (by decide)
  rw [endWays, blankDrops, if_pos h, List.flatMap_append, List.flatMap_singleton,
    closings_plain (ne_dash_of_isBlank h) unended, List.append_nil, endWays]

theorem endWays_dark {c : Char} (h : Text.isBlank c = false) (cs : List Char) :
    endWays (c :: cs) = closings (c :: cs) := by
  rw [endWays, blankDrops, if_neg (Bool.eq_false_iff.1 h), List.flatMap_singleton]

theorem endWays_eq {inside rest : List Char} (h : Unended inside (tagEnd ++ rest)) :
    endWays (inside ++ (tagEnd ++ rest)) =
      if (dropDash inside).1.all Text.isBlank then [((dropDash inside).2, rest)] else [] := by
  induction inside with
  | nil => rfl
  | cons c inside ih =>
    have later : Unended inside (tagEnd ++ rest) := @Unended.of_append_left [c] _ _ h
    have first : ¬ tagEnd <+: c :: (inside ++ (tagEnd ++ rest)) := h 0 (Nat.succ_pos _)
    rw [List.cons_append]
    cases blank : Text.isBlank c with
    | true =>
      rw [endWays_blank blank, ih later, dropDash_cons fun _ => ne_dash_of_isBlank blank,
        List.all_cons, blank, Bool.true_and]
    | false =>
      rw [endWays_dark blank]
      by_cases dashed : c = '-'
      · rw [dashed, closings_dash]
        cases inside with
        | nil => rfl
        | cons d inside =>
          have second : ¬ tagEnd <+: d :: inside ++ (tagEnd ++ rest) := later 0 (Nat.succ_pos _)
          rw [behind?_eq_none second, dropDash_cons fun single => by cases single]
          rfl
      · rw [closings_plain dashed first, dropDash_cons fun _ => dashed, List.all_cons, blank]
        rfl

theorem parameterTails_cons {c : Char} {cs : List Char} (h : ¬ tagEnd <+: c :: cs) :
    parameterTails (c :: cs) =
      (endWays (c :: cs)).map (fun e => ([], e)) ++
        (parameterTails cs).map fun t => (c :: t.1, t.2) := by
  rw [parameterTails, parameterWays, behind?_eq_none h, if_neg (by decide), List.flatMap_cons,
    List.flatMap_map, parameterTails, List.map_flatMap]
  simp only [List.map_map]
  rfl

theorem head?_parameterTails {inside rest : List Char} (h : Unended inside (tagEnd ++ rest)) :
    (parameterTails (inside ++ (tagEnd ++ rest))).head? =
      some (Text.trimEnd (dropDash inside).1, (dropDash inside).2, rest) := by
  induction inside with
  | nil => rfl
  | cons c inside ih =>
    have later : Unended inside (tagEnd ++ rest) := @Unended.of_append_left [c] _ _ h
    have first : ¬ tagEnd <+: c :: (inside ++ (tagEnd ++ rest)) := h 0 (Nat.succ_pos _)
    have ends := endWays_eq h
    rw [List.cons_append] at ends ⊢
    rw [parameterTails_cons first, List.head?_append, List.head?_map, ends]
    cases blank : (dropDash (c :: inside)).1.all Text.isBlank with
    | true =>
      rw [Text.trimEnd_blank blank]
      rfl
    | false =>
      have undashed : inside = [] → c ≠ '-' := by
        rintro rfl rfl
        exact absurd blank (by decide)
      rw [dropDash_cons undashed] at blank ⊢
      rw [List.head?_map, ih later, Text.trimEnd_cons blank]
      rfl

theorem exists_blankDrops (cs : List Char) :
    ∃ fewer, blankDrops cs = Text.trimStart cs :: fewer := by
  induction cs with
  | nil => exact ⟨[], rfl⟩
  | cons c cs ih =>
    rw [blankDrops, Text.trimStart, List.dropWhile_cons]
    split
    · obtain ⟨fewer, drops⟩ := ih
      exact ⟨fewer ++ [c :: cs], by rw [drops]; rfl⟩
    · exact ⟨[], rfl⟩

theorem parametersOf_trimmed (cs : List Char) :
    parametersOf (Text.trimEnd (Text.trimStart cs)) = parametersOf cs := by
  rw [parametersOf, show Text.trimEnd (Text.trimStart cs) = Text.trim cs from rfl, Text.trim_trim]
  rfl

theorem exists_tagEnd_of_mem_endWays {cs : List Char} {e : Bool × List Char} (h : e ∈ endWays cs) :
    ∃ front, cs = front ++ tagEnd ++ e.2 := by
  obtain ⟨d, drop, closed⟩ := List.mem_flatMap.1 h
  obtain ⟨lead, rfl, -⟩ := mem_blankDrops.1 drop
  obtain ⟨way, dashed, closed⟩ := List.mem_filterMap.1 closed
  obtain ⟨rest, behind, rfl⟩ := Option.map_eq_some_iff.1 closed
  have split : d = dash way.1 ++ way.2 := by
    unfold dashWays at dashed
    split at dashed
    · rcases List.mem_cons.1 dashed with rfl | dashed
      · rfl
      · rw [List.mem_singleton.1 dashed]
        rfl
    · rw [List.mem_singleton.1 dashed]
      rfl
  refine ⟨lead ++ dash way.1, ?_⟩
  rw [split, ← append_of_behind? behind]
  simp only [List.append_assoc]

theorem append_of_mem_parameterWays {cs : List Char} {w : List Char × List Char}
    (h : w ∈ parameterWays cs) : w.1 ++ w.2 = cs := by
  induction cs generalizing w with
  | nil =>
    rw [List.mem_singleton.1 h]
    rfl
  | cons c cs ih =>
    rcases List.mem_cons.1 h with rfl | h
    · rfl
    · split at h
      · exact nomatch h
      · obtain ⟨shorter, mem, rfl⟩ := List.mem_map.1 h
        exact congrArg (c :: ·) (ih mem)

theorem exists_tagEnd_of_mem_tailWays {cs : List Char} {t : Option (List Char) × Bool × List Char}
    (h : t ∈ tailWays cs) : ∃ front, cs = front ++ tagEnd ++ t.2.2 := by
  rcases List.mem_append.1 h with h | h
  · obtain ⟨w, mem, rfl⟩ := List.mem_map.1 h
    obtain ⟨d, gap, mem⟩ := List.mem_flatMap.1 mem
    obtain ⟨p, taken, mem⟩ := List.mem_flatMap.1 mem
    obtain ⟨e, ends, rfl⟩ := List.mem_map.1 mem
    obtain ⟨front, split⟩ := exists_tagEnd_of_mem_endWays ends
    have whole : ∃ lead, cs = lead ++ d := by
      cases cs with
      | nil => exact absurd gap List.not_mem_nil
      | cons c cs =>
        rw [gapWays] at gap
        split at gap
        · obtain ⟨lead, rfl, -⟩ := mem_blankDrops.1 gap
          exact ⟨c :: lead, rfl⟩
        · exact absurd gap List.not_mem_nil
    obtain ⟨lead, rfl⟩ := whole
    refine ⟨lead ++ p.1 ++ front, ?_⟩
    rw [← append_of_mem_parameterWays taken, split]
    simp only [List.append_assoc]
  · obtain ⟨e, ends, rfl⟩ := List.mem_map.1 h
    exact exists_tagEnd_of_mem_endWays ends

theorem head?_tailWays (cs : List Char) : (tailWays cs).head? = tagTail? cs := by
  cases ends : untilTagEnd cs with
  | none =>
    have unread : tagTail? cs = none := by
      cases read : tagTail? cs with
      | none => rfl
      | some t =>
        obtain ⟨inside, found⟩ := untilTagEnd_of_tagTail? read
        exact nomatch ends.symm.trans found
    rw [unread, List.head?_eq_none_iff, List.eq_nil_iff_forall_not_mem]
    intro t mem
    obtain ⟨front, rfl⟩ := exists_tagEnd_of_mem_tailWays mem
    have found := isSome_untilTagEnd front t.2.2
    rw [ends] at found
    exact Bool.false_ne_true found
  | some r =>
    obtain ⟨inside, rest⟩ := r
    obtain ⟨rfl, unended⟩ := untilTagEnd_sound ends
    rw [List.append_assoc, tagTail?_eq unended]
    have closes := endWays_eq unended
    cases inside with
    | nil => rfl
    | cons c inside =>
      rw [List.cons_append] at closes ⊢
      cases blank : Text.isBlank c with
      | true =>
        have later : Unended (Text.trimStart inside) (tagEnd ++ rest) :=
          unended.of_suffix ((List.dropWhile_suffix _).trans (List.suffix_cons _ _))
        obtain ⟨fewer, drops⟩ := exists_blankDrops (inside ++ (tagEnd ++ rest))
        have skipped : Text.trimStart (inside ++ (tagEnd ++ rest)) =
            Text.trimStart inside ++ (tagEnd ++ rest) := dropWhile_stop (by decide) _ _
        have apart : setOff (c :: (dropDash inside).1) = true := blank
        have same : parametersOf (c :: (dropDash inside).1) = parametersOf (dropDash inside).1 := by
          rw [parametersOf, Text.trim, Text.trimStart, List.dropWhile_cons_of_pos blank]
          rfl
        rw [tailWays, gapWays, if_pos blank, drops, skipped, List.flatMap_cons, List.map_append,
          List.append_assoc, List.head?_append, List.head?_map, head?_parameterTails later,
          dropDash_trimStart, dropDash_cons fun _ => ne_dash_of_isBlank blank, if_pos apart, same,
          Option.map_some, parametersOf_trimmed]
        rfl
      | false =>
        rw [tailWays, gapWays, if_neg (Bool.eq_false_iff.1 blank), closes]
        by_cases dashed : inside = [] ∧ c = '-'
        · rw [dashed.1, dashed.2]
          rfl
        · have attached : setOff (c :: (dropDash inside).1) = false := blank
          rw [dropDash_cons (not_and.1 dashed), List.all_cons, blank, attached]
          rfl

end Tail

theorem head?_nameWays (cs name : List Char) : (nameWays cs name).head? = tagNamed? cs name := by
  unfold nameWays tagNamed?
  cases behind? name cs with
  | none => rfl
  | some rest =>
    dsimp only
    split
    · rfl
    · rw [List.head?_map, head?_tailWays]

/-- An order in which the names of a vocabulary may be tried: each of them once, and the longer ones
first. -/
structure TriedIn (names order : List (List Char)) : Prop where
  once : order.Nodup
  longestFirst : order.Pairwise fun a b => b.length ≤ a.length
  same : ∀ name, name ∈ order ↔ name ∈ names

section Order

variable {names names' order order' : List (List Char)}

theorem findSome?_tagNamed? (longestFirst : order.Pairwise fun a b => b.length ≤ a.length)
    (cs : List Char) : order.findSome? (tagNamed? cs) = anyTag? order cs := by
  have longest := longest_anyTag? order cs
  cases first : order.findSome? (tagNamed? cs) with
  | none =>
    cases read : anyTag? order cs with
    | none => rfl
    | some b =>
      obtain ⟨name, mem, readB⟩ := longest.read b read
      rw [List.findSome?_eq_none_iff.1 first name mem] at readB
      cases readB
  | some r =>
    obtain ⟨earlier, name, later, rfl, readR, unread⟩ := List.findSome?_eq_some_iff.1 first
    have known : name ∈ earlier ++ name :: later := List.mem_append_right _ List.mem_cons_self
    obtain ⟨b, read, short⟩ := longest.longest name known r readR
    obtain ⟨other, mem, readB⟩ := longest.read b read
    have long : b.1.length ≤ r.1.length := by
      rw [(name_of_tagNamed? readR).1, (name_of_tagNamed? readB).1]
      rcases List.mem_append.1 mem with mem | mem
      · rw [unread other mem] at readB
        cases readB
      · rcases List.mem_cons.1 mem with rfl | mem
        · exact Nat.le_refl _
        · exact (List.pairwise_cons.1 (List.pairwise_append.1 longestFirst).2.1).1 other mem
    rw [read, eq_of_tagNamed? readR readB (Nat.le_antisymm short long)]

theorem anyTag?_of_same (same : ∀ name, name ∈ names ↔ name ∈ names') (cs : List Char) :
    anyTag? names cs = anyTag? names' cs := by
  refine anyTag?_narrow (fun name => (same name).1) fun r read => ?_
  obtain ⟨name, known, readR⟩ := (longest_anyTag? names' cs).read r read
  rw [(name_of_tagNamed? readR).1]
  exact (same name).2 known

theorem head?_tagWays (tried : TriedIn names order) (cs : List Char) :
    (tagWays order cs).head? = tag? names cs := by
  have named (d : List Char) : (order.flatMap (nameWays d)).head? = anyTag? names d := by
    rw [List.head?_flatMap, funext (head?_nameWays d), findSome?_tagNamed? tried.longestFirst,
      anyTag?_of_same tried.same]
  have spaced (before : Bool) (inner : List Char) :
      ((blankDrops inner).flatMap fun d => (order.flatMap (nameWays d)).map
        fun (name, parameters, after, rest) => (tag before after name parameters, rest)).head? =
      (spacedTag? names inner).map fun (name, parameters, after, rest) =>
        (tag before after name parameters, rest) := by
    rw [List.head?_flatMap, spacedTag?, List.map_findSome?]
    congr 1
    funext d
    rw [List.head?_map, named]
    rfl
  rw [tagWays, List.head?_flatMap]
  unfold tag?
  split
  · rename_i inner
    rw [dashWays, List.findSome?_cons, List.findSome?_cons, spaced, spaced]
    cases spacedTag? names inner <;> cases spacedTag? names ('-' :: inner) <;> rfl
  · rename_i plain
    have undashed : dashWays cs = [(false, cs)] := by
      rw [dashWays]
      exact plain
    rw [undashed, List.findSome?_singleton, spaced]

theorem filter_isPrefixOf (tried : TriedIn names order) (tried' : TriedIn names order')
    (cs : List Char) :
    order.filter (fun name => name.isPrefixOf cs) =
      order'.filter fun name => name.isPrefixOf cs := by
  refine List.Perm.eq_of_pairwise (fun a b ha hb shorter longer => ?_)
    (tried.longestFirst.filter _) (tried'.longestFirst.filter _) ?_
  · have beginsA := List.isPrefixOf_iff_prefix.1 (List.mem_filter.1 ha).2
    have beginsB := List.isPrefixOf_iff_prefix.1 (List.mem_filter.1 hb).2
    exact (List.prefix_of_prefix_length_le beginsA beginsB longer).eq_of_length
      (Nat.le_antisymm longer shorter)
  · refine (List.perm_ext_iff_of_nodup (tried.once.filter _) (tried'.once.filter _)).2 ?_
    intro name
    rw [List.mem_filter, List.mem_filter, tried.same, tried'.same]

theorem flatMap_nameWays (order : List (List Char)) (cs : List Char) :
    order.flatMap (nameWays cs) =
      (order.filter fun name => name.isPrefixOf cs).flatMap (nameWays cs) := by
  induction order with
  | nil => rfl
  | cons name order ih =>
    rw [List.flatMap_cons, ih, List.filter_cons]
    split
    · rfl
    · rename_i apart
      have none : nameWays cs name = [] := by
        rw [nameWays, behind?_eq_none (mt List.isPrefixOf_iff_prefix.2 apart)]
      rw [none, List.nil_append]

theorem tagWays_eq (tried : TriedIn names order) (tried' : TriedIn names order') (cs : List Char) :
    tagWays order cs = tagWays order' cs := by
  have named (d : List Char) : order.flatMap (nameWays d) = order'.flatMap (nameWays d) := by
    rw [flatMap_nameWays, filter_isPrefixOf tried tried', ← flatMap_nameWays]
  simp only [tagWays, named]

theorem all_of_same (same : ∀ name, name ∈ names ↔ name ∈ names') (cs : List Char) :
    all names cs = all names' cs :=
  all_narrow (fun name => (same name).1) fun l mem name named =>
    (same name).2 (mem_names_of_mem_all l mem name named)

end Order

end Stencil.Template.Lexeme

namespace Stencil.Template

/-- Vocabularies with the same names give every text the same tokens, or none both. In whatever
order the names are tried, the longer ones first, the ways to take a tag are the same, and the tag
that is read is the first of them. -/
theorem tokens_depend_on_names {tags tags' : List Tag}
    (same : ∀ name, name ∈ tagNames tags ↔ name ∈ tagNames tags') (text : String) :
    Token.ofText tags text = Token.ofText tags' text ∧
      ∀ order order', Lexeme.TriedIn (tagNames tags) order →
        Lexeme.TriedIn (tagNames tags') order' →
          ∀ cs, Lexeme.tagWays order cs = Lexeme.tagWays order' cs ∧
            Lexeme.tag? (tagNames tags) cs = (Lexeme.tagWays order cs).head? := by
  refine ⟨?_, fun order order' tried tried' cs => ⟨?_, (Lexeme.head?_tagWays tried cs).symm⟩⟩
  · change Token.obeyAll false (Token.place 0 .start (Lexeme.all (tagNames tags) text.toList)) =
      Token.obeyAll false (Token.place 0 .start (Lexeme.all (tagNames tags') text.toList))
    rw [Lexeme.all_of_same same]
  · have back : Lexeme.TriedIn (tagNames tags) order' :=
      ⟨tried'.once, tried'.longestFirst, fun name => (tried'.same name).trans (same name).symm⟩
    exact Lexeme.tagWays_eq tried back cs

def oddTags : List Tag :=
  [.single "if", .single ".*", .single "", .opening "if a", .closing "-"]

def shuffledTags : List Tag :=
  [.single "-", .branching ".*", .closing "if a", .single "", .opening ".*", .opening "if"]

def dashedInside : List Char := "- - x %\x7d".toList

theorem odd_names_in_any_order :
    Token.ofText oddTags "\x7b% if a -%\x7d b \x7b%- - x %\x7d" =
        .ok [⟨"if a", 0, false, true, none, none, 0⟩, ⟨"text", 0, false, false, none, some "b", 11⟩,
          ⟨"-", 0, true, false, some "x", none, 14⟩] ∧
      Token.ofText oddTags "\x7b% if a -%\x7d b \x7b%- - x %\x7d" =
        Token.ofText shuffledTags "\x7b% if a -%\x7d b \x7b%- - x %\x7d" ∧
      Lexeme.tagWays ["if a".toList, "if".toList, ".*".toList, "-".toList, []] dashedInside =
        Lexeme.tagWays ["if a".toList, ".*".toList, "if".toList, "-".toList, []] dashedInside ∧
      (Lexeme.tagWays ["if a".toList, "if".toList, ".*".toList, "-".toList, []]
        dashedInside).length = 6 := by
  have same (name : List Char) : name ∈ tagNames oddTags ↔ name ∈ tagNames shuffledTags :=
    ⟨(by decide : ∀ n ∈ tagNames oddTags, n ∈ tagNames shuffledTags) name,
      (by decide : ∀ n ∈ tagNames shuffledTags, n ∈ tagNames oddTags) name⟩
  have tried : Lexeme.TriedIn (tagNames oddTags)
      ["if a".toList, "if".toList, ".*".toList, "-".toList, []] :=
    ⟨by decide, by decide, fun name => ⟨(by decide : ∀ n ∈ _, n ∈ _) name,
      (by decide : ∀ n ∈ _, n ∈ _) name⟩⟩
  have tried' : Lexeme.TriedIn (tagNames shuffledTags)
      ["if a".toList, ".*".toList, "if".toList, "-".toList, []] :=
    ⟨by decide, by decide, fun name => ⟨(by decide : ∀ n ∈ _, n ∈ _) name,
      (by decide : ∀ n ∈ _, n ∈ _) name⟩⟩
  obtain ⟨tokens, ways⟩ := tokens_depend_on_names same "\x7b% if a -%\x7d b \x7b%- - x %\x7d"
  exact ⟨by decide +kernel, tokens, (ways _ _ tried tried' dashedInside).1, by decide +kernel⟩

end Stencil.Template
