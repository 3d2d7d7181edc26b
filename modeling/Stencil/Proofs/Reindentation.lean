import Stencil.Proofs.TagGrammar
import Stencil.Text.Lines

set_option autoImplicit false

/-!
# Moving a text to the right

Indenting the lines of a text puts spaces behind line ends, hence where blanks stand already. The
scanner asks whether there are blanks and not how many, so it reads the same tags and variables from
two texts that differ in the length of their runs of blanks.
-/

namespace Stencil.Text

/-- Each run of blanks as one space. With `inRun` the text continues a run. -/
def squeezeFrom (inRun : Bool) : List Char → List Char
  | [] => []
  | c :: cs =>
    if isBlank c then
      if inRun then squeezeFrom true cs else ' ' :: squeezeFrom true cs
    else c :: squeezeFrom false cs

def squeeze (cs : List Char) : List Char := squeezeFrom false cs

/-- Whether a text, read behind another one, ends in a run of blanks. -/
def endsInRun (inRun : Bool) (cs : List Char) : Bool :=
  (cs.getLast?.map isBlank).getD inRun

section Squeeze

variable {b : Bool} {c : Char}

theorem squeezeFrom_dark (h : isBlank c = false) (b : Bool) (cs : List Char) :
    squeezeFrom b (c :: cs) = c :: squeeze cs := by
  rw [squeezeFrom, h]
  rfl

theorem squeezeFrom_blank (h : isBlank c = true) (cs : List Char) :
    squeezeFrom true (c :: cs) = squeezeFrom true cs := by
  rw [squeezeFrom, h]
  rfl

theorem squeeze_blank (h : isBlank c = true) (cs : List Char) :
    squeeze (c :: cs) = ' ' :: squeezeFrom true cs := by
  rw [squeeze, squeezeFrom, h]
  rfl

theorem squeeze_dark (h : isBlank c = false) (cs : List Char) :
    squeeze (c :: cs) = c :: squeeze cs :=
  squeezeFrom_dark h false cs

theorem endsInRun_cons (b : Bool) (c : Char) (cs : List Char) :
    endsInRun b (c :: cs) = endsInRun (isBlank c) cs := by
  unfold endsInRun
  rw [List.getLast?_cons]
  cases cs.getLast? <;> rfl

theorem squeezeFrom_append (b : Bool) (cs ds : List Char) :
    squeezeFrom b (cs ++ ds) = squeezeFrom b cs ++ squeezeFrom (endsInRun b cs) ds := by
  induction cs generalizing b with
  | nil => rfl
  | cons c cs ih =>
    rw [List.cons_append, endsInRun_cons]
    cases h : isBlank c with
    | true =>
      cases b with
      | true => rw [squeezeFrom_blank h, squeezeFrom_blank h, ih]
      | false =>
        change squeeze _ = squeeze _ ++ _
        rw [squeeze_blank h, squeeze_blank h, ih]
        rfl
    | false =>
      rw [squeezeFrom_dark h, squeezeFrom_dark h, squeeze, ih]
      rfl

theorem squeezeFrom_replicate (n : Nat) (cs : List Char) :
    squeezeFrom true (List.replicate n ' ' ++ cs) = squeezeFrom true cs := by
  induction n with
  | zero => rfl
  | succ n ih =>
    rw [List.replicate_succ, List.cons_append, squeezeFrom_blank (by decide), ih]

theorem dark_prefix_squeeze (p : List Char) (dark : p.any isBlank = false) (cs : List Char) :
    p <+: squeeze cs ↔ p <+: cs := by
  induction p generalizing cs with
  | nil => exact ⟨fun _ => List.nil_prefix, fun _ => List.nil_prefix⟩
  | cons d p ih =>
    obtain ⟨first, others⟩ := Bool.or_eq_false_iff.1 dark
    cases cs with
    | nil => rfl
    | cons c cs =>
      cases h : isBlank c with
      | true =>
        have ne : d ≠ c := by
          rintro rfl
          exact absurd (h.symm.trans first) (by decide)
        have space : d ≠ ' ' := by
          rintro rfl
          exact absurd first (by decide)
        rw [squeeze_blank h, List.cons_prefix_cons, List.cons_prefix_cons]
        exact ⟨fun both => absurd both.1 space, fun both => absurd both.1 ne⟩
      | false => rw [squeeze_dark h, List.cons_prefix_cons, List.cons_prefix_cons, ih others]

theorem squeeze_dark_append (p : List Char) (dark : p.any isBlank = false) (cs : List Char) :
    squeeze (p ++ cs) = p ++ squeeze cs := by
  induction p with
  | nil => rfl
  | cons d p ih =>
    obtain ⟨first, others⟩ := Bool.or_eq_false_iff.1 dark
    rw [List.cons_append, squeeze_dark first, ih others]
    rfl

theorem getLast?_squeezeFrom {cs : List Char} (dark : isBlank c = false) (b : Bool) :
    (squeezeFrom b cs).getLast? = some c ↔ cs.getLast? = some c := by
  have ne {d : Char} (h : isBlank d = true) : some d ≠ some c := by
    rintro ⟨⟩
    exact absurd (h.symm.trans dark) (by decide)
  induction cs using List.reverseRecOn with
  | nil => rfl
  | append_singleton cs d ih =>
    rw [squeezeFrom_append, List.getLast?_concat]
    cases h : isBlank d with
    | false => rw [squeezeFrom_dark h, squeeze, squeezeFrom, List.getLast?_concat]
    | true =>
      refine iff_of_false ?_ (ne h)
      cases run : endsInRun b cs with
      | false =>
        change (squeezeFrom b cs ++ squeeze [d]).getLast? ≠ _
        rw [squeeze_blank h, squeezeFrom, List.getLast?_concat]
        exact ne (by decide)
      | true =>
        intro last
        rw [squeezeFrom_blank h, squeezeFrom, List.append_nil] at last
        rw [endsInRun, ih.1 last] at run
        exact absurd (run.symm.trans dark) (by decide)

theorem trimStart_squeezeFrom (b : Bool) (cs : List Char) :
    trimStart (squeezeFrom b cs) = squeeze (trimStart cs) := by
  unfold trimStart
  induction cs generalizing b with
  | nil => rfl
  | cons c cs ih =>
    cases h : isBlank c with
    | true =>
      rw [List.dropWhile_cons_of_pos h]
      cases b with
      | true => rw [squeezeFrom_blank h, ih]
      | false =>
        change (squeeze _).dropWhile _ = _
        rw [squeeze_blank h, List.dropWhile_cons_of_pos (by decide), ih]
    | false =>
      rw [squeezeFrom_dark h, List.dropWhile_cons_of_neg (Bool.eq_false_iff.1 h),
        List.dropWhile_cons_of_neg (Bool.eq_false_iff.1 h), squeeze_dark h]

theorem all_isBlank_squeezeFrom (b : Bool) (cs : List Char) :
    (squeezeFrom b cs).all isBlank = cs.all isBlank := by
  induction cs generalizing b with
  | nil => rfl
  | cons c cs ih =>
    cases h : isBlank c with
    | true =>
      cases b with
      | true => rw [squeezeFrom_blank h, ih, List.all_cons, h, Bool.true_and]
      | false =>
        change (squeeze _).all _ = _
        rw [squeeze_blank h, List.all_cons, ih, List.all_cons, h]
        rfl
    | false =>
      rw [squeezeFrom_dark h, List.all_cons, List.all_cons, h, Bool.false_and, Bool.false_and]

theorem trimEnd_squeezeFrom (b : Bool) (cs : List Char) :
    trimEnd (squeezeFrom b cs) = squeezeFrom b (trimEnd cs) := by
  induction cs generalizing b with
  | nil => rfl
  | cons c cs ih =>
    cases blank : (c :: cs).all isBlank with
    | true =>
      rw [trimEnd_blank blank, trimEnd_blank]
      · rfl
      · rw [all_isBlank_squeezeFrom, blank]
    | false =>
      have dark (b : Bool) : (squeezeFrom b (c :: cs)).all isBlank = false :=
        (all_isBlank_squeezeFrom b _).trans blank
      rw [trimEnd_cons blank]
      cases h : isBlank c with
      | true =>
        cases b with
        | true => rw [squeezeFrom_blank h, squeezeFrom_blank h, ih]
        | false =>
          have seen := dark false
          change trimEnd (squeeze _) = squeeze _
          change (squeeze _).all _ = _ at seen
          rw [squeeze_blank h] at seen ⊢
          rw [squeeze_blank h, trimEnd_cons seen, ih]
      | false =>
        have seen := dark b
        rw [squeezeFrom_dark h] at seen ⊢
        rw [squeezeFrom_dark h, trimEnd_cons seen]
        exact congrArg (c :: ·) (ih false)

theorem trim_squeezeFrom (b : Bool) (cs : List Char) :
    trim (squeezeFrom b cs) = squeeze (trim cs) := by
  rw [trim, trimStart_squeezeFrom, squeeze, trimEnd_squeezeFrom]
  rfl

def squeezeSplit (b : Bool) (r : List Char × List Char) : List Char × List Char :=
  (squeezeFrom b r.1, squeeze r.2)

theorem map_squeezeSplit_cons {b' : Bool} {d : Char}
    (h : ∀ cs, squeezeFrom b (c :: cs) = d :: squeezeFrom b' cs)
    (read : Option (List Char × List Char)) :
    (read.map (squeezeSplit b')).map (fun (inside, rest) => (d :: inside, rest)) =
      (read.map fun (inside, rest) => (c :: inside, rest)).map (squeezeSplit b) := by
  cases read with
  | none => rfl
  | some r => exact congrArg (fun inside => some (inside, squeeze r.2)) (h r.1).symm

theorem map_squeezeSplit_blank (h : isBlank c = true) (read : Option (List Char × List Char)) :
    read.map (squeezeSplit true) =
      (read.map fun (inside, rest) => (c :: inside, rest)).map (squeezeSplit true) := by
  cases read with
  | none => rfl
  | some r =>
    exact congrArg (fun inside => some (inside, squeeze r.2)) (squeezeFrom_blank h r.1).symm

end Squeeze

section Indent

theorem isBlank_of_isLineEnd {c : Char} (h : isLineEnd c = true) : isBlank c = true := by
  simp only [isLineEnd, Bool.or_eq_true, beq_iff_eq] at h
  rcases h with ((((((((rfl | rfl) | rfl) | rfl) | rfl) | rfl) | rfl) | rfl) | rfl) | rfl <;> decide

theorem squeezeFrom_cons {c : Char} {cs ds : List Char}
    (h : squeezeFrom (isBlank c) cs = squeezeFrom (isBlank c) ds) (b : Bool) :
    squeezeFrom b (c :: cs) = squeezeFrom b (c :: ds) := by
  rw [squeezeFrom, squeezeFrom]
  cases blank : isBlank c with
  | true =>
    rw [blank] at h
    rw [h]
    rfl
  | false =>
    rw [blank] at h
    rw [h]
    rfl

def indentTail (n : Nat) : List (List Char) → List Char
  | [] => []
  | l :: ls => l ++ (ls.map (indentLine n)).flatten

theorem squeezeFrom_indentLine (n : Nat) (l cs : List Char) :
    squeezeFrom true (indentLine n l ++ cs) = squeezeFrom true (l ++ cs) := by
  unfold indentLine
  split
  · rfl
  · rw [List.append_assoc, squeezeFrom_replicate]

/-- Behind a line end, moving the first line makes a run of blanks longer. -/
theorem squeezeFrom_flatten (n : Nat) (ls : List (List Char)) :
    squeezeFrom true (ls.map (indentLine n)).flatten = squeezeFrom true (indentTail n ls) := by
  cases ls with
  | nil => rfl
  | cons l ls =>
    rw [List.map_cons, List.flatten_cons, squeezeFrom_indentLine]
    rfl

theorem indentTail_extendFirst (n : Nat) (c : Char) (ls : List (List Char)) :
    indentTail n (extendFirst c ls) = c :: indentTail n ls := by
  cases ls <;> rfl

theorem squeezeFrom_indentTail (n : Nat) (cs : List Char) (b : Bool) :
    squeezeFrom b (indentTail n (lines cs)) = squeezeFrom b cs := by
  fun_induction lines cs generalizing b with
  | case1 => rfl
  | case2 cs ih =>
    refine squeezeFrom_cons (squeezeFrom_cons ?_ _) b
    exact (squeezeFrom_flatten n (lines cs)).trans (ih true)
  | case3 c cs _ ends ih =>
    refine squeezeFrom_cons ?_ b
    rw [isBlank_of_isLineEnd ends]
    exact (squeezeFrom_flatten n (lines cs)).trans (ih true)
  | case4 c cs _ _ ih =>
    rw [indentTail_extendFirst]
    exact squeezeFrom_cons (ih _) b

theorem squeezeFrom_indentFollowing (n : Nat) (cs : List Char) (b : Bool) :
    squeezeFrom b (indentFollowing n cs) = squeezeFrom b cs := by
  unfold indentFollowing
  fun_induction firstLine cs generalizing b with
  | case1 => rfl
  | case2 cs =>
    refine squeezeFrom_cons ?_ b
    exact (squeezeFrom_flatten n (lines cs)).trans (squeezeFrom_indentTail n cs true)
  | case3 c cs _ ih => exact squeezeFrom_cons (ih _) b

end Indent

end Stencil.Text

namespace Stencil.Template

open Text

theorem takeWhile_isWord_squeeze (cs : List Char) :
    (squeeze cs).takeWhile isWord = cs.takeWhile isWord ∧
      (squeeze cs).dropWhile isWord = squeeze (cs.dropWhile isWord) := by
  induction cs with
  | nil => exact ⟨rfl, rfl⟩
  | cons c cs ih =>
    cases word : isWord c with
    | true =>
      rw [squeeze_dark (isBlank_of_isWord word), List.takeWhile_cons_of_pos word,
        List.takeWhile_cons_of_pos word, List.dropWhile_cons_of_pos word,
        List.dropWhile_cons_of_pos word, ih.1]
      exact ⟨rfl, ih.2⟩
    | false =>
      have stop := Bool.eq_false_iff.1 word
      rw [List.takeWhile_cons_of_neg stop, List.dropWhile_cons_of_neg stop]
      cases h : isBlank c with
      | true =>
        rw [squeeze_blank h, List.takeWhile_cons_of_neg (by decide),
          List.dropWhile_cons_of_neg (by decide)]
        exact ⟨rfl, rfl⟩
      | false =>
        rw [squeeze_dark h, List.takeWhile_cons_of_neg stop, List.dropWhile_cons_of_neg stop]
        exact ⟨rfl, rfl⟩

theorem leadDash_squeeze (cs : List Char) :
    leadDash (squeeze cs) = (squeeze (leadDash cs).1, (leadDash cs).2) := by
  cases cs with
  | nil => rfl
  | cons c cs =>
    by_cases dash : c = '-'
    · rw [dash, squeeze_dark (by decide)]
      rfl
    · rw [@leadDash_plain (c :: cs) fun same => dash (Option.some.inj same)]
      refine leadDash_plain fun same => ?_
      cases h : isBlank c with
      | true =>
        rw [squeeze_blank h] at same
        exact absurd (Option.some.inj same) (by decide)
      | false =>
        rw [squeeze_dark h] at same
        exact dash (Option.some.inj same)

namespace Lexeme

theorem untilTagEnd_squeezeFrom (b : Bool) (cs : List Char) :
    untilTagEnd (squeezeFrom b cs) = (untilTagEnd cs).map (squeezeSplit b) := by
  induction cs generalizing b with
  | nil => rfl
  | cons c cs ih =>
    by_cases ends : tagEnd <+: c :: cs
    · obtain ⟨rest, split⟩ := ends
      obtain ⟨rfl, rfl⟩ := List.cons.inj split
      change untilTagEnd (squeezeFrom b ('%' :: '}' :: rest)) = _
      rw [squeezeFrom_dark (by decide), squeeze_dark (by decide)]
      rfl
    · rw [untilTagEnd_cons ends]
      cases h : isBlank c with
      | true =>
        cases b with
        | true =>
          rw [squeezeFrom_blank h, ih]
          exact map_squeezeSplit_blank h _
        | false =>
          change untilTagEnd (squeeze _) = _
          rw [squeeze_blank h, untilTagEnd_cons (by simp [tagEnd]), ih]
          exact map_squeezeSplit_cons (squeeze_blank h) _
      | false =>
        have unended : ¬ tagEnd <+: c :: squeeze cs := by
          rwa [← squeeze_dark h, dark_prefix_squeeze tagEnd (by decide)]
        rw [squeezeFrom_dark h, untilTagEnd_cons unended, squeeze, ih]
        exact map_squeezeSplit_cons (squeezeFrom_dark h b) _

theorem dropDash_squeezeFrom (b : Bool) (cs : List Char) :
    dropDash (squeezeFrom b cs) = (squeezeFrom b (dropDash cs).1, (dropDash cs).2) := by
  unfold dropDash
  split
  · rename_i last
    rw [getLast?_squeezeFrom (by decide)] at last
    rw [if_pos last]
    obtain ⟨front, rfl⟩ := List.getLast?_eq_some_iff.1 last
    rw [squeezeFrom_append, squeezeFrom_dark (by decide), List.dropLast_concat]
    exact congrArg (·, true) List.dropLast_concat
  · rename_i last
    rw [getLast?_squeezeFrom (by decide)] at last
    rw [if_neg last]

theorem parametersOf_squeezeFrom (b : Bool) (cs : List Char) :
    parametersOf (squeezeFrom b cs) = (parametersOf cs).map squeeze := by
  unfold parametersOf
  rw [trim_squeezeFrom]
  cases trim cs with
  | nil => rfl
  | cons c cs =>
    cases h : isBlank c with
    | true =>
      rw [squeeze_blank h]
      exact congrArg some (squeeze_blank h cs).symm
    | false =>
      rw [squeeze_dark h]
      exact congrArg some (squeeze_dark h cs).symm

theorem setOff_squeeze (cs : List Char) : setOff (squeeze cs) = setOff cs := by
  unfold setOff
  cases cs with
  | nil => rfl
  | cons c cs =>
    cases h : isBlank c with
    | true =>
      rw [squeeze_blank h]
      exact h.symm
    | false =>
      rw [squeeze_dark h]
      rfl

theorem tagTail?_squeeze (cs : List Char) :
    tagTail? (squeeze cs) =
      (tagTail? cs).map fun (parameters, after, rest) =>
        (parameters.map squeeze, after, squeeze rest) := by
  have ends : untilTagEnd (squeeze cs) = _ := untilTagEnd_squeezeFrom false cs
  cases first : untilTagEnd cs with
  | none =>
    rw [first] at ends
    have unread {ds : List Char} (h : untilTagEnd ds = none) : tagTail? ds = none := by
      refine Option.eq_none_iff_forall_ne_some.2 fun r hr => ?_
      obtain ⟨inside, some⟩ := untilTagEnd_of_tagTail? hr
      exact nomatch h.symm.trans some
    rw [unread first, unread ends]
    rfl
  | some r =>
    obtain ⟨inside, rest⟩ := r
    rw [first] at ends
    obtain ⟨split, unended⟩ := untilTagEnd_sound first
    obtain ⟨split', unended'⟩ := untilTagEnd_sound ends
    rw [split', split, List.append_assoc, List.append_assoc, tagTail?_eq unended,
      tagTail?_eq unended', dropDash_squeezeFrom]
    change (if setOff (squeeze _) = true then _ else _) = _
    rw [setOff_squeeze, parametersOf_squeezeFrom]
    cases setOff (dropDash inside).1 <;> rfl

def squeezed : Lexeme → Lexeme
  | text value => text (squeeze value)
  | interpolation before after name => interpolation before after (squeeze name)
  | tag before after name parameters => tag before after name (parameters.map squeeze)

def squeezeRead (r : Lexeme × List Char) : Lexeme × List Char :=
  (r.1.squeezed, squeeze r.2)

theorem tag?_squeeze {names : List (List Char)} (words : Words names) (cs : List Char) :
    tag? names (squeeze cs) = (tag? names cs).map squeezeRead := by
  obtain ⟨word, behind⟩ := takeWhile_isWord_squeeze (trimStart (leadDash cs).1)
  rw [tag?_eq words, tag?_eq words, leadDash_squeeze, spacedTag?_eq words, spacedTag?_eq words,
    squeeze, trimStart_squeezeFrom, anyTag?_eq words, anyTag?_eq words, word, behind,
    tagTail?_squeeze]
  split
  · rw [Option.map_map, Option.map_map, Option.map_map, Option.map_map]
    rfl
  · rfl

end Lexeme

theorem spanName_index_blank {c : Char} (h : isBlank c = true) (cs : List Char) :
    spanName true (c :: cs) = (spanName true cs).map fun (name, rest) => (c :: name, rest) := by
  have opened : (c != ']') = true := by
    refine bne_iff_ne.2 ?_
    rintro rfl
    exact absurd h (by decide)
  rw [spanName, if_pos rfl, opened]

theorem spanName_blank {c : Char} (h : isBlank c = true) (cs : List Char) :
    spanName false (c :: cs) = some ([], c :: cs) := by
  obtain ⟨unnamed, bracket⟩ := stops_of_isBlank h
  rw [spanName, if_neg Bool.false_ne_true, if_neg (Bool.eq_false_iff.1 unnamed),
    if_neg (mt eq_of_beq bracket)]

/-- Blanks may stand inside the index of a name, but not elsewhere in it. -/
theorem spanName_squeezeFrom {bracket b : Bool} (inside : bracket = false → b = false)
    (cs : List Char) :
    spanName bracket (squeezeFrom b cs) = (spanName bracket cs).map (squeezeSplit b) := by
  induction cs generalizing bracket b with
  | nil => cases bracket <;> rfl
  | cons c cs ih =>
    have indexed (b : Bool) : spanName true (squeezeFrom b cs) =
        (spanName true cs).map (squeezeSplit b) := ih (nomatch ·)
    cases h : isBlank c with
    | true =>
      cases bracket with
      | false =>
        obtain rfl := inside rfl
        change spanName false (squeeze _) = _
        rw [squeeze_blank h, spanName_blank (by decide), spanName_blank h, ← squeeze_blank h]
        rfl
      | true =>
        rw [spanName_index_blank h]
        cases b with
        | true =>
          rw [squeezeFrom_blank h, indexed]
          exact map_squeezeSplit_blank h _
        | false =>
          change spanName true (squeeze _) = _
          rw [squeeze_blank h, spanName_index_blank (by decide), indexed]
          exact map_squeezeSplit_cons (squeeze_blank h) _
    | false =>
      have longer (bracket : Bool) :
          (spanName bracket (squeeze cs)).map (fun (name, rest) => (c :: name, rest)) =
            ((spanName bracket cs).map fun (name, rest) => (c :: name, rest)).map
              (squeezeSplit b) := by
        rw [squeeze, ih fun _ => rfl]
        exact map_squeezeSplit_cons (squeezeFrom_dark h b) _
      have stopped : some ([], c :: squeeze cs) = (some ([], c :: cs)).map (squeezeSplit b) := by
        rw [← squeeze_dark h]
        rfl
      rw [squeezeFrom_dark h, spanName, spanName]
      split
      · exact longer _
      · split
        · exact longer false
        · split
          · have index := indexed false
            change spanName true (squeeze cs) = _ at index
            rw [index]
            cases spanName true cs with
            | none => exact stopped
            | some r =>
              exact congrArg (fun name => some (name, squeeze r.2)) (squeezeFrom_dark h b r.1).symm
          · exact stopped

theorem name?_squeeze (cs : List Char) :
    name? (squeeze cs) = (name? cs).map (squeezeSplit false) := by
  cases cs with
  | nil => rfl
  | cons c cs =>
    cases h : isBlank c with
    | true =>
      rw [squeeze_blank h, name?, name?, (stops_of_isBlank h).1]
      rfl
    | false =>
      rw [squeeze_dark h, name?, name?]
      split
      · rw [← squeeze_dark h]
        exact spanName_squeezeFrom (fun _ => rfl) (c :: cs)
      · rfl

namespace Lexeme

theorem variableEnd?_none {cs : List Char} (undashed : ¬ '-' :: variableEnd <+: cs)
    (unended : ¬ variableEnd <+: cs) : variableEnd? cs = none := by
  unfold variableEnd?
  split
  · rename_i rest
    exact absurd ⟨rest, rfl⟩ undashed
  · rename_i rest
    exact absurd ⟨rest, rfl⟩ unended
  · rfl

theorem variableEnd?_squeeze (cs : List Char) :
    variableEnd? (squeeze cs) =
      (variableEnd? cs).map fun (after, rest) => (after, squeeze rest) := by
  by_cases dashed : '-' :: variableEnd <+: cs
  · obtain ⟨rest, rfl⟩ := dashed
    rw [squeeze_dark_append _ (by decide)]
    rfl
  · by_cases ended : variableEnd <+: cs
    · obtain ⟨rest, rfl⟩ := ended
      rw [squeeze_dark_append _ (by decide)]
      rfl
    · rw [variableEnd?_none dashed ended, variableEnd?_none]
      · rfl
      · rwa [dark_prefix_squeeze _ (by decide)]
      · rwa [dark_prefix_squeeze _ (by decide)]

theorem variableFrom?_squeeze (before : Bool) (cs : List Char) :
    variableFrom? before (squeeze cs) = (variableFrom? before cs).map squeezeRead := by
  unfold variableFrom?
  rw [squeeze, trimStart_squeezeFrom, name?_squeeze]
  cases name? (trimStart cs) with
  | none => rfl
  | some r =>
    change (variableEnd? (trimStart (squeezeFrom false r.2))).map _ = _
    rw [trimStart_squeezeFrom, variableEnd?_squeeze, Option.map_map]
    change _ = ((variableEnd? (trimStart r.2)).map _).map _
    rw [Option.map_map]
    rfl

theorem interpolation?_eq (cs : List Char) :
    interpolation? cs = variableFrom? (leadDash cs).2 (leadDash cs).1 := by
  unfold interpolation?
  split
  · rfl
  · rename_i plain
    rw [leadDash_plain]
    intro dashed
    obtain ⟨inner, rfl⟩ := List.head?_eq_some_iff.1 dashed
    exact plain inner rfl

theorem interpolation?_squeeze (cs : List Char) :
    interpolation? (squeeze cs) = (interpolation? cs).map squeezeRead := by
  rw [interpolation?_eq, interpolation?_eq, leadDash_squeeze, variableFrom?_squeeze]

theorem startsDelimiter_iff (cs : List Char) :
    startsDelimiter cs = true ↔ tagStart <+: cs ∨ braces <+: cs := by
  refine ⟨fun starts => ?_, startsDelimiter_of_start⟩
  unfold startsDelimiter at starts
  split at starts
  · rename_i rest
    exact .inl ⟨rest, rfl⟩
  · rename_i rest
    exact .inr ⟨rest, rfl⟩
  · exact nomatch starts

theorem startsDelimiter_squeeze (cs : List Char) :
    startsDelimiter (squeeze cs) = startsDelimiter cs := by
  rw [Bool.eq_iff_iff, startsDelimiter_iff, startsDelimiter_iff,
    dark_prefix_squeeze tagStart (by decide), dark_prefix_squeeze braces (by decide)]

theorem spanText_squeezeFrom (b : Bool) (cs : List Char) :
    spanText (squeezeFrom b cs) = squeezeSplit b (spanText cs) := by
  induction cs generalizing b with
  | nil => rfl
  | cons c cs ih =>
    cases h : isBlank c with
    | true =>
      have plain (ds : List Char) : startsDelimiter (c :: ds) = false := by
        refine Bool.eq_false_iff.2 fun starts => ?_
        rcases (startsDelimiter_iff _).1 starts with ⟨_, split⟩ | ⟨_, split⟩ <;>
        · rw [← (List.cons.inj split).1] at h
          exact absurd h (by decide)
      rw [spanText, plain]
      cases b with
      | true =>
        rw [squeezeFrom_blank h, ih]
        exact congrArg (·, squeeze (spanText cs).2) (squeezeFrom_blank h _).symm
      | false =>
        change spanText (squeeze _) = _
        rw [squeeze_blank h, spanText, if_neg Bool.false_ne_true, ih]
        exact congrArg (·, squeeze (spanText cs).2) (squeeze_blank h _).symm
    | false =>
      have same : startsDelimiter (c :: squeeze cs) = startsDelimiter (c :: cs) := by
        rw [← squeeze_dark h, startsDelimiter_squeeze]
      rw [squeezeFrom_dark h, spanText, spanText, same]
      split
      · rw [← squeeze_dark h]
        rfl
      · rw [squeeze, ih]
        exact congrArg (·, squeeze (spanText cs).2) (squeezeFrom_dark h b _).symm

theorem scanText_squeeze {c d : Char} {b : Bool}
    (h : ∀ cs, squeeze (c :: cs) = d :: squeezeFrom b cs) (cs : List Char) :
    scanText d (squeezeFrom b cs) = squeezeRead (scanText c cs) := by
  unfold scanText
  rw [spanText_squeezeFrom]
  exact congrArg (fun value => (text value, squeeze (spanText cs).2)) (h _).symm

theorem scan_plain {names : List (List Char)} {c : Char} {cs : List Char}
    (h : startsDelimiter (c :: cs) = false) : scan names c cs = scanText c cs := by
  unfold scan
  split
  · exact nomatch h
  · exact nomatch h
  · rfl

theorem scan_squeeze {names : List (List Char)} (words : Words names) (c : Char) (cs : List Char) :
    ∃ d ds, squeeze (c :: cs) = d :: ds ∧ scan names d ds = squeezeRead (scan names c cs) := by
  have starts := startsDelimiter_squeeze (c :: cs)
  cases h : isBlank c with
  | true =>
    refine ⟨' ', squeezeFrom true cs, squeeze_blank h cs, ?_⟩
    rw [squeeze_blank h] at starts
    rw [scan_plain rfl, scan_plain starts.symm]
    exact scanText_squeeze (squeeze_blank h) cs
  | false =>
    refine ⟨c, squeeze cs, squeeze_dark h cs, ?_⟩
    rw [squeeze_dark h] at starts
    have text : scanText c (squeeze cs) = squeezeRead (scanText c cs) :=
      scanText_squeeze (squeeze_dark h) cs
    have getD (read : Option (Lexeme × List Char)) :
        (read.map squeezeRead).getD (scanText c (squeeze cs)) =
          squeezeRead (read.getD (scanText c cs)) := by
      rw [text]
      cases read <;> rfl
    cases delimiter : startsDelimiter (c :: cs) with
    | false => rw [scan_plain delimiter, scan_plain (starts.trans delimiter), text]
    | true =>
      rcases (startsDelimiter_iff _).1 delimiter with ⟨inner, split⟩ | ⟨inner, split⟩
      · obtain ⟨rfl, rfl⟩ : c = '{' ∧ cs = '%' :: inner := List.cons.inj split.symm
        have read := getD (tag? names inner)
        rw [← tag?_squeeze words, squeeze_dark (by decide)] at read
        rw [squeeze_dark (by decide)]
        exact read
      · obtain ⟨rfl, rfl⟩ : c = '{' ∧ cs = '{' :: inner := List.cons.inj split.symm
        have read := getD (interpolation? inner)
        rw [← interpolation?_squeeze, squeeze_dark (by decide)] at read
        rw [squeeze_dark (by decide)]
        exact read

theorem all_squeeze {names : List (List Char)} (words : Words names) (cs : List Char) :
    (all names (squeeze cs)).map Prod.fst = (all names cs).map fun l => l.1.squeezed := by
  induction cs using all.induct names with
  | case1 =>
    rw [squeeze, squeezeFrom, all]
    rfl
  | case2 c cs read ih =>
    obtain ⟨d, ds, same, scanned⟩ := scan_squeeze words c cs
    rw [same, all, all, scanned, List.map_cons, List.map_cons]
    exact congrArg (read.1.squeezed :: ·) ih

end Lexeme

/-- What a token says apart from its place and its text, with each run of blanks in the parameters
as one space. -/
structure Heading where
  kind : String
  trimBefore : Bool
  trimAfter : Bool
  parameters : Option (List Char)
  deriving Repr, DecidableEq

namespace Token

def heading (t : Token) : Heading :=
  ⟨t.kind, t.trimBefore, t.trimAfter, t.parameters.map fun p => squeeze p.toList⟩

theorem heading_obey {t u : Token} {before after : Bool} (h : t.obey before after = .ok u) :
    u.heading = t.heading := by
  unfold obey at h
  simp only at h
  split at h
  · split at h
    · obtain rfl := Except.ok.inj h
      rfl
    · exact nomatch h
  · obtain rfl := Except.ok.inj h
    rfl

theorem headings_obeyAll {ts us : List Token} {before : Bool} (h : obeyAll before ts = .ok us) :
    us.map heading = ts.map heading := by
  induction ts generalizing before us with
  | nil =>
    obtain rfl := Except.ok.inj h
    rfl
  | cons t ts ih =>
    obtain ⟨u, first, rest⟩ := exists_of_bind_eq_ok h
    obtain ⟨us, others, result⟩ := exists_of_bind_eq_ok rest
    obtain rfl := Except.ok.inj result
    rw [List.map_cons, List.map_cons, heading_obey first, ih others]

end Token

def Lexeme.heading : Lexeme → Heading
  | text _ => ⟨"text", false, false, none⟩
  | interpolation before after name => ⟨"variable", before, after, some name⟩
  | tag before after name parameters =>
    ⟨canonicalName (String.ofList name), before, after, parameters⟩

namespace Token

theorem heading_ofLexeme (position indentation : Nat) (l : Lexeme) :
    (ofLexeme position indentation l).heading = l.squeezed.heading := by
  cases l with
  | text value => rfl
  | interpolation before after name =>
    simp [ofLexeme, heading, Lexeme.squeezed, Lexeme.heading]
  | tag before after name parameters =>
    simp [ofLexeme, heading, Lexeme.squeezed, Lexeme.heading, Option.map_map, Function.comp_def]

theorem headings_place (position : Nat) (margin : Margin) (ls : List (Lexeme × List Char)) :
    (place position margin ls).map heading = ls.map fun l => l.1.squeezed.heading := by
  induction ls generalizing position margin with
  | nil => rfl
  | cons l ls ih => rw [place, List.map_cons, List.map_cons, heading_ofLexeme, ih]

theorem headings_ofText {tags : List Tag} (words : Lexeme.Words (tagNames tags)) {text : String}
    {tokens : List Token} (h : ofText tags text = .ok tokens) :
    tokens.map heading =
      ((Lexeme.all (tagNames tags) (squeeze text.toList)).map Prod.fst).map Lexeme.heading := by
  rw [headings_obeyAll h, headings_place, Lexeme.all_squeeze words, List.map_map]
  rfl

end Token

/-- Moving the lines of a component to the right leaves it with the same tokens, which differ in
nothing but texts, places and the length of the runs of blanks in their parameters. -/
theorem indented_text_keeps_headings (entry : String × Dialect)
    (builtin : entry ∈ Registry.builtin.entries) (text : String) (n : Nat) :
    ∃ tokens moved, Token.ofText entry.2.tags text = .ok tokens ∧
      Token.ofText entry.2.tags (String.ofList (indentFollowing n text.toList)) = .ok moved ∧
      moved.map Token.heading = tokens.map Token.heading := by
  obtain ⟨words, noText⟩ := words_builtin builtin
  obtain ⟨tokens, read, -⟩ := exists_cut noText text
  obtain ⟨moved, read', -⟩ := exists_cut noText (String.ofList (indentFollowing n text.toList))
  refine ⟨tokens, moved, read, read', ?_⟩
  rw [Token.headings_ofText words read, Token.headings_ofText words read', String.toList_ofList,
    squeeze, squeeze, squeezeFrom_indentFollowing]

def brokenTag : String := "\x7b% if\n  a\r\n== 'x\ny' -%\x7d\x7b\x7b b[\n0] \x7d\x7d"

theorem broken_tag_keeps_headings :
    ∃ tokens moved, Token.ofText Dialect.php.tags brokenTag = .ok tokens ∧
      Token.ofText Dialect.php.tags (String.ofList (indentFollowing 2 brokenTag.toList)) =
        .ok moved ∧
      tokens.map Token.parameters = [some "a\r\n== 'x\ny'", some "b[\n0]"] ∧
      moved.map Token.parameters = [some "a\r\n  == 'x\n  y'", some "b[\n  0]"] ∧
      moved.map Token.heading = tokens.map Token.heading := by
  have before : Token.ofText Dialect.php.tags brokenTag =
      .ok [⟨"if", 0, false, true, some "a\r\n== 'x\ny'", none, 0⟩,
        ⟨"variable", 0, false, false, some "b[\n0]", none, 23⟩] := by decide +kernel
  have after : Token.ofText Dialect.php.tags
      (String.ofList (indentFollowing 2 brokenTag.toList)) =
      .ok [⟨"if", 0, false, true, some "a\r\n  == 'x\n  y'", none, 0⟩,
        ⟨"variable", 0, false, false, some "b[\n  0]", none, 29⟩] := by decide +kernel
  obtain ⟨tokens, moved, read, read', same⟩ := indented_text_keeps_headings ("php", .php)
    (List.mem_cons_of_mem _ List.mem_cons_self) brokenTag 2
  obtain rfl := Except.ok.inj (read.symm.trans before)
  obtain rfl := Except.ok.inj (read'.symm.trans after)
  exact ⟨_, _, before, after, rfl, rfl, same⟩

end Stencil.Template
