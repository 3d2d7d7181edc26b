import Stencil.Proofs.Reindentation

set_option autoImplicit false

/-!
# Moving lines again and back

The spaces in front of a line neither make nor break a line end. So the lines of a text that has
been moved are the lines of the text, each moved by itself, and what can be said of one line can be
said of the whole: two moves are one, the spaces can be taken away again, and a final line feed may
be dropped before or after.
-/

namespace Stencil.Text

def outdentLine (n : Nat) (l : List Char) : List Char :=
  if l.all isBlank then l else l.drop n

/-- Takes `n` characters off every line after the first line feed that is not blank. -/
def outdentFollowing (n : Nat) (cs : List Char) : List Char :=
  (firstLine cs).1 ++ ((lines (firstLine cs).2).map (outdentLine n)).flatten

section Line

variable (m n : Nat) (l : List Char)

theorem all_isBlank_indentLine : (indentLine n l).all isBlank = l.all isBlank := by
  have spaces : (List.replicate n ' ').all isBlank = true :=
    List.all_eq_true.2 fun c mem => by
      rw [List.eq_of_mem_replicate mem]
      decide
  unfold indentLine
  split
  · rfl
  · rw [List.all_append, spaces, Bool.true_and]

theorem indentLine_indentLine : indentLine n (indentLine m l) = indentLine (m + n) l := by
  cases blank : l.all isBlank with
  | true =>
    have still (k : Nat) : indentLine k l = l := if_pos blank
    rw [still, still, still]
  | false =>
    have moved (k : Nat) : indentLine k l = List.replicate k ' ' ++ l := by
      rw [indentLine, blank]
      rfl
    have again := all_isBlank_indentLine m l
    rw [blank] at again
    rw [indentLine, again, moved, moved, Nat.add_comm, List.replicate_add, List.append_assoc]
    rfl

theorem outdentLine_indentLine : outdentLine n (indentLine n l) = l := by
  unfold outdentLine
  rw [all_isBlank_indentLine]
  unfold indentLine
  split
  · rfl
  · rw [List.drop_left' List.length_replicate]

theorem getLast?_indentLine : (indentLine n l).getLast? = l.getLast? := by
  unfold indentLine
  split
  · rfl
  · rename_i dark
    have filled : l ≠ [] := by
      rintro rfl
      exact dark rfl
    rw [List.getLast?_append, List.getLast?_eq_some_getLast filled]
    rfl

theorem indentLine_feed : indentLine n (l ++ ['\n']) = indentLine n l ++ ['\n'] := by
  have blank : (l ++ ['\n']).all isBlank = l.all isBlank := by
    rw [List.all_append, show ['\n'].all isBlank = true from rfl, Bool.and_true]
  unfold indentLine
  rw [blank]
  split
  · rfl
  · rw [List.append_assoc]

end Line

section Cutting

variable {c : Char} {cs : List Char}

theorem lines_inside (inside : isLineEnd c = false) (cs : List Char) :
    lines (c :: cs) = extendFirst c (lines cs) := by
  rw [lines, inside]
  · rfl
  · rintro ds rfl rfl
    exact absurd inside (by decide)

theorem lines_end (ends : isLineEnd c = true) (apart : c = '\r' → cs.head? ≠ some '\n') :
    lines (c :: cs) = [c] :: lines cs := by
  rw [lines, if_pos ends]
  rintro ds rfl rfl
  exact apart rfl rfl

theorem exists_lines_cons (c : Char) (cs : List Char) :
    ∃ l ls, lines (c :: cs) = (c :: l) :: ls := by
  cases ends : isLineEnd c with
  | true =>
    by_cases whole : c = '\r' ∧ cs.head? = some '\n'
    · obtain ⟨rfl, second⟩ := whole
      obtain ⟨ds, rfl⟩ := List.head?_eq_some_iff.1 second
      exact ⟨['\n'], lines ds, rfl⟩
    · exact ⟨[], lines cs, lines_end ends fun first second => whole ⟨first, second⟩⟩
  | false =>
    rw [lines_inside ends]
    cases lines cs with
    | nil => exact ⟨[], [], rfl⟩
    | cons l ls => exact ⟨l, ls, rfl⟩

theorem lines_replicate {l : List Char} {ls : List (List Char)} (h : lines cs = l :: ls) (n : Nat) :
    lines (List.replicate n ' ' ++ cs) = (List.replicate n ' ' ++ l) :: ls := by
  have space : isLineEnd ' ' = false := by decide
  induction n with
  | zero => exact h
  | succ n ih =>
    rw [List.replicate_succ, List.cons_append, lines_inside space, ih]
    rfl

def indentRest (n : Nat) : List (List Char) → List (List Char)
  | [] => []
  | l :: ls => l :: ls.map (indentLine n)

theorem indentRest_extendFirst (n : Nat) (c : Char) (ls : List (List Char)) :
    indentRest n (extendFirst c ls) = extendFirst c (indentRest n ls) := by
  cases ls <;> rfl

/-- What is known of the lines behind the first is known of all: the spaces in front of the first
line belong to it. -/
theorem lines_indentLines_of_rest {n : Nat}
    (h : lines (indentTail n (lines cs)) = indentRest n (lines cs)) :
    lines (indentLines n cs) = (lines cs).map (indentLine n) := by
  unfold indentLines
  cases cut : lines cs with
  | nil => rfl
  | cons l ls =>
    rw [cut] at h
    rw [List.map_cons, List.flatten_cons]
    have first : indentLine n l = l ∨ indentLine n l = List.replicate n ' ' ++ l := by
      unfold indentLine
      split
      · exact .inl rfl
      · exact .inr rfl
    rcases first with still | moved
    · rw [still]
      exact h
    · rw [moved, List.append_assoc]
      exact lines_replicate h n

theorem head?_of_indentLines {n : Nat} (h : (indentLines n cs).head? = some '\n') :
    cs.head? = some '\n' := by
  cases cs with
  | nil => exact h
  | cons c cs =>
    obtain ⟨l, ls, cut⟩ := exists_lines_cons c cs
    rw [indentLines, cut, List.map_cons, List.flatten_cons, indentLine] at h
    split at h
    · exact h
    · cases n with
      | zero => exact h
      | succ n => exact absurd (Option.some.inj h) (by decide)

theorem lines_indentTail (n : Nat) (cs : List Char) :
    lines (indentTail n (lines cs)) = indentRest n (lines cs) := by
  fun_induction lines cs with
  | case1 => rfl
  | case2 cs ih =>
    exact congrArg (['\r', '\n'] :: ·) (lines_indentLines_of_rest ih)
  | case3 c cs apart ends ih =>
    have kept : c = '\r' → (indentLines n cs).head? ≠ some '\n' := by
      rintro rfl moved
      obtain ⟨ds, rfl⟩ := List.head?_eq_some_iff.1 (head?_of_indentLines moved)
      exact apart ds rfl rfl
    change lines (c :: indentLines n cs) = [c] :: (lines cs).map (indentLine n)
    rw [lines_end ends kept, lines_indentLines_of_rest ih]
  | case4 c cs _ inside ih =>
    rw [indentTail_extendFirst, indentRest_extendFirst, lines_inside (Bool.eq_false_iff.2 inside),
      ih]

theorem lines_indentLines (n : Nat) (cs : List Char) :
    lines (indentLines n cs) = (lines cs).map (indentLine n) :=
  lines_indentLines_of_rest (lines_indentTail n cs)

end Cutting

section Following

variable (m n : Nat) (cs : List Char)

theorem firstLine_append : (firstLine cs).1 ++ (firstLine cs).2 = cs := by
  fun_induction firstLine cs with
  | case1 => rfl
  | case2 cs => rfl
  | case3 c cs _ ih => exact congrArg (c :: ·) ih

theorem firstLine_indentFollowing :
    firstLine (indentFollowing n cs) = ((firstLine cs).1, indentLines n (firstLine cs).2) := by
  unfold indentFollowing
  fun_induction firstLine cs with
  | case1 => rfl
  | case2 cs => rfl
  | case3 c cs apart ih =>
    rw [List.cons_append, firstLine, ih]
    rintro rfl
    exact apart rfl

theorem indentFollowing_indentFollowing :
    indentFollowing n (indentFollowing m cs) = indentFollowing (m + n) cs := by
  have each : indentLine n ∘ indentLine m = indentLine (m + n) :=
    funext (indentLine_indentLine m n)
  rw [indentFollowing, firstLine_indentFollowing]
  change (firstLine cs).1 ++ ((lines (indentLines m _)).map (indentLine n)).flatten = _
  rw [lines_indentLines, List.map_map, each]
  rfl

theorem outdentFollowing_indentFollowing : outdentFollowing n (indentFollowing n cs) = cs := by
  have each : outdentLine n ∘ indentLine n = id := funext (outdentLine_indentLine n)
  rw [outdentFollowing, firstLine_indentFollowing, lines_indentLines, List.map_map, each,
    List.map_id, flatten_lines, firstLine_append]

end Following

section Feed

variable (n : Nat) (cs : List Char)

theorem exists_lines_feed :
    ∃ ls l, lines (cs ++ ['\n']) = ls ++ [l ++ ['\n']] ∧
      (lines cs = ls ++ [l] ∨ lines cs = ls ∧ l = []) := by
  fun_induction lines cs with
  | case1 => exact ⟨[], [], rfl, .inr ⟨rfl, rfl⟩⟩
  | case2 cs ih =>
    obtain ⟨ls, l, fed, cut⟩ := ih
    have longer {ks : List (List Char)} (h : lines cs = ks) :
        ['\r', '\n'] :: lines cs = ['\r', '\n'] :: ks := congrArg (['\r', '\n'] :: ·) h
    exact ⟨['\r', '\n'] :: ls, l, congrArg (['\r', '\n'] :: ·) fed,
      cut.imp longer (And.imp_left longer)⟩
  | case3 c cs apart ends ih =>
    by_cases half : c = '\r' ∧ cs = []
    · obtain ⟨rfl, rfl⟩ := half
      exact ⟨[], ['\r'], rfl, .inl rfl⟩
    · have whole : c = '\r' → (cs ++ ['\n']).head? ≠ some '\n' := by
        rintro rfl first
        cases cs with
        | nil => exact half ⟨rfl, rfl⟩
        | cons d ds => exact apart ds rfl (congrArg (· :: ds) (Option.some.inj first))
      obtain ⟨ls, l, fed, cut⟩ := ih
      have longer {ks : List (List Char)} (h : lines cs = ks) :
          [c] :: lines cs = [c] :: ks := congrArg ([c] :: ·) h
      refine ⟨[c] :: ls, l, ?_, cut.imp longer (And.imp_left longer)⟩
      rw [List.cons_append, lines_end ends whole, fed]
      rfl
  | case4 c cs _ inside ih =>
    obtain ⟨ls, l, fed, cut⟩ := ih
    rw [List.cons_append, lines_inside (Bool.eq_false_iff.2 inside), fed]
    cases ls with
    | nil =>
      refine ⟨[], c :: l, rfl, .inl ?_⟩
      rcases cut with last | ⟨none, rfl⟩
      · rw [last]
        rfl
      · rw [none]
        rfl
    | cons k ks =>
      refine ⟨(c :: k) :: ks, l, rfl, cut.imp ?_ (And.imp_left ?_)⟩
      · intro h
        rw [h]
        rfl
      · intro h
        rw [h]
        rfl

theorem indentLines_feed : indentLines n (cs ++ ['\n']) = indentLines n cs ++ ['\n'] := by
  obtain ⟨ls, l, fed, cut⟩ := exists_lines_feed cs
  have before : indentLines n cs = (ls.map (indentLine n)).flatten ++ indentLine n l := by
    unfold indentLines
    rcases cut with last | ⟨none, rfl⟩
    · rw [last, List.map_append, List.flatten_append, List.map_singleton, List.flatten_singleton]
    · rw [none]
      exact (List.append_nil _).symm
  rw [before, indentLines, fed, List.map_append, List.flatten_append, List.map_singleton,
    List.flatten_singleton, indentLine_feed, List.append_assoc]

theorem indentFollowing_feed :
    indentFollowing n (cs ++ ['\n']) = indentFollowing n cs ++ ['\n'] := by
  unfold indentFollowing
  fun_induction firstLine cs with
  | case1 => rfl
  | case2 cs => exact congrArg ('\n' :: ·) (indentLines_feed n cs)
  | case3 c cs apart ih =>
    have same : firstLine (c :: (cs ++ ['\n'])) =
        (c :: (firstLine (cs ++ ['\n'])).1, (firstLine (cs ++ ['\n'])).2) := by
      rw [firstLine]
      rintro rfl
      exact apart rfl
    rw [List.cons_append, same]
    exact congrArg (c :: ·) ih

theorem getLast?_indentLines : (indentLines n cs).getLast? = cs.getLast? := by
  have each : List.getLast? ∘ indentLine n = List.getLast? := funext (getLast?_indentLine n)
  rw [indentLines, List.getLast?_flatten, ← List.map_reverse, List.findSome?_map, each,
    ← List.getLast?_flatten, flatten_lines]

theorem getLast?_indentFollowing : (indentFollowing n cs).getLast? = cs.getLast? := by
  rw [indentFollowing, List.getLast?_append, getLast?_indentLines, ← List.getLast?_append,
    firstLine_append]

theorem dropFinalNewline_indentFollowing :
    dropFinalNewline (indentFollowing n cs) = indentFollowing n (dropFinalNewline cs) := by
  unfold dropFinalNewline
  rw [getLast?_indentFollowing]
  split
  · rename_i fed
    obtain ⟨ds, rfl⟩ := List.getLast?_eq_some_iff.1 fed
    rw [indentFollowing_feed, List.dropLast_concat, List.dropLast_concat]
  · rfl

end Feed

/-- Moving a text twice moves it by the sum; it makes no difference whether a final line feed is
dropped before or after; and taking the spaces off the lines that are not blank gives the text back.
Up to the first line feed the text stays as it is, and behind it each line stays a line, which is
moved if it is not blank. -/
theorem moves_compose (m n : Nat) (cs : List Char) :
    indentFollowing n (indentFollowing m cs) = indentFollowing (m + n) cs ∧
      dropFinalNewline (indentFollowing n cs) = indentFollowing n (dropFinalNewline cs) ∧
      outdentFollowing n (indentFollowing n cs) = cs ∧
      (firstLine (indentFollowing n cs)).1 = (firstLine cs).1 ∧
      List.Forall₂
        (fun l moved => moved = if l.all isBlank then l else List.replicate n ' ' ++ l)
        (lines (firstLine cs).2) (lines (firstLine (indentFollowing n cs)).2) := by
  refine ⟨indentFollowing_indentFollowing m n cs, dropFinalNewline_indentFollowing n cs,
    outdentFollowing_indentFollowing n cs, ?_, ?_⟩
  · rw [firstLine_indentFollowing]
  · rw [firstLine_indentFollowing, lines_indentLines, List.forall₂_map_right_iff]
    exact List.forall₂_same.2 fun l _ => rfl

example :
    indentFollowing 2 "a\rb\nc\r\r\n \u2028d".toList = "a\rb\n  c\r\r\n \u2028  d".toList := by
  decide

end Stencil.Text
