import Stencil.Template.Name
import Stencil.Template.Tag

set_option autoImplicit false

/-!
# Lexemes

A template is cut from left to right into tags between `{%` and `%}`, variables between `{` `{`
and `}` `}`, and the text between them. A dash next to a delimiter asks for the white space on
that side to be trimmed. What looks like a tag or a variable but is none belongs to the text.
-/

namespace Stencil.Template

inductive Lexeme
  | text (value : List Char)
  | interpolation (trimBefore trimAfter : Bool) (name : List Char)
  | tag (trimBefore trimAfter : Bool) (name : List Char) (parameters : Option (List Char))
  deriving Repr, DecidableEq

namespace Lexeme

def untilTagEnd : List Char → Option (List Char × List Char)
  | [] => none
  | '%' :: '}' :: rest => some ([], rest)
  | c :: cs => (untilTagEnd cs).map fun (inside, rest) => (c :: inside, rest)

def dropDash (cs : List Char) : List Char × Bool :=
  if cs.getLast? = some '-' then (cs.dropLast, true) else (cs, false)

def parametersOf (inside : List Char) : Option (List Char) :=
  match Text.trim inside with
  | [] => none
  | p => some p

/-- Reads from behind a tag's name to the end of the tag: the end itself, or a blank with any
parameters after it. -/
def tagTail? : List Char → Option (Option (List Char) × Bool × List Char)
  | '-' :: '%' :: '}' :: rest => some (none, true, rest)
  | '%' :: '}' :: rest => some (none, false, rest)
  | [] => none
  | c :: cs =>
    if Text.isBlank c then
      (untilTagEnd (c :: cs)).map fun (inside, rest) =>
        (parametersOf (dropDash inside).1, (dropDash inside).2, rest)
    else none

/-- A tag recognised behind its opening: name, parameters, whether to trim after it, the rest. -/
abbrev TagReading := List Char × Option (List Char) × Bool × List Char

def behind? : List Char → List Char → Option (List Char)
  | [], cs => some cs
  | _ :: _, [] => none
  | p :: ps, c :: cs => if p = c then behind? ps cs else none

/-- Reads the tag of one name, which no word character may continue. -/
def tagNamed? (cs name : List Char) : Option TagReading :=
  match behind? name cs with
  | none => none
  | some rest =>
    if (rest.head?.map Text.isWord).getD false then none
    else (tagTail? rest).map fun (parameters, trimAfter, rest) =>
      (name, parameters, trimAfter, rest)

def longerReading : Option TagReading → Option TagReading → Option TagReading
  | none, r => r
  | r, none => r
  | some a, some b => if a.1.length < b.1.length then some b else some a

/-- The tag with the longest name that can be read here. -/
def anyTag? (names : List (List Char)) (cs : List Char) : Option TagReading :=
  names.foldl (fun best name => longerReading best (tagNamed? cs name)) none

/-- The texts left after dropping some leading blanks, from all of them down to none. -/
def blankDrops : List Char → List (List Char)
  | [] => [[]]
  | c :: cs => if Text.isBlank c then blankDrops cs ++ [c :: cs] else [c :: cs]

def spacedTag? (names : List (List Char)) (cs : List Char) : Option TagReading :=
  (blankDrops cs).findSome? (anyTag? names)

def tag? (names : List (List Char)) (cs : List Char) : Option (Lexeme × List Char) :=
  let plain := (spacedTag? names cs).map fun (name, parameters, after, rest) =>
    (tag false after name parameters, rest)
  match cs with
  | '-' :: inner =>
    match spacedTag? names inner with
    | some (name, parameters, after, rest) => some (tag true after name parameters, rest)
    | none => plain
  | _ => plain

def variableEnd? : List Char → Option (Bool × List Char)
  | '-' :: '}' :: '}' :: rest => some (true, rest)
  | '}' :: '}' :: rest => some (false, rest)
  | _ => none

def variableFrom? (before : Bool) (cs : List Char) : Option (Lexeme × List Char) :=
  match name? (Text.trimStart cs) with
  | none => none
  | some (name, rest) =>
    (variableEnd? (Text.trimStart rest)).map fun (after, rest) =>
      (interpolation before after name, rest)

def interpolation? : List Char → Option (Lexeme × List Char)
  | '-' :: cs => variableFrom? true cs
  | cs => variableFrom? false cs

def startsDelimiter : List Char → Bool
  | '{' :: '%' :: _ => true
  | '{' :: '{' :: _ => true
  | _ => false

def spanText : List Char → List Char × List Char
  | [] => ([], [])
  | c :: cs =>
    if startsDelimiter (c :: cs) then ([], c :: cs)
    else (c :: (spanText cs).1, (spanText cs).2)

/-- A text takes at least one character, a delimiter that begins nothing included. -/
def scanText (c : Char) (cs : List Char) : Lexeme × List Char :=
  (text (c :: (spanText cs).1), (spanText cs).2)

def scan (names : List (List Char)) (c : Char) (cs : List Char) : Lexeme × List Char :=
  match c, cs with
  | '{', '%' :: inner => (tag? names inner).getD (scanText c cs)
  | '{', '{' :: inner => (interpolation? inner).getD (scanText c cs)
  | _, _ => scanText c cs

theorem untilTagEnd_length {cs inside rest : List Char}
    (h : untilTagEnd cs = some (inside, rest)) : rest.length ≤ cs.length := by
  fun_induction untilTagEnd cs generalizing inside rest with
  | case1 => simp at h
  | case2 r =>
    simp only [Option.some.injEq, Prod.mk.injEq] at h
    simp only [← h.2, List.length_cons]
    omega
  | case3 c cs _ ih =>
    obtain ⟨⟨i, r⟩, hr, he⟩ := Option.map_eq_some_iff.1 h
    simp only [Prod.mk.injEq] at he
    have := ih hr
    simp only [← he.2, List.length_cons]
    omega

theorem tagTail?_length {cs rest : List Char} {p : Option (List Char)} {after : Bool}
    (h : tagTail? cs = some (p, after, rest)) : rest.length ≤ cs.length := by
  unfold tagTail? at h
  split at h
  · simp only [Option.some.injEq, Prod.mk.injEq] at h
    simp only [← h.2.2, List.length_cons]
    omega
  · simp only [Option.some.injEq, Prod.mk.injEq] at h
    simp only [← h.2.2, List.length_cons]
    omega
  · simp at h
  · split at h
    · obtain ⟨⟨i, r⟩, hr, he⟩ := Option.map_eq_some_iff.1 h
      simp only [Prod.mk.injEq] at he
      exact he.2.2 ▸ untilTagEnd_length hr
    · simp at h

theorem append_of_behind? {name cs rest : List Char} (h : behind? name cs = some rest) :
    name ++ rest = cs := by
  fun_induction behind? name cs with
  | case1 => simp_all
  | case2 => simp at h
  | case3 p ps cs ih => simp [ih h]
  | case4 => simp at h

theorem tagNamed?_length {cs name : List Char} {r : TagReading}
    (h : tagNamed? cs name = some r) : r.2.2.2.length ≤ cs.length := by
  unfold tagNamed? at h
  split at h
  · simp at h
  · rename_i rest hp
    split at h
    · simp at h
    · obtain ⟨⟨p, a, q⟩, hq, he⟩ := Option.map_eq_some_iff.1 h
      have := tagTail?_length hq
      have hl : name ++ rest = cs := append_of_behind? hp
      simp only [← he, ← hl, List.length_append]
      omega

theorem longerReading_eq_or (a b : Option TagReading) :
    longerReading a b = a ∨ longerReading a b = b := by
  unfold longerReading
  split
  · exact .inr rfl
  · exact .inl rfl
  · split
    · exact .inr rfl
    · exact .inl rfl

theorem anyTag?_length {names : List (List Char)} {cs : List Char} {r : TagReading}
    (h : anyTag? names cs = some r) : r.2.2.2.length ≤ cs.length := by
  suffices ∀ best : Option TagReading, (∀ r, best = some r → r.2.2.2.length ≤ cs.length) →
      ∀ r, names.foldl (fun best name => longerReading best (tagNamed? cs name)) best = some r →
        r.2.2.2.length ≤ cs.length from this none (by simp) r h
  clear h r
  induction names with
  | nil => exact fun _ hb => hb
  | cons name names ih =>
    intro best hb
    refine ih _ fun r hr => ?_
    rcases longerReading_eq_or best (tagNamed? cs name) with he | he
    · exact hb r (he.symm.trans hr)
    · exact tagNamed?_length (he.symm.trans hr)

theorem blankDrops_length {cs d : List Char} (h : d ∈ blankDrops cs) : d.length ≤ cs.length := by
  induction cs with
  | nil => simp_all [blankDrops]
  | cons c cs ih =>
    unfold blankDrops at h
    split at h
    · rcases List.mem_append.1 h with h | h
      · exact Nat.le_succ_of_le (ih h)
      · simp_all
    · simp_all

theorem spacedTag?_length {names : List (List Char)} {cs : List Char} {r : TagReading}
    (h : spacedTag? names cs = some r) : r.2.2.2.length ≤ cs.length := by
  obtain ⟨d, hd, hr⟩ := List.exists_of_findSome?_eq_some h
  exact Nat.le_trans (anyTag?_length hr) (blankDrops_length hd)

theorem tag?_length {names : List (List Char)} {cs rest : List Char} {l : Lexeme}
    (h : tag? names cs = some (l, rest)) : rest.length ≤ cs.length := by
  have plain : ∀ {rest l}, (spacedTag? names cs).map (fun (name, parameters, after, rest) =>
      (tag false after name parameters, rest)) = some (l, rest) → rest.length ≤ cs.length := by
    intro rest l h
    obtain ⟨⟨n, p, a, r⟩, hr, he⟩ := Option.map_eq_some_iff.1 h
    simp only [Prod.mk.injEq] at he
    exact he.2 ▸ spacedTag?_length hr
  unfold tag? at h
  split at h
  · split at h
    · rename_i hs
      simp only [Option.some.injEq, Prod.mk.injEq] at h
      exact h.2 ▸ Nat.le_succ_of_le (spacedTag?_length hs)
    · exact plain h
  · exact plain h

theorem variableEnd?_length {cs rest : List Char} {after : Bool}
    (h : variableEnd? cs = some (after, rest)) : rest.length ≤ cs.length := by
  unfold variableEnd? at h
  split at h
  · simp only [Option.some.injEq, Prod.mk.injEq] at h
    simp only [← h.2, List.length_cons]
    omega
  · simp only [Option.some.injEq, Prod.mk.injEq] at h
    simp only [← h.2, List.length_cons]
    omega
  · simp at h

theorem variableFrom?_length {before : Bool} {cs rest : List Char} {l : Lexeme}
    (h : variableFrom? before cs = some (l, rest)) : rest.length ≤ cs.length := by
  unfold variableFrom? at h
  split at h
  · simp at h
  · rename_i name r hn
    obtain ⟨⟨a, q⟩, hq, he⟩ := Option.map_eq_some_iff.1 h
    simp only [Prod.mk.injEq] at he
    have h1 := variableEnd?_length hq
    have h2 := Text.trimStart_length_le r
    have h3 : name.length + r.length ≤ cs.length := by
      rw [← List.length_append, append_of_name? hn]
      exact Text.trimStart_length_le cs
    rw [← he.2]
    omega

theorem interpolation?_length {cs rest : List Char} {l : Lexeme}
    (h : interpolation? cs = some (l, rest)) : rest.length ≤ cs.length := by
  unfold interpolation? at h
  split at h
  · exact Nat.le_succ_of_le (variableFrom?_length h)
  · exact variableFrom?_length h

theorem spanText_length (cs : List Char) : (spanText cs).2.length ≤ cs.length := by
  induction cs with
  | nil => simp [spanText]
  | cons c cs ih =>
    unfold spanText
    split
    · simp
    · exact Nat.le_succ_of_le ih

theorem scan_length (names : List (List Char)) (c : Char) (cs : List Char) :
    (scan names c cs).2.length < (c :: cs).length := by
  have text : (scanText c cs).2.length < (c :: cs).length :=
    Nat.lt_succ_of_le (spanText_length cs)
  unfold scan
  split
  · rename_i inner
    cases h : tag? names inner with
    | none => exact text
    | some r =>
      have := @tag?_length names inner r.2 r.1 h
      simp only [Option.getD_some, List.length_cons]
      omega
  · rename_i inner
    cases h : interpolation? inner with
    | none => exact text
    | some r =>
      have := @interpolation?_length inner r.2 r.1 h
      simp only [Option.getD_some, List.length_cons]
      omega
  · exact text

/-- The lexemes of a text, each with the stretch of text it was read from. -/
def all (names : List (List Char)) : List Char → List (Lexeme × List Char)
  | [] => []
  | c :: cs =>
    let read := scan names c cs
    (read.1, (c :: cs).take ((c :: cs).length - read.2.length)) :: all names read.2
termination_by cs => cs.length
decreasing_by exact scan_length names c cs

end Lexeme

end Stencil.Template
