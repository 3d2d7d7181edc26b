import Stencil.Residual

set_option autoImplicit false

/-!
# Running residual templates

A residual template is a program of the target language. `Residual.run` executes it: a variable
prints the text of its value, the branches of a condition are decided in order, and pieces of the
target language that a dialect adds are printed as they are.
-/

namespace Stencil

/-- What a residual template meets when it runs: a value for every name, and what is printed for
a comment, given what its body prints. -/
structure Runtime where
  value : String → Value
  comment : Except Failure String → Except Failure String

namespace Runtime

def decides (rt : Runtime) (c : Condition) : Except Failure Bool :=
  (rt.value c.name).fulfils c.comparison

def choose (rt : Runtime) (c : Condition) (yes no : Except Failure String) :
    Except Failure String :=
  match rt.decides c with
  | .ok true => yes
  | .ok false => no
  | .error f => .error f

theorem choose_true {rt : Runtime} {c : Condition} (h : rt.decides c = .ok true)
    (yes no : Except Failure String) : rt.choose c yes no = yes := by
  rw [choose, h]

theorem choose_false {rt : Runtime} {c : Condition} (h : rt.decides c = .ok false)
    (yes no : Except Failure String) : rt.choose c yes no = no := by
  rw [choose, h]

end Runtime

def joinTexts (first others : Except Failure String) : Except Failure String := do
  let a ← first
  let b ← others
  return a ++ b

namespace Residual

mutual

def run (rt : Runtime) : Residual → Except Failure String
  | text value => .ok value
  | echo name => (rt.value name).stringify
  | cond first body further otherwise =>
    rt.choose first (runAll rt body) (runFurther rt (runElse rt otherwise) further)
  | ifNot name body otherwise =>
    if (rt.value name).truthy then runElse rt otherwise else runAll rt body
  | comment body => rt.comment (runAll rt body)
  | native before body after => joinTexts (joinTexts (.ok before) (runAll rt body)) (.ok after)

def runAll (rt : Runtime) : List Residual → Except Failure String
  | [] => .ok ""
  | r :: rs => joinTexts (run rt r) (runAll rt rs)

/-- What the later branches of a condition print, and `final` if none of them holds. -/
def runFurther (rt : Runtime) (final : Except Failure String) :
    List (Condition × List Residual) → Except Failure String
  | [] => final
  | (c, body) :: rest => rt.choose c (runAll rt body) (runFurther rt final rest)

def runElse (rt : Runtime) : Option (List Residual) → Except Failure String
  | none => .ok ""
  | some body => runAll rt body

end

end Residual

theorem joinTexts_assoc (a b c : Except Failure String) :
    joinTexts (joinTexts a b) c = joinTexts a (joinTexts b c) := by
  rcases a with _ | a
  · rfl
  · rcases b with _ | b
    · rfl
    · rcases c with _ | c
      · rfl
      · exact congrArg Except.ok String.append_assoc

@[simp]
theorem joinTexts_empty (a : Except Failure String) : joinTexts a (.ok "") = a := by
  rcases a with _ | a
  · rfl
  · exact congrArg Except.ok String.append_empty

@[simp]
theorem empty_joinTexts (a : Except Failure String) : joinTexts (.ok "") a = a := by
  rcases a with _ | a
  · rfl
  · exact congrArg Except.ok String.empty_append

namespace Residual

theorem runAll_append (rt : Runtime) (as bs : List Residual) :
    runAll rt (as ++ bs) = joinTexts (runAll rt as) (runAll rt bs) := by
  induction as with
  | nil => rw [List.nil_append, runAll, empty_joinTexts]
  | cons a as ih => rw [List.cons_append, runAll, runAll, ih, joinTexts_assoc]

@[simp]
theorem runAll_singleton (rt : Runtime) (r : Residual) : runAll rt [r] = run rt r := by
  rw [runAll, runAll, joinTexts_empty]

end Residual

end Stencil
