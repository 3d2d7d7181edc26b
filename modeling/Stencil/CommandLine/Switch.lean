import Stencil.Text.Digit
import Stencil.Text.Lines

set_option autoImplicit false

/-!
# Switches

The words of a command line are operands and switches. A switch may be cut short as long as only
one spelling begins that way, which is asked of all words before any of them counts. Its value
follows as the next word, behind an equals sign or, after a single letter, directly. Letters of
switches without values may share one dash. Words that look like switches cannot be values.
-/

namespace Stencil.CommandLine

inductive Meaning (α : Type)
  | flag (a : α)
  | valued (f : String → α)

structure Switch (α : Type) where
  spellings : List String
  meaning : Meaning α

inductive Form (α : Type)
  | operand
  | switch (meaning : Meaning α) (value : Option String)
  | cluster (meaning : Meaning α) (tail : List Char)
  | ambiguous
  | unknown

/-- What a word does, with the words after it in view: its settings, how many of those words they
take, and whether letters of it are left over. -/
inductive Step (α : Type)
  | operand
  | settings (given : List α) (taken : Nat) (left : Bool)
  | stray
  | misuse

section

variable {α : Type}

def spelled? (switches : List (Switch α)) (w : List Char) : Option (Meaning α) :=
  (switches.find? fun s => s.spellings.any fun sp => sp.toList == w).map Switch.meaning

def beginning (switches : List (Switch α)) (start : List Char) : List (Meaning α) :=
  switches.flatMap fun s =>
    (s.spellings.filter fun sp => start.isPrefixOf sp.toList).map fun _ => s.meaning

def isNegativeNumber (w : List Char) : Bool :=
  match Text.dropFinalNewline w with
  | '-' :: cs =>
    match cs.dropWhile Text.isDigit with
    | [] => !cs.isEmpty
    | '.' :: fraction => !fraction.isEmpty && fraction.all Text.isDigit
    | _ => false
  | _ => false

def Form.ofDashed (switches : List (Switch α)) (w : List Char) (c : Char) (tail : List Char) :
    Form α :=
  let name := w.takeWhile (· != '=')
  let value := (w.dropWhile (· != '=')).tail?.map String.ofList
  match value, spelled? switches name with
  | some v, some m => .switch m (some v)
  | _, _ =>
    match c == '-', beginning switches name, spelled? switches ['-', c] with
    | true, [m], _ => .switch m value
    | true, _ :: _ :: _, _ => .ambiguous
    | false, _, some m => .cluster m tail
    | _, _, _ => if isNegativeNumber w || w.contains ' ' then .operand else .unknown

def Form.ofWord (switches : List (Switch α)) (w : String) : Form α :=
  match w.toList with
  | ['-'] => .operand
  | '-' :: c :: tail =>
    match spelled? switches ('-' :: c :: tail) with
    | some m => .switch m none
    | none => .ofDashed switches ('-' :: c :: tail) c tail
  | _ => .operand

def Form.isAmbiguous : Form α → Bool
  | .ambiguous => true
  | _ => false

/-- Whether a word is cut too short. Words behind two dashes are not looked at. -/
def anyAmbiguous (switches : List (Switch α)) (words : List String) : Bool :=
  (words.takeWhile (· != "--")).any fun w => (Form.ofWord switches w).isAmbiguous

def value? (switches : List (Switch α)) : List String → Option String
  | [] => none
  | v :: _ =>
    if v = "--" then none
    else
      match Form.ofWord switches v with
      | .operand => some v
      | _ => none

/-- A switch whose value, if it has one, is the next word. -/
def Meaning.apart (switches : List (Switch α)) (rest : List String) : Meaning α → Step α
  | .flag a => .settings [a] 0 false
  | .valued f =>
    match value? switches rest with
    | some v => .settings [f v] 1 false
    | none => .misuse

/-- A switch with a value in the same word. -/
def Meaning.attached (v : String) : Meaning α → Step α
  | .flag _ => .misuse
  | .valued f => .settings [f v] 0 false

def Step.after (a : α) : Step α → Step α
  | .settings given taken left => .settings (a :: given) taken left
  | s => s

def Step.ofCluster (switches : List (Switch α)) (rest : List String) :
    Meaning α → List Char → Step α
  | m, [] => m.apart switches rest
  | .valued f, c :: tail => .settings [f (String.ofList (c :: tail))] 0 false
  | .flag a, c :: tail =>
    if c == '-' then .misuse
    else
      match spelled? switches ['-', c], tail with
      | none, _ => .settings [a] 0 true
      | some m, '=' :: v => (m.attached (String.ofList v)).after a
      | some m, tail => (Step.ofCluster switches rest m tail).after a

def Step.ofWord (switches : List (Switch α)) (w : String) (rest : List String) : Step α :=
  match Form.ofWord switches w with
  | .operand => .operand
  | .switch m none => m.apart switches rest
  | .switch m (some v) => m.attached v
  | .cluster m tail => .ofCluster switches rest m tail
  | .ambiguous => .misuse
  | .unknown => .stray

end

inductive Event (α : Type)
  | setting (a : α)
  | operand (w : String)
  | stray
  | misuse

/-- Reads words in order. Two dashes make operands of all words after them, and are themselves
part of the operand they stand beside; operands that are not wanted are stray. -/
def events {α : Type} (switches : List (Switch α)) (wanted : Bool) (words : List String) :
    List (Event α) :=
  match words with
  | [] => []
  | w :: rest =>
    if w = "--" then
      match wanted, rest with
      | true, v :: more => .operand v :: more.map fun _ => .stray
      | _, _ => [.stray]
    else
      match Step.ofWord switches w rest with
      | .operand =>
        if !wanted then .stray :: events switches false rest
        else if rest.head? = some "--" then .operand w :: rest.tail.map fun _ => .stray
        else .operand w :: events switches false rest
      | .settings given taken left =>
        given.map .setting ++ ((if left then [.stray] else []) ++
          events switches wanted (rest.drop taken))
      | .stray => .stray :: events switches wanted rest
      | .misuse => [.misuse]
termination_by words.length
decreasing_by
  all_goals simp only [List.length_cons, List.length_drop]; omega

def Event.ofWords {α : Type} (switches : List (Switch α)) (words : List String) :
    List (Event α) :=
  if anyAmbiguous switches words then [.misuse] else events switches true words

end Stencil.CommandLine
