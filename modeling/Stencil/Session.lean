import Stencil.Failure
import Stencil.Scope

set_option autoImplicit false

/-!
# Sessions

What a compilation changes: the scope, and the log it writes. Both survive a failure, so a
computation gives its result or failure together with the session it leaves behind.
-/

namespace Stencil

inductive Level
  | debug
  | info
  | warning
  deriving Repr, DecidableEq

structure LogEntry where
  level : Level
  message : String
  deriving Repr, DecidableEq

/-- The scope and the log, whose latest entry stands first. -/
structure Session where
  scope : Scope
  log : List LogEntry

abbrev Eval (α : Type) := ExceptT Failure (StateM Session) α

namespace Session

def empty : Session := ⟨.empty, []⟩

def record (level : Level) (message : String) (s : Session) : Session :=
  { s with log := ⟨level, message⟩ :: s.log }

def push (frame : Frame) (s : Session) : Session :=
  let scope := s.scope.push frame
  { s with scope }.record .debug
    ("Pushed scope frame #" ++ toString scope.depth ++ " with " ++ toString frame.length ++ " keys")

def pop (s : Session) : Frame × Session :=
  if s.scope.frames.isEmpty then ([], s)
  else
    let (frame, scope) := s.scope.pop
    (frame, { s with scope }.record .debug
      ("Popped scope frame #" ++ toString s.scope.depth))

/-- The warnings of a log, in the order in which they were given. -/
def warnings (s : Session) : List String :=
  (s.log.reverse.filter fun e => e.level == .warning).map LogEntry.message

end Session

namespace Eval

def outcome {α : Type} (act : Eval α) (s : Session) : Except Failure α × Session :=
  act.run.run s

def ofExcept {α : Type} (e : Except Failure α) : Eval α :=
  ExceptT.mk (pure e)

def scope : Eval Scope :=
  return (← get).scope

def record (level : Level) (message : String) : Eval Unit :=
  modify (Session.record level message)

/-- Runs a computation in a scope with one more frame. However it ends, the scope has no more
frames afterwards than before. -/
def withFrame {α : Type} (frame : Frame) (act : Eval α) : Eval α :=
  ExceptT.mk fun s =>
    let (result, s') := act.outcome (s.push frame)
    (result, { s' with scope := s'.scope.truncate s.scope.depth })

end Eval

end Stencil
