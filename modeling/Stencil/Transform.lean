import Stencil.Compile

set_option autoImplicit false

/-!
# Transforming templates

A template is cut into tokens, built into a tree and compiled; components are transformed in the
same way, in a frame of their own. A template that may only be used as a component ends its own
transformation without a result.
-/

namespace Stencil.Transform

open Template

def warnUnclosed (forest : Forest) : Eval Unit :=
  match forest.warning? with
  | some warning => Eval.record .warning warning
  | none => return

def parse (dialect : Dialect) (contents : String) : Eval (List Node) := do
  let tokens ← Eval.ofExcept (Token.ofText dialect.tags contents)
  Eval.record .debug ("Tokenized text of length " ++ toString contents.length ++ " into " ++
    toString tokens.length ++ " tokens")
  let forest ← Eval.ofExcept (Forest.ofTokens dialect.tags tokens)
  warnUnclosed forest
  Eval.record .debug ("Parsed " ++ toString tokens.length ++ " tokens into " ++
    toString forest.roots.length ++ " root nodes")
  return forest.roots

def currentFile : Eval (Option String) := do
  match (← Eval.scope).currentPath with
  | none => return none
  | some (.str s) => return some s
  | some _ => throw .notAPath

def noteDiscarded (arguments : Arguments) : Eval Unit :=
  match arguments.discarded with
  | some type => Eval.record .debug ("Render variables parsed as JSON but not an object: " ++ type)
  | none => return

/-- The component that a `render` directive names, and the frame that it is compiled in. -/
def component (settings : Settings) (parameters : Option String) (indentation : Nat) :
    Eval (Component × Frame) := do
  let call ← Eval.ofExcept (RenderCall.ofParameters parameters)
  noteDiscarded call.arguments
  Eval.ofExcept (Arguments.checkReserved call.arguments.bindings)
  let current ← currentFile
  let found ← Eval.ofExcept
    (Component.load settings.files current call.component indentation settings.extension)
  Eval.record .debug ("Loaded component '" ++ call.component ++ "' from " ++ found.path ++
    " (indent=" ++ toString indentation ++ ")")
  return (found,
    Mapping.insert (.str Scope.pathName) (.str found.path) call.arguments.bindings)

/-- Puts a component in the place of a `render` directive; `inner` compiles its text. -/
def render (settings : Settings) (inner : String → Eval (List Residual))
    (parameters : Option String) (indentation : Nat) : Eval (List Residual) := do
  let (found, frame) ← component settings parameters indentation
  Eval.withFrame frame (inner found.contents)

def maxNesting : Nat := 1000

def env (settings : Settings) (inner : String → Eval (List Residual)) : Compile.Env where
  dialect := settings.dialect
  render := render settings inner

/-- Compiles a text, with components nested at most `depth` deep. -/
def contentsWithin (settings : Settings) : Nat → String → Eval (List Residual)
  | 0, _ => throw .nestedTooDeeply
  | depth + 1, text => do
    let roots ← parse settings.dialect text
    Compile.nodes (env settings (contentsWithin settings depth)) roots

def contents (settings : Settings) (text : String) : Eval (List Residual) :=
  contentsWithin settings maxNesting text

def tree (settings : Settings) (roots : List Node) : Eval (List Residual) :=
  Compile.nodes (env settings (contents settings)) roots

def cancellable {α : Type} (path : Option String) (act : Eval α) : Eval (Option α) :=
  tryCatch (some <$> act) fun failure =>
    match failure with
    | .cancelled => do
      let shown := match path with
        | some p => if p.isEmpty then "<string>" else p
        | none => "<string>"
      Eval.record .debug ("Transformation cancelled for " ++ shown)
      return none
    | failure => throw failure

/-- Transforms a template. On an empty scope, defaults of the template live in a frame that is
gone afterwards. -/
def template (settings : Settings) (path : Option String) (text : String) :
    Eval (Option (List Residual)) := do
  if path.isSome then
    modify fun s => { s with scope := { s.scope with basePath := path } }
  let scope ← Eval.scope
  cancellable path
    (if scope.frames.isEmpty then Eval.withFrame [] (contents settings text)
      else contents settings text)

def output (settings : Settings) (shown : Bool) (path : Option String) (text : String) :
    Eval (Option String) := do
  let result ← template settings path text
  return result.map (Residual.renderAll settings.dialect.fragments shown)

end Stencil.Transform
