import Stencil.Residual
import Stencil.Template.Tag

set_option autoImplicit false

/-!
# Dialects

A dialect is a target language: how it spells a residual template, and the directives of its own
beside those that all dialects share.
-/

namespace Stencil

/-- A directive that one dialect adds. Its output is a piece of the target language, around the
body if the directive opens a scope. -/
structure Extension where
  kind : String
  opens : Bool
  /-- What is missing when the directive has no parameters, if it needs any. -/
  required : Option String
  before : String → String
  after : String

structure Dialect where
  name : String
  fragments : Fragments
  extensions : List Extension

inductive Directive
  | text
  | echo
  | cond
  | ifNot
  | loop
  | render
  | metadata
  | comment
  deriving Repr, DecidableEq

namespace Directive

def ofKind? : String → Option Directive
  | "text" => some text
  | "variable" => some echo
  | "if" => some cond
  | "unless" => some ifNot
  | "for" => some loop
  | "render" => some render
  | "meta" => some metadata
  | "comment" => some comment
  | _ => none

def kind : Directive → String
  | text => "text"
  | echo => "variable"
  | cond => "if"
  | ifNot => "unless"
  | loop => "for"
  | render => "render"
  | metadata => "meta"
  | comment => "comment"

theorem ofKind?_eq_some {kind : String} {d : Directive} :
    ofKind? kind = some d ↔ kind = d.kind := by
  constructor
  · intro h
    unfold ofKind? at h
    split at h <;> first
      | exact Option.some.inj h ▸ rfl
      | simp at h
  · rintro rfl
    cases d <;> rfl

end Directive

namespace Extension

open Template in
def tags (e : Extension) : List Tag :=
  if e.opens then [.opening e.kind, .closing ("end" ++ e.kind)] else [.single e.kind]

end Extension

namespace Dialect

def tags (d : Dialect) : List Template.Tag :=
  Template.Tag.shared ++ d.extensions.flatMap Extension.tags

def extension? (d : Dialect) (kind : String) : Option Extension :=
  d.extensions.find? fun e => e.kind == kind

end Dialect

/-- The literal that parameters hold, or the parameters themselves. -/
def unquoted (parameters : String) : String :=
  String.ofList (Text.unescape parameters.toList)

end Stencil
