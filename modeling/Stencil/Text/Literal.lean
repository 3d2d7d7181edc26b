set_option autoImplicit false

/-!
# Quoted literals in directives

A literal stands between two quotes of one kind. Inside it a backslash in front of that quote
keeps the quote in, and two backslashes are one; any other backslash stands for itself.
-/

namespace Stencil.Text

def isQuote (c : Char) : Bool :=
  c == '\'' || c == '"'

def replacePair (a b by' : Char) : List Char → List Char
  | x :: y :: rest =>
    if x == a && y == b then by' :: replacePair a b by' rest
    else x :: replacePair a b by' (y :: rest)
  | cs => cs

/-- The text inside two quotes of one kind; anything else is left alone. -/
def unescape (cs : List Char) : List Char :=
  match cs with
  | q :: c :: rest =>
    if isQuote q && (c :: rest).getLast? == some q then
      replacePair '\\' '\\' '\\' (replacePair '\\' q q (c :: rest).dropLast)
    else cs
  | _ => cs

def escapeWith (q : Char) : List Char → List Char
  | [] => []
  | c :: cs =>
    if c == '\\' || c == q then '\\' :: c :: escapeWith q cs else c :: escapeWith q cs

/-- Reads the inside of a literal up to its closing quote. A backslash takes the character after
it along; `newlines` tells whether that may be a line feed. -/
def literalBody? (newlines : Bool) (q : Char) : List Char → Option (List Char × List Char)
  | [] => none
  | '\\' :: c :: rest =>
    if c == '\n' && !newlines then none
    else (literalBody? newlines q rest).map fun (s, r) => ('\\' :: c :: s, r)
  | c :: rest =>
    if c == q then some ([], rest)
    else if c == '\\' then none
    else (literalBody? newlines q rest).map fun (s, r) => (c :: s, r)

def literal? (newlines : Bool) : List Char → Option (List Char × List Char)
  | q :: rest =>
    if isQuote q then
      (literalBody? newlines q rest).map fun (s, r) => (q :: s ++ [q], r)
    else none
  | [] => none

end Stencil.Text
