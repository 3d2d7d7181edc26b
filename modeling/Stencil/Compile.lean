import Stencil.Component
import Stencil.Dialect.Basic
import Stencil.Meta
import Stencil.RenderCall
import Stencil.Session
import Stencil.Template.Forest

set_option autoImplicit false

/-!
# Compiling templates

Compilation evaluates what the scope knows and leaves the rest to the runtime, as a residual
template. Names that are known are replaced by their values, conditions on them are decided,
loops are unrolled and components are put in place.
-/

namespace Stencil

open Template

structure Settings where
  dialect : Dialect
  extension : String
  files : FileTree

namespace Compile

/-- Leaves a variable to the runtime, or puts in the text of its value. Variables named in a text
are replaced once; a text that names its own variable leaves it to the runtime. -/
def echoText (scope : Scope) (owner : String) : Lexeme → Except Failure Residual
  | .interpolation _ _ name =>
    let nested := String.ofList name
    if nested = owner then .ok (.echo nested)
    else
      match scope.lookup? nested with
      | some v => v.stringify.map .text
      | none => .ok (.echo nested)
  | .text value => .ok (.text (String.ofList value))
  | .tag _ _ name _ => .ok (.text (String.ofList name))

def echo (parameters : Option String) : Eval (List Residual) := do
  let name := parameters.getD ""
  let scope ← Eval.scope
  match scope.lookup? name with
  | none => return [.echo name]
  | some (.str s) =>
    Eval.ofExcept ((Lexeme.all [] s.toList).mapM fun l => echoText scope name l.1)
  | some v => return [.text (← Eval.ofExcept v.stringify)]

def loopNames? (cs : List Char) : Option (String × String) :=
  let item := cs.takeWhile Text.isWord
  let rest := cs.dropWhile Text.isWord
  let keyword := Text.trimStart rest
  if item.isEmpty || keyword.length == rest.length then none
  else
    match keyword with
    | 'i' :: 'n' :: rest =>
      let collection := Text.trimStart rest
      if collection.length == rest.length || !isName collection then none
      else some (String.ofList item, String.ofList collection)
    | _ => none

def loopItems (parameters : Option String) : Eval (String × String × List Value) := do
  match loopNames? (Text.trim (parameters.getD "").toList) with
  | none => throw (.directive (.invalidFor parameters))
  | some (item, collection) =>
    let scope ← Eval.scope
    let v := (scope.lookup? collection).getD .null
    match v.items? with
    | some items => return (item, collection, items)
    | none =>
      let type := match v with
        | .null => "undefined"
        | v => v.typeName
      throw (.notAnArray collection type ((scope.currentPath.filter Value.filled).map Value.text))

def unrolled (item collection : String) (items : List Value) : Eval Unit :=
  Eval.record .debug ("Unrolled for '" ++ item ++ "' over '" ++ collection ++ "' (" ++
    toString items.length ++ " items)")

/-- Runs the body of a loop for one item, in a frame that binds the item alone. -/
def forItem (item : String) (body : Eval (List Residual)) (v : Value) : Eval (List Residual) := do
  let frame ← Eval.ofExcept (Frame.expand (.str item) v [])
  Eval.withFrame frame body

def forEach (item collection : String) (items : List Value) (body : Eval (List Residual)) :
    Eval (List Residual) := do
  let parts ← items.mapM (forItem item body)
  unrolled item collection items
  return parts.flatten

def loop (parameters : Option String) (body : Eval (List Residual)) : Eval (List Residual) := do
  let (item, collection, items) ← loopItems parameters
  forEach item collection items body

/-- Makes the defaults of a `meta` directive known in the innermost frame, those of names that
had no value when the directive was met. Their keys are texts, so all their parts can be named. -/
def bindDefaults (defaults : Mapping) (scope : Scope) : Scope :=
  match scope.frames with
  | [] => scope
  | frame :: rest =>
    let new := defaults.filter fun (k, _) => !(scope.frames.any (Mapping.contains k))
    { scope with frames := new.foldl (fun f (k, v) => Frame.bind k v f) frame :: rest }

def metadata (parameters : Option String) : Eval (List Residual) := do
  let data ← Eval.ofExcept (Meta.ofParameters parameters)
  let scope ← Eval.scope
  if data.childOnly && scope.atRoot then throw .cancelled
  Eval.ofExcept (Arguments.checkReserved data.defaults)
  if scope.frames.isEmpty then
    Eval.record .debug "No scope frame to receive meta defaults"
  else
    modify fun s => { s with scope := bindDefaults data.defaults s.scope }
  return []

def argument (e : Extension) (parameters : Option String) : Except Failure String :=
  let given := parameters.getD ""
  match e.required with
  | some what => if given.isEmpty then .error (.directive (.missingArgument what)) else .ok given
  | none => .ok given

def unlessName (parameters : Option String) : Except Failure String := do
  let condition ← Condition.ofParameters parameters
  if condition.comparison.isSome then
    throw (.directive (.unlessComparison parameters))
  return condition.name

structure Env where
  dialect : Dialect
  render : Option String → Nat → Eval (List Residual)

/-- Compiles a directive that has no body. One that works on a body fails where it would. -/
def leaf (env : Env) (kind : String) (parameters : Option String) (indentation : Nat) :
    Eval (List Residual) := do
  match env.dialect.extension? kind with
  | some e =>
    let given ← Eval.ofExcept (argument e parameters)
    if e.opens then throw .missingPart
    return [.native (e.before given) [] e.after]
  | none =>
    match Directive.ofKind? kind with
    | some .echo => echo parameters
    | some .render => env.render parameters indentation
    | some .metadata => metadata parameters
    | some .ifNot =>
      let _ ← Eval.ofExcept (unlessName parameters)
      throw .missingPart
    | some .loop => loop parameters (throw .missingPart)
    | some .text | some .cond | some .comment => throw .missingPart
    | none => throw (.unknownNode kind)

/-- The later branches of a condition that is left to the runtime. -/
structure Branches where
  further : List (Condition × List Residual)
  otherwise : Option (List Residual)

theorem sizeOf_nextBranch {n next : Node} (h : n.nextBranch = some next) :
    sizeOf next < sizeOf n := by
  cases n with
  | text v i => simp [Node.nextBranch, Node.children] at h
  | leaf k p i => simp [Node.nextBranch, Node.children] at h
  | block k p i cs =>
    have hm : next ∈ cs := by
      simp only [Node.nextBranch, Node.children, Option.filter_eq_some_iff] at h
      exact List.mem_of_getLast? h.1
    have := List.sizeOf_lt_of_mem hm
    simp only [Node.block.sizeOf_spec]
    omega

theorem sizeOf_dropLast_le (ns : List Node) : sizeOf ns.dropLast ≤ sizeOf ns := by
  induction ns with
  | nil => simp
  | cons n ns ih =>
    cases ns with
    | nil => simp
    | cons m ms =>
      simp only [List.dropLast_cons_cons, List.cons.sizeOf_spec] at ih ⊢
      omega

theorem sizeOf_string_pos (s : String) : 0 < sizeOf s := by
  cases s
  simp only [String.ofByteArray.sizeOf_spec]
  omega

theorem sizeOf_branchBody (n : Node) : sizeOf n.branchBody < sizeOf n := by
  cases n with
  | text v i =>
    have := sizeOf_string_pos v
    simp [Node.branchBody, Node.nextBranch, Node.children]
    omega
  | leaf k p i =>
    have := sizeOf_string_pos k
    simp [Node.branchBody, Node.nextBranch, Node.children]
    omega
  | block k p i cs =>
    have := sizeOf_dropLast_le cs
    unfold Node.branchBody
    simp only [Node.children, Node.block.sizeOf_spec]
    split <;> omega

mutual

def node (env : Env) (n : Node) : Eval (List Residual) :=
  match n with
  | .text value _ => return [.text value]
  | .leaf kind parameters indentation => leaf env kind parameters indentation
  | .block kind parameters indentation children =>
    match env.dialect.extension? kind with
    | some e => do
      let given ← Eval.ofExcept (argument e parameters)
      let body ← if e.opens then nodes env children else pure []
      return [.native (e.before given) body e.after]
    | none =>
      match Directive.ofKind? kind with
      | some .cond => chain env (.block kind parameters indentation children)
      | some .ifNot => do
        let name ← Eval.ofExcept (unlessName parameters)
        let scope ← Eval.scope
        match scope.condition? name with
        | some v =>
          if v.truthy then
            following env (.block kind parameters indentation children)
          else nodes env (Node.block kind parameters indentation children).branchBody
        | none => do
          let body ← nodes env (Node.block kind parameters indentation children).branchBody
          if (Node.block kind parameters indentation children).nextBranch.isSome then
            let otherwise ← following env (.block kind parameters indentation children)
            return [.ifNot name body (some otherwise)]
          else return [.ifNot name body none]
      | some .loop => loop parameters (nodes env children)
      | some .comment => do
        let body ← nodes env children
        return [.comment body]
      | some .echo => echo parameters
      | some .render => env.render parameters indentation
      | some .metadata => metadata parameters
      | some .text => throw .missingPart
      | none => throw (.unknownNode kind)
termination_by (sizeOf n, 3)
decreasing_by
  all_goals first
    | exact .left _ _ (sizeOf_branchBody _)
    | (simp_wf; omega)

def nodes (env : Env) (ns : List Node) : Eval (List Residual) :=
  match ns with
  | [] => return []
  | n :: rest => do
    let first ← node env n
    let others ← nodes env rest
    return first ++ others
termination_by (sizeOf ns, 0)

def following (env : Env) (n : Node) : Eval (List Residual) :=
  match _h : n.nextBranch with
  | none => return []
  | some next => chain env next
termination_by (sizeOf n, 1)
decreasing_by exact .left _ _ (sizeOf_nextBranch _h)

/-- Compiles a chain of branches while every condition met is known: the first branch that holds
stands for the whole chain. A condition that is not known leaves the chain to the runtime. -/
def chain (env : Env) (n : Node) : Eval (List Residual) := do
  if n.kind = "else" then nodes env n.branchBody
  else
    let condition ← Eval.ofExcept (Condition.ofParameters n.parameters)
    let scope ← Eval.scope
    match scope.condition? condition.name with
    | some v =>
      if ← Eval.ofExcept (v.fulfils condition.comparison) then nodes env n.branchBody
      else following env n
    | none =>
      let body ← nodes env n.branchBody
      let rest ← branches env n
      return [.cond condition body rest.further rest.otherwise]
termination_by (sizeOf n, 2)
decreasing_by
  all_goals first
    | exact .left _ _ (sizeOf_branchBody _)
    | exact .right _ (by decide)

/-- Compiles the branches behind one that is left to the runtime. Those known to be false are
dropped, and one known to be true ends the chain. -/
def branches (env : Env) (n : Node) : Eval Branches :=
  match _h : n.nextBranch with
  | none => return ⟨[], none⟩
  | some next => do
    if next.kind = "else" then
      let body ← nodes env next.branchBody
      return ⟨[], some body⟩
    else
      let condition ← Eval.ofExcept (Condition.ofParameters next.parameters)
      let scope ← Eval.scope
      match scope.condition? condition.name with
      | some v =>
        if ← Eval.ofExcept (v.fulfils condition.comparison) then
          let body ← nodes env next.branchBody
          return ⟨[(condition, body)], none⟩
        else branches env next
      | none =>
        let body ← nodes env next.branchBody
        let rest ← branches env next
        return ⟨(condition, body) :: rest.further, rest.otherwise⟩
termination_by (sizeOf n, 1)
decreasing_by
  all_goals first
    | exact .left _ _ (Nat.lt_trans (sizeOf_branchBody _) (sizeOf_nextBranch _h))
    | exact .left _ _ (sizeOf_nextBranch _h)

end

end Compile

end Stencil
