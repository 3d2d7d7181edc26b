import Stencil.Proofs.ScopeDiscipline

set_option autoImplicit false

/-!
# The run of a transformation

A transformation comes to many points: in the text of the template itself and in the texts of
components, under any number of loops. `Leads` is one step from such a point to the next one, and
`Visited` all that a transformation comes to.
-/

namespace Stencil.Transform

open Template Compile

theorem outcome_currentFile (s : Session) :
    currentFile.outcome s =
      (match s.scope.currentPath with
        | none => .ok none
        | some (.str file) => .ok (some file)
        | some _ => .error .notAPath, s) := by
  unfold currentFile
  rw [Eval.outcome_scope_bind]
  cases s.scope.currentPath with
  | none => rfl
  | some v =>
    cases v with
    | atom a => cases a <;> rfl
    | _ => rfl

theorem result_parse (dialect : Dialect) (text : String) (s : Session) :
    ((parse dialect text).outcome s).1 =
      (Token.ofText dialect.tags text >>= Forest.ofTokens dialect.tags).map Forest.roots := by
  unfold parse
  cases Token.ofText dialect.tags text with
  | error f => rfl
  | ok tokens =>
    change _ = (Forest.ofTokens dialect.tags tokens).map Forest.roots
    simp only [Eval.outcome_bind, Eval.outcome_ofExcept, Eval.outcome_record]
    cases Forest.ofTokens dialect.tags tokens with
    | error f => rfl
    | ok forest =>
      obtain ⟨roots, unclosed⟩ := forest
      cases unclosed <;> rfl

theorem exists_forest_of_parse {dialect : Dialect} {text : String} {roots : List Node}
    {s t : Session} (parsed : (parse dialect text).outcome s = (.ok roots, t)) :
    ∃ tokens forest, Token.ofText dialect.tags text = .ok tokens ∧
      Forest.ofTokens dialect.tags tokens = .ok forest ∧ forest.roots = roots := by
  have result := result_parse dialect text s
  rw [parsed] at result
  obtain ⟨forest, read, rfl⟩ := map_eq_ok_iff.1 result.symm
  obtain ⟨tokens, cut, built⟩ := exists_of_bind_eq_ok read
  exact ⟨tokens, forest, cut, built, rfl⟩

theorem component_eq_ok {settings : Settings} {parameters : Option String} {indentation : Nat}
    {s t : Session} {found : Component} {frame : Frame}
    (h : (component settings parameters indentation).outcome s = (.ok (found, frame), t)) :
    ∃ call current, RenderCall.ofParameters parameters = .ok call ∧
      currentFile.outcome s = (.ok current, s) ∧
      Component.load settings.files current call.component indentation settings.extension =
        .ok found ∧
      frame = Mapping.insert (.str Scope.pathName) (.str found.path) call.arguments.bindings := by
  obtain ⟨call, s₁, hcall, h₁⟩ := Eval.outcome_bind_eq_ok.1 h
  obtain ⟨_, s₂, hnote, h₂⟩ := Eval.outcome_bind_eq_ok.1 h₁
  obtain ⟨_, s₃, hcheck, h₃⟩ := Eval.outcome_bind_eq_ok.1 h₂
  obtain ⟨current, s₄, hcurrent, h₄⟩ := Eval.outcome_bind_eq_ok.1 h₃
  obtain ⟨found', s₅, hload, h₅⟩ := Eval.outcome_bind_eq_ok.1 h₄
  obtain ⟨_, s₆, hrecord, h₆⟩ := Eval.outcome_bind_eq_ok.1 h₅
  have noted : s₂.scope = s₁.scope := (keeps_scope_noteDiscarded call.arguments).ok hnote
  have same : s₃.scope = s.scope := by
    rw [← (Prod.mk.inj hcheck).2, noted, ← (Prod.mk.inj hcall).2]
  obtain ⟨rfl, rfl⟩ := Prod.mk.inj (Except.ok.inj (Prod.mk.inj h₆).1)
  refine ⟨call, current, (Prod.mk.inj hcall).1, ?_, (Prod.mk.inj hload).1, rfl⟩
  rw [outcome_currentFile] at hcurrent ⊢
  rw [← same, (Prod.mk.inj hcurrent).1]

/-- A point that a transformation comes to. The part of a template that is compiled there belongs
to the text of `file`, inside the given loops of that text, innermost first. -/
structure Visit where
  /-- How deep components may still be nested. -/
  depth : Nat
  file : Option String
  /-- Whether the text is that of the template, not that of a component. -/
  top : Bool
  loops : List (String × Value)
  part : Part
  session : Session

namespace Visit

def env (settings : Settings) (v : Visit) : Compile.Env :=
  Transform.env settings (contentsWithin settings v.depth)

/-- The point at which a node of some kind of directive is compiled. -/
structure Meets (settings : Settings) (v : Visit) (n : Node) (d : Directive) : Prop where
  part : v.part = .node n
  shared : settings.dialect.extension? n.kind = none
  directive : Directive.ofKind? n.kind = some d

end Visit

inductive Leads (settings : Settings) : Visit → Visit → Prop
  | call {v : Visit} {q : Part × Session} (h : Calls (v.env settings) (v.part, v.session) q) :
    Leads settings v { v with part := q.1, session := q.2 }
  | item {v : Visit} {n : Node} {item collection : String} {done later : List Value}
      {value : Value} {rs : List (List Residual)} {t : Session} {frame : Frame}
      (meets : v.Meets settings n .loop) (block : n.isBlock = true)
      (items : (loopItems n.parameters).outcome v.session =
        (.ok (item, collection, done ++ value :: later), v.session))
      (before : (done.mapM (forItem item (nodes (v.env settings) n.children))).outcome v.session =
        (.ok rs, t))
      (bound : Frame.expand (.str item) value [] = .ok frame) :
    Leads settings v
      { v with
        loops := (item, value) :: v.loops
        part := .nodes n.children
        session := t.push frame }
  | component {v : Visit} {n : Node} {depth : Nat} {found : Component} {frame : Frame}
      {roots : List Node} {t u : Session} (meets : v.Meets settings n .render)
      (room : v.depth = depth + 1)
      (load : (component settings n.parameters n.indentation).outcome v.session =
        (.ok (found, frame), t))
      (parsed : (parse settings.dialect found.contents).outcome (t.push frame) = (.ok roots, u)) :
    Leads settings v
      { depth, file := some found.path, top := false, loops := [], part := .nodes roots,
        session := u }

def begun (path : Option String) (s : Session) : Session :=
  if s.scope.frames.isEmpty then (about path s).push [] else about path s

theorem outcome_framed (path : Option String) (s : Session) {α : Type} (act : Eval α) :
    ((framed s act).outcome (about path s)).1 = (act.outcome (begun path s)).1 := by
  unfold framed begun
  split <;> rfl

def start (path : Option String) (s : Session) (roots : List Node) (t : Session) : Visit where
  depth := maxNesting - 1
  file := path.or s.scope.basePath
  top := true
  loops := []
  part := .nodes roots
  session := t

/-- The points that transforming a template comes to. -/
def Visited (settings : Settings) (path : Option String) (text : String) (s : Session)
    (v : Visit) : Prop :=
  ∃ roots t, (parse settings.dialect text).outcome (begun path s) = (.ok roots, t) ∧
    Relation.ReflTransGen (Leads settings) (start path s roots t) v

theorem Visited.step {settings : Settings} {path : Option String} {text : String} {s : Session}
    {v w : Visit} (h : Visited settings path text s v) (step : Leads settings v w) :
    Visited settings path text s w := by
  obtain ⟨roots, t, parsed, reached⟩ := h
  exact ⟨roots, t, parsed, reached.tail step⟩

/-- What holds at the beginning and is passed on by every step holds at every point. -/
theorem Visited.induction {settings : Settings} {path : Option String} {text : String}
    {s : Session} {I : Visit → Prop}
    (initial : ∀ roots t, (parse settings.dialect text).outcome (begun path s) = (.ok roots, t) →
      I (start path s roots t))
    (step : ∀ v w, Visited settings path text s v → I v → Leads settings v w → I w) {v : Visit}
    (h : Visited settings path text s v) : I v := by
  obtain ⟨roots, t, parsed, reached⟩ := h
  have first := initial roots t parsed
  induction reached with
  | refl => exact first
  | tail prior next ih => exact step _ _ ⟨roots, t, parsed, prior⟩ ih next

theorem Visited.calls {settings : Settings} {path : Option String} {text : String} {s : Session}
    {v : Visit} (h : Visited settings path text s v) {q : Part × Session}
    (reached : Relation.ReflTransGen (Calls (v.env settings)) (v.part, v.session) q) :
    Visited settings path text s { v with part := q.1, session := q.2 } := by
  induction reached with
  | refl => exact h
  | tail _ call ih => exact ih.step (.call call)

end Stencil.Transform
