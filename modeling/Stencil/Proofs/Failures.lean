import Stencil.Proofs.Visits

set_option autoImplicit false

/-!
# Failures on the way

The points that a transformation comes to are points that it really runs through: where one of
them fails, so does every point that leads to it, and in the end the transformation.
-/

namespace Stencil

namespace Eval

variable {α β : Type} {f : Failure} {s t : Session}

def Fails (f : Failure) (act : Eval α) (s : Session) : Prop :=
  (act.outcome s).1 = .error f

theorem Fails.outcome {x : Eval α} (h : Fails f x s) : ∃ t, x.outcome s = (.error f, t) :=
  ⟨(x.outcome s).2, Prod.ext h rfl⟩

theorem Fails.first {x : Eval α} (h : Fails f x s) (g : α → Eval β) : Fails f (x >>= g) s := by
  obtain ⟨t, failed⟩ := h.outcome
  unfold Fails
  rw [outcome_bind_error failed]

theorem Fails.second {x : Eval α} {g : α → Eval β} {a : α} (hx : x.outcome s = (.ok a, t))
    (h : Fails f (g a) t) : Fails f (x >>= g) s := by
  unfold Fails
  rw [outcome_bind_ok hx]
  exact h

theorem Fails.read {e : Except Failure α} {g : α → Eval β} {a : α} (he : e = .ok a)
    (h : Fails f (g a) s) : Fails f (ofExcept e >>= g) s :=
  .second (Prod.ext he rfl) h

theorem Fails.look {g : Scope → Eval β} (h : Fails f (g s.scope) s) : Fails f (scope >>= g) s :=
  h

theorem Fails.withFrame {frame : Frame} {act : Eval α} (h : Fails f act (s.push frame)) :
    Fails f (Eval.withFrame frame act) s := h

theorem Fails.mapM {g : α → Eval β} {done : List α} {a : α} {bs : List β}
    (before : (done.mapM g).outcome s = (.ok bs, t)) (h : Fails f (g a) t) (later : List α) :
    Fails f ((done ++ a :: later).mapM g) s := by
  rw [List.mapM_append]
  refine .second before (.first ?_ _)
  rw [List.mapM_cons]
  exact h.first _

end Eval

namespace Compile

open Template Eval

variable {env : Env} {f : Failure}

def Part.Fails (env : Env) (f : Failure) : Part × Session → Prop
  | (.node n, s) => Eval.Fails f (Compile.node env n) s
  | (.nodes ns, s) => Eval.Fails f (Compile.nodes env ns) s
  | (.following n, s) => Eval.Fails f (Compile.following env n) s
  | (.chain n, s) => Eval.Fails f (Compile.chain env n) s
  | (.branches n, s) => Eval.Fails f (Compile.branches env n) s

theorem fails_branch {c : Condition} {s : Session} {β : Type} {yes no later : Eval β}
    (h : Open s.scope c ∧ Eval.Fails f yes s ∧ Eval.Fails f later s ∨
      Refused s.scope c ∧ Eval.Fails f no s ∨
      s.scope.condition? c.name = none ∧ Eval.Fails f later s) :
    Eval.Fails f (Eval.scope >>= fun scope =>
      match scope.condition? c.name with
      | some v =>
        Eval.ofExcept (v.fulfils c.comparison) >>= fun holds => if holds then yes else no
      | none => later) s := by
  refine .look ?_
  cases hv : s.scope.condition? c.name with
  | some v =>
    rcases h with ⟨holds, failed, -⟩ | ⟨⟨w, hw, fails⟩, failed⟩ | ⟨unknown, -⟩
    · exact .read (holds v hv) failed
    · rw [hv] at hw
      rw [← Option.some.inj hw] at fails
      exact .read fails failed
    · rw [hv] at unknown
      cases unknown
  | none =>
    rcases h with ⟨-, -, failed⟩ | ⟨⟨w, hw, -⟩, -⟩ | ⟨-, failed⟩
    · exact failed
    · rw [hv] at hw
      cases hw
    · exact failed

theorem Calls.fails {p q : Part × Session} (h : Calls env p q) (failed : Part.Fails env f q) :
    Part.Fails env f p := by
  cases h with
  | head =>
    rw [Part.Fails, nodes]
    exact Fails.first failed _
  | tail first =>
    rw [Part.Fails, nodes]
    exact .second first (Fails.first failed _)
  | native block he arg opens =>
    rw [Part.Fails, node_native block he]
    refine .read arg ?_
    rw [if_pos opens]
    exact Fails.first failed _
  | cond acts =>
    rw [Part.Fails, node_cond acts]
    exact failed
  | comment acts =>
    rw [Part.Fails, node_comment acts]
    exact Fails.first failed _
  | @unlessBody n s name acts asked falsy =>
    rw [Part.Fails, node_ifNot acts]
    refine .read asked (.look ?_)
    cases hv : s.scope.condition? name with
    | some v =>
      simp only [falsy v hv]
      exact failed
    | none => exact Fails.first failed _
  | unlessTrue acts asked known truthy =>
    rw [Part.Fails, node_ifNot acts]
    refine .read asked (.look ?_)
    simp only [known, truthy]
    exact failed
  | unlessElse acts asked unknown body more =>
    rw [Part.Fails, node_ifNot acts]
    refine .read asked (.look ?_)
    simp only [unknown]
    refine .second body ?_
    rw [if_pos more]
    exact Fails.first failed _
  | next hnext =>
    rw [Part.Fails, following_some hnext]
    exact failed
  | elseBody he =>
    rw [Part.Fails, chain_else he]
    exact failed
  | chainBody he hc holds =>
    rw [Part.Fails, chain_if he]
    exact .read hc (fails_branch (.inl ⟨holds, failed, Fails.first failed _⟩))
  | chainNext he hc fails =>
    rw [Part.Fails, chain_if he]
    exact .read hc (fails_branch (.inr (.inl ⟨fails, failed⟩)))
  | chainRest he hc unknown body =>
    rw [Part.Fails, chain_if he]
    exact .read hc (fails_branch (.inr (.inr ⟨unknown, .second body (Fails.first failed _)⟩)))
  | laterElse hnext he =>
    rw [Part.Fails, branches_else hnext he]
    exact Fails.first failed _
  | laterBody hnext he hc holds =>
    rw [Part.Fails, branches_if hnext he]
    exact .read hc (fails_branch (.inl ⟨holds, Fails.first failed _, Fails.first failed _⟩))
  | laterNext hnext he hc fails =>
    rw [Part.Fails, branches_if hnext he]
    exact .read hc (fails_branch (.inr (.inl ⟨fails, failed⟩)))
  | laterRest hnext he hc unknown body =>
    rw [Part.Fails, branches_if hnext he]
    exact .read hc (fails_branch (.inr (.inr ⟨unknown, .second body (Fails.first failed _)⟩)))

end Compile

namespace Transform

open Template Compile Eval

variable {settings : Settings} {f : Failure}

def Visit.Fails (settings : Settings) (f : Failure) (v : Visit) : Prop :=
  Part.Fails (v.env settings) f (v.part, v.session)

theorem Leads.fails {v w : Visit} (h : Leads settings v w) (failed : w.Fails settings f) :
    v.Fails settings f := by
  cases h with
  | call h => exact h.fails failed
  | @item n item collection done later value rs t frame meets block items before bound =>
    unfold Visit.Fails
    rw [meets.part]
    change Eval.Fails f (node (v.env settings) n) v.session
    have body : loopBody (v.env settings) n = nodes (v.env settings) n.children :=
      loopBody_of_isBlock block
    rw [node_plainly meets.shared meets.directive, plainly, body]
    have item := Fails.mapM before (.read bound (Fails.withFrame failed)) later
    exact .second items (item.first _)
  | @component n depth found frame roots t u meets room load parsed =>
    unfold Visit.Fails
    rw [meets.part]
    change Eval.Fails f (node (v.env settings) n) v.session
    rw [node_plainly meets.shared meets.directive]
    refine .second load (.withFrame ?_)
    rw [room]
    exact .second parsed failed

theorem Visited.fails {path : Option String} {text : String} {s : Session} {v : Visit}
    (h : Visited settings path text s v) (failed : v.Fails settings f) :
    Eval.Fails f (contents settings text) (begun path s) := by
  obtain ⟨roots, t, parsed, reached⟩ := h
  have first : (start path s roots t).Fails settings f := by
    induction reached with
    | refl => exact failed
    | tail _ step ih => exact ih (step.fails failed)
  exact .second parsed first

theorem Visited.cancels {path : Option String} {text : String} {s : Session} {v : Visit}
    (h : Visited settings path text s v) (failed : v.Fails settings .cancelled) :
    ((template settings path text).outcome s).1 = .ok none := by
  have cancelled : Eval.Fails .cancelled (framed s (contents settings text)) (about path s) :=
    (outcome_framed path s _).trans (h.fails failed)
  obtain ⟨t, ended⟩ := cancelled.outcome
  rw [outcome_template, outcome_cancellable, ended]

end Transform

end Stencil
