import Mathlib
import Stencil.Dialect.Php
import Stencil.Proofs.MetaDefaults
import Stencil.Proofs.ScopeDiscipline

set_option autoImplicit false

/-!
# Iterations of a loop

Compiling writes a log and never reads it, and each iteration puts the scope back. So an iteration
gives what its body gives in the scope that the loop was met in, with nothing but its own item on
top.
-/

namespace Stencil

namespace Eval

variable {α β : Type} {s : Session}

/-- A computation whose result, and whose scope when it ends, do not depend on the log. -/
def LogFree (act : Eval α) (s : Session) : Prop :=
  ∀ t : Session, t.scope = s.scope →
    (act.outcome t).1 = (act.outcome s).1 ∧ (act.outcome t).2.scope = (act.outcome s).2.scope

namespace LogFree

theorem ofExcept (e : Except Failure α) : LogFree (Eval.ofExcept e) s :=
  fun _ same => ⟨rfl, same⟩

theorem pure (a : α) : LogFree (Pure.pure a : Eval α) s :=
  ofExcept (.ok a)

theorem throw (f : Failure) : LogFree (MonadExcept.throw f : Eval α) s :=
  ofExcept (.error f)

theorem record (level : Level) (message : String) : LogFree (Eval.record level message) s :=
  fun _ same => ⟨rfl, same⟩

theorem scope : LogFree Eval.scope s :=
  fun _ same => ⟨congrArg Except.ok same, same⟩

theorem bind {x : Eval α} {f : α → Eval β} (hx : LogFree x s)
    (hf : ∀ a t, x.outcome s = (.ok a, t) → LogFree (f a) t) : LogFree (x >>= f) s := by
  intro t same
  obtain ⟨result, left⟩ := hx t same
  rcases first : x.outcome s with ⟨r, u⟩
  rcases other : x.outcome t with ⟨r', u'⟩
  rw [first, other] at result left
  obtain rfl : r' = r := result
  cases r' with
  | error e =>
    rw [outcome_bind_error first, outcome_bind_error other]
    exact ⟨rfl, left⟩
  | ok a =>
    rw [outcome_bind_ok first, outcome_bind_ok other]
    exact hf a u first u' left

theorem withFrame {frame : Frame} {act : Eval α} (h : LogFree act (s.push frame)) :
    LogFree (Eval.withFrame frame act) s := by
  intro t same
  obtain ⟨result, left⟩ := h (t.push frame) (congrArg (Scope.push frame) same)
  rw [outcome_withFrame, outcome_withFrame, same]
  exact ⟨result, congrArg (Scope.truncate s.scope.depth) left⟩

end LogFree

theorem local_logFree : Local fun act _ s => LogFree act s where
  ofExcept e _ := .ofExcept e
  scope _ := .scope
  bind := .bind

theorem result_mapM {f : α → Eval β} {as : List α}
    (free : ∀ a t, t.scope = s.scope → LogFree (f a) t) (keeps : ∀ a, Keeps Session.scope (f a)) :
    ((as.mapM f).outcome s).1 = as.mapM fun a => ((f a).outcome s).1 := by
  suffices h : ∀ t, t.scope = s.scope →
      ((as.mapM f).outcome t).1 = as.mapM fun a => ((f a).outcome s).1 from h s rfl
  induction as with
  | nil => exact fun _ _ => rfl
  | cons a as ih =>
    intro t same
    have alone := (free a s rfl t same).1
    have kept := (keeps a t).trans same
    rw [List.mapM_cons, List.mapM_cons, ← alone]
    rcases first : (f a).outcome t with ⟨e | b, u⟩
    · rw [outcome_bind_error first]
      rfl
    · rw [first] at kept
      rw [outcome_bind_ok first, ← ih u kept, outcome_bind]
      rcases (as.mapM f).outcome u with ⟨_ | bs, _⟩ <;> rfl

end Eval

namespace Compile

open Template Eval

theorem logFree_metadata (parameters : Option String) (s : Session) :
    LogFree (metadata parameters) s := by
  intro t same
  cases hd : Meta.ofParameters parameters with
  | error f =>
    unfold metadata
    rw [hd]
    exact ⟨rfl, same⟩
  | ok data =>
    rw [outcome_metadata hd, outcome_metadata hd, same]
    split
    · exact ⟨rfl, same⟩
    · split
      · exact ⟨rfl, same⟩
      · split
        · exact ⟨rfl, same⟩
        · exact ⟨rfl, rfl⟩

theorem logFree_nodes {env : Env}
    (render : ∀ parameters indentation s, LogFree (env.render parameters indentation) s)
    (ns : List Node) (s : Session) : LogFree (nodes env ns) s := by
  have reduces : Reduces (fun act _ s => LogFree act s) (fun _ => True) env env := by
    constructor
    · exact fun _ _ => trivial
    · exact fun _ => rfl
    · intro n s _ _ _ body
      refine @local_loop _ local_logFree n.parameters (loopBody env n) (loopBody env n) s
        (fun _ _ _ => .record _ _) ?_
      intro item collection done v later rs t frame _ _ _
      exact .withFrame (body _ trivial)
    · exact fun _ _ _ => render _ _ _
    · exact fun _ _ _ => logFree_metadata _ _
  obtain ⟨-, -, -, -, free⟩ := local_parts local_logFree reduces
  exact free ns s trivial

theorem outcome_loopItems {parameters : Option String} {s : Session} {item collection : String}
    {list : Value} {items : List Value}
    (named : loopNames? (Text.trim (parameters.getD "").toList) = some (item, collection))
    (known : s.scope.lookup? collection = some list) (listed : list.items? = some items) :
    (loopItems parameters).outcome s = (.ok (item, collection, items), s) := by
  unfold loopItems
  rw [named]
  simp only [outcome_scope_bind, known, Option.getD_some, listed]
  rfl

/-- What one iteration gives if it is run by itself, on the session that the loop is met in; where
a part of the item cannot be named, the iteration fails. -/
def iteration (body : Eval (List Residual)) (item : String) (s : Session) (v : Value) :
    Except Failure (List Residual) :=
  Frame.expand (.str item) v [] >>= fun frame => (body.outcome (s.push frame)).1

theorem result_forItem (item : String) (body : Eval (List Residual)) (v : Value) (s : Session) :
    ((forItem item body v).outcome s).1 = iteration body item s v := by
  unfold forItem iteration
  cases Frame.expand (.str item) v [] <;> rfl

theorem result_loop {parameters : Option String} {body : Eval (List Residual)} {s : Session}
    {item collection : String} {items : List Value}
    (read : (loopItems parameters).outcome s = (.ok (item, collection, items), s))
    (free : ∀ t, LogFree body t) (keeps : ∀ t, KeepsBut (fun _ => True) body t) :
    ((loop parameters body).outcome s).1 =
      (items.mapM (iteration body item s)).map List.flatten := by
  have alone : ((items.mapM (forItem item body)).outcome s).1 =
      items.mapM (iteration body item s) := by
    rw [result_mapM]
    · simp only [result_forItem]
    · exact fun _ _ _ => .bind (.ofExcept _) fun _ _ _ => .withFrame (free _)
    · exact fun _ => .bind (keeps_ofExcept _ _) fun _ _ => scope_withFrame (keeps _)
  unfold loop
  rw [outcome_bind_ok read]
  change ((forEach item collection items body).outcome s).1 = _
  unfold forEach
  rw [← alone, outcome_bind]
  rcases (items.mapM (forItem item body)).outcome s with ⟨_ | _, _⟩ <;> rfl

end Compile

theorem Residual.renderAll_flatten {ε α : Type} (f : Fragments) (shown : Bool)
    (g : α → Except ε (List Residual)) (as : List α) :
    ((as.mapM g).map List.flatten).map (renderAll f shown) =
      (as.mapM fun a => (g a).map (renderAll f shown)).map String.join := by
  induction as with
  | nil => rfl
  | cons a as ih =>
    rw [List.mapM_cons, List.mapM_cons]
    cases g a with
    | error e => rfl
    | ok rs =>
      rcases hr : as.mapM g with e | parts
      · rw [hr] at ih
        have failed : (as.mapM fun a => (g a).map (renderAll f shown)) = .error e :=
          map_eq_error_iff.1 ih.symm
        change Except.error e = ((as.mapM fun a => (g a).map (renderAll f shown)) >>= _).map _
        rw [failed]
        rfl
      · rw [hr] at ih
        obtain ⟨texts, done, joined⟩ := map_eq_ok_iff.1 ih.symm
        change Except.ok (renderAll f shown (rs :: parts).flatten) =
          ((as.mapM fun a => (g a).map (renderAll f shown)) >>= _).map _
        rw [done, List.flatten_cons, renderAll_append, ← joined]
        exact congrArg Except.ok String.join_cons.symm

namespace Transform

open Template Compile Eval

theorem logFree_parse (dialect : Dialect) (text : String) (s : Session) :
    LogFree (parse dialect text) s :=
  sequential_parse local_logFree.toSequential (fun _ _ _ => .record _ _) dialect text s

theorem logFree_component (settings : Settings) (parameters : Option String) (indentation : Nat)
    (s : Session) : LogFree (component settings parameters indentation) s := by
  refine .bind (.ofExcept _) fun call _ _ => .bind ?_ fun _ _ _ => .bind (.ofExcept _) fun _ _ _ =>
    .bind (.bind .scope fun scope _ _ => ?_) fun current _ _ => .bind (.ofExcept _) fun found _ _ =>
    .bind (.record _ _) fun _ _ _ => .pure _
  · unfold noteDiscarded
    split
    · exact .record _ _
    · exact .pure _
  · split
    · exact .pure _
    · exact .pure _
    · exact .throw _

theorem logFree_render {inner : String → Eval (List Residual)} {settings : Settings}
    (h : ∀ text t, LogFree (inner text) t) (parameters : Option String) (indentation : Nat)
    (s : Session) : LogFree (render settings inner parameters indentation) s :=
  .bind (logFree_component settings parameters indentation s) fun (found, _) _ _ =>
    .withFrame (h found.contents _)

theorem logFree_contentsWithin (settings : Settings) (depth : Nat) (text : String) (s : Session) :
    LogFree (contentsWithin settings depth text) s := by
  induction depth generalizing text s with
  | zero => exact .throw _
  | succ depth ih =>
    rw [contentsWithin_succ]
    exact .bind (logFree_parse _ text s) fun roots t _ => logFree_nodes (logFree_render ih) roots t

/-- The text that one iteration gives if it is run by itself, on the session that the loop is met
in. -/
def iterationText (settings : Settings) (depth : Nat) (shown : Bool) (children : List Node)
    (item : String) (s : Session) (v : Value) : Except Failure String :=
  (iteration (nodes (env settings (contentsWithin settings depth)) children) item s v).map
    (Residual.renderAll settings.dialect.fragments shown)

/-- A loop over a list gives the texts of its iterations one behind the other, each of them run by
itself; where one of them fails, the loop ends with the failure of the first. However it ends, the
scope is as it was. -/
theorem loop_runs_each_iteration_alone (settings : Settings) (depth : Nat) (shown : Bool)
    (parameters : Option String) (children : List Node) (s : Session) (item collection : String)
    (list : Value) (items : List Value)
    (named : loopNames? (Text.trim (parameters.getD "").toList) = some (item, collection))
    (known : s.scope.lookup? collection = some list) (listed : list.items? = some items) :
    let alone := iterationText settings depth shown children item s
    let ended :=
      (loop parameters (nodes (env settings (contentsWithin settings depth)) children)).outcome s
    ended.1.map (Residual.renderAll settings.dialect.fragments shown) =
        (items.mapM alone).map String.join ∧
      (∀ done v later texts f, items = done ++ v :: later → done.mapM alone = .ok texts →
        alone v = .error f → ended.1 = .error f) ∧
      ended.2.scope = s.scope := by
  intro alone ended
  have free : ∀ t, LogFree (nodes (env settings (contentsWithin settings depth)) children) t :=
    logFree_nodes (logFree_render (logFree_contentsWithin settings depth)) children
  have keeps : ∀ t, KeepsBut (fun _ => True)
      (nodes (env settings (contentsWithin settings depth)) children) t :=
    keepsBut_nodes (scope_renderWithin settings depth) children
  have result := result_loop (outcome_loopItems named known listed) free keeps
  have text : ended.1.map (Residual.renderAll settings.dialect.fragments shown) =
      (items.mapM alone).map String.join := by
    rw [result, Residual.renderAll_flatten]
    rfl
  refine ⟨text, ?_, scope_loop keeps parameters s⟩
  intro done v later texts f split before failed
  rw [split, mapM_eq_error before failed] at text
  exact map_eq_error_iff.1 text

section Example

def loopedSettings : Settings := ⟨.php, ".liquid", ⟨[], [], []⟩⟩

def loopedBody : List Node :=
  [.leaf "variable" (some "user.name") 0, .leaf "meta" (some userText) 0]

def loopedSession : Session := ⟨⟨[[(.str "items", .list [.str "a", .str "b"])]], none⟩, []⟩

abbrev loopedEnv : Env := env loopedSettings (contentsWithin loopedSettings 0)

abbrev loopedStart (x : String) : Session :=
  loopedSession.push (Frame.bind (.str "i") (.str x) [])

theorem iterationText_looped (x : String) :
    iterationText loopedSettings 0 false loopedBody "i" loopedSession (.str x) =
      .ok "<?php echo $user.name; ?>" := by
  have name : (node loopedEnv (.leaf "variable" (some "user.name") 0)).outcome (loopedStart x) =
      (.ok [.echo "user.name"], loopedStart x) := by
    rw [@node_plainly loopedEnv _ .echo rfl rfl]
    rfl
  have metadata : node loopedEnv (.leaf "meta" (some userText) 0) = metadata (some userText) :=
    @node_plainly loopedEnv _ .metadata rfl rfl
  have defaults := outcome_userText (loopedStart x) (List.cons_ne_nil _ _)
  have body : iteration (nodes loopedEnv loopedBody) "i" loopedSession (.str x) =
      .ok [.echo "user.name"] := by
    unfold iteration
    rw [Frame.expand_atom]
    change ((nodes loopedEnv loopedBody).outcome (loopedStart x)).1 = _
    unfold loopedBody
    rw [nodes, outcome_bind_ok name, nodes, metadata, bind_assoc, outcome_bind_ok defaults, nodes]
    rfl
  unfold iterationText
  rw [body]
  rfl

theorem default_stays_in_its_iteration :
    ((loop (some "i in items") (nodes (env loopedSettings (contentsWithin loopedSettings 0))
        loopedBody)).outcome loopedSession).1.map
          (Residual.renderAll loopedSettings.dialect.fragments false) =
        .ok "<?php echo $user.name; ?><?php echo $user.name; ?>" ∧
      ((loop (some "i in items") (nodes (env loopedSettings (contentsWithin loopedSettings 0))
        loopedBody)).outcome loopedSession).2.scope = loopedSession.scope := by
  obtain ⟨text, -, scope⟩ := loop_runs_each_iteration_alone loopedSettings 0 false
    (some "i in items") loopedBody loopedSession "i" "items" (.list [.str "a", .str "b"])
    [.str "a", .str "b"] (by cbv) rfl rfl
  refine ⟨?_, scope⟩
  rw [text, List.mapM_cons, List.mapM_cons, iterationText_looped, iterationText_looped]
  rfl

end Example

end Transform

end Stencil
