import Stencil.Proofs.ClosedChains
import Stencil.Proofs.Failures
import Stencil.Proofs.WellMade

set_option autoImplicit false

/-!
# Where failures come from

A point at which compiling fails either raises the failure itself or leads to a point that fails as
well. No run goes on for ever, so behind every failure there is a point that raises it: a directive
whose parameters, values or component do not serve.
-/

namespace Stencil

namespace Eval

variable {α β : Type} {f : Failure} {s : Session}

theorem not_fails_pure (a : α) : ¬ Fails f (pure a : Eval α) s := nofun

theorem Fails.of_bind {x : Eval α} {g : α → Eval β} (h : Fails f (x >>= g) s) :
    Fails f x s ∨ ∃ a t, x.outcome s = (.ok a, t) ∧ Fails f (g a) t := by
  unfold Fails at h ⊢
  rw [outcome_bind] at h
  split at h
  · rename_i a t done
    exact .inr ⟨a, t, done, h⟩
  · rename_i e t failed
    rw [failed]
    exact .inl (congrArg Except.error (Except.error.inj h))

theorem Fails.of_read {e : Except Failure α} {g : α → Eval β}
    (h : Fails f (ofExcept e >>= g) s) : e = .error f ∨ ∃ a, e = .ok a ∧ Fails f (g a) s := by
  cases e with
  | error e' => exact .inl (congrArg Except.error (Except.error.inj h))
  | ok a => exact .inr ⟨a, rfl, h⟩

theorem Fails.unread {e : Except Failure α} (h : e = .error f) (g : α → Eval β) :
    Fails f (ofExcept e >>= g) s := by
  rw [h]
  rfl

theorem Fails.of_bind_pure {x : Eval α} {g : α → β} (h : Fails f (x >>= fun a => pure (g a)) s) :
    Fails f x s := by
  rcases h.of_bind with failed | ⟨a, t, -, failed⟩
  · exact failed
  · exact absurd failed (not_fails_pure _)

theorem Fails.of_mapM {g : α → Eval β} {as : List α} (h : Fails f (as.mapM g) s) :
    ∃ done a later bs t, as = done ++ a :: later ∧ (done.mapM g).outcome s = (.ok bs, t) ∧
      Fails f (g a) t := by
  induction as generalizing s with
  | nil => exact absurd h (not_fails_pure _)
  | cons a as ih =>
    rw [List.mapM_cons] at h
    rcases h.of_bind with failed | ⟨b, t, first, h⟩
    · exact ⟨[], a, as, [], s, rfl, rfl, failed⟩
    · obtain ⟨done, c, later, bs, u, rfl, before, failed⟩ := ih h.of_bind_pure
      refine ⟨a :: done, c, later, b :: bs, u, rfl, ?_, failed⟩
      rw [List.mapM_cons, outcome_bind_ok first, outcome_bind_ok before]
      rfl

end Eval

namespace Compile

open Template Eval

variable {env : Env} {f : Failure} {n : Node} {s : Session}

def Stands (scope : Scope) (n : Node) : Option Standing → Prop
  | none => n.kind ≠ "else" ∧ ∃ c, Condition.ofParameters n.parameters = .ok c ∧ Refused scope c
  | some .otherwise => n.kind = "else"
  | some (.holds c) =>
    n.kind ≠ "else" ∧ Condition.ofParameters n.parameters = .ok c ∧ Open scope c
  | some (.unknown c) =>
    n.kind ≠ "else" ∧ Condition.ofParameters n.parameters = .ok c ∧ scope.condition? c.name = none

theorem stands_of_standing? {scope : Scope} {standing : Option Standing}
    (h : n.standing? scope = .ok standing) : Stands scope n standing := by
  unfold Node.standing? at h
  split at h
  · rename_i he
    rw [← Except.ok.inj h]
    exact he
  · rename_i he
    obtain ⟨c, read, h⟩ := exists_of_bind_eq_ok h
    unfold Scope.standing? at h
    split at h
    · rename_i unknown
      rw [← Except.ok.inj h]
      exact ⟨he, read, unknown⟩
    · rename_i v known
      obtain ⟨holds, decided, rfl⟩ := map_eq_ok_iff.1 h
      cases holds with
      | true => exact ⟨he, read, open_of_some known decided⟩
      | false => exact ⟨he, c, read, v, known, decided⟩

theorem fails_nodes {ns : List Node} (h : Part.Fails env f (.nodes ns, s)) :
    ∃ q, Calls env (.nodes ns, s) q ∧ Part.Fails env f q := by
  cases ns with
  | nil =>
    rw [Part.Fails, nodes] at h
    exact absurd h (not_fails_pure _)
  | cons n rest =>
    rw [Part.Fails, nodes] at h
    rcases Fails.of_bind h with failed | ⟨rs, t, first, h⟩
    · exact ⟨_, .head, failed⟩
    · exact ⟨_, .tail first, h.of_bind_pure⟩

theorem fails_following (h : Part.Fails env f (.following n, s)) :
    ∃ q, Calls env (.following n, s) q ∧ Part.Fails env f q := by
  cases hnext : n.nextBranch with
  | none =>
    rw [Part.Fails, following_none hnext] at h
    exact absurd h (not_fails_pure _)
  | some next =>
    rw [Part.Fails, following_some hnext] at h
    exact ⟨_, .next hnext, h⟩

theorem fails_chain (h : Part.Fails env f (.chain n, s)) :
    n.standing? s.scope = .error f ∨ ∃ q, Calls env (.chain n, s) q ∧ Part.Fails env f q := by
  rw [Part.Fails, Eval.Fails, outcome_chain] at h
  rcases Fails.of_read h with failed | ⟨standing, met, h⟩
  · exact .inl failed
  · refine .inr ?_
    have stands := stands_of_standing? met
    rcases standing with _ | _ | c | c
    · obtain ⟨he, c, read, refused⟩ := stands
      exact ⟨_, .chainNext he read refused, h⟩
    · exact ⟨_, .elseBody stands, h⟩
    · obtain ⟨he, read, holds⟩ := stands
      exact ⟨_, .chainBody he read holds, h⟩
    · obtain ⟨he, read, unknown⟩ := stands
      rcases Fails.of_bind h with failed | ⟨rs, t, body, h⟩
      · exact ⟨_, .chainBody he read (open_of_none unknown), failed⟩
      · exact ⟨_, .chainRest he read unknown body, h.of_bind_pure⟩

theorem fails_branches (h : Part.Fails env f (.branches n, s)) :
    (∃ next, n.nextBranch = some next ∧ next.standing? s.scope = .error f) ∨
      ∃ q, Calls env (.branches n, s) q ∧ Part.Fails env f q := by
  cases hnext : n.nextBranch with
  | none =>
    rw [Part.Fails, branches_none hnext] at h
    exact absurd h (not_fails_pure _)
  | some next =>
    rw [Part.Fails, Eval.Fails, outcome_branches env hnext] at h
    rcases Fails.of_read h with failed | ⟨standing, met, h⟩
    · exact .inl ⟨next, rfl, failed⟩
    · refine .inr ?_
      have stands := stands_of_standing? met
      rcases standing with _ | _ | c | c
      · obtain ⟨he, c, read, refused⟩ := stands
        exact ⟨_, .laterNext hnext he read refused, h⟩
      · exact ⟨_, .laterElse hnext stands, Fails.of_bind_pure h⟩
      · obtain ⟨he, read, holds⟩ := stands
        exact ⟨_, .laterBody hnext he read holds, Fails.of_bind_pure h⟩
      · obtain ⟨he, read, unknown⟩ := stands
        rcases Fails.of_bind h with failed | ⟨rs, t, body, h⟩
        · exact ⟨_, .laterBody hnext he read (open_of_none unknown), failed⟩
        · exact ⟨_, .laterRest hnext he read unknown body, h.of_bind_pure⟩

theorem fails_native {e : Extension} (made : n.WellMade env.dialect)
    (he : env.dialect.extension? n.kind = some e) (h : Part.Fails env f (.node n, s)) :
    argument e n.parameters = .error f ∨ ∃ q, Calls env (.node n, s) q ∧ Part.Fails env f q := by
  cases n with
  | text v i =>
    rw [Part.Fails, node] at h
    exact absurd h (not_fails_pure _)
  | leaf k p i =>
    change env.dialect.extension? k = some e at he
    have single : e.opens = false := by
      simpa [Node.WellMade, Dialect.takesBody, he] using made
    rw [Part.Fails, node, leaf] at h
    simp only [he, single] at h
    rcases Fails.of_read h with failed | ⟨given, -, h⟩
    · exact .inl failed
    · exact absurd h (not_fails_pure _)
  | block k p i cs =>
    rw [Part.Fails, node_native rfl he] at h
    rcases Fails.of_read h with failed | ⟨given, arg, h⟩
    · exact .inl failed
    · cases opens : e.opens with
      | true =>
        rw [opens] at h
        exact .inr ⟨_, .native rfl he arg opens, h.of_bind_pure⟩
      | false =>
        rw [opens] at h
        exact absurd h (not_fails_pure _)

theorem isBlock_of_wellMade {d : Directive} (made : n.WellMade env.dialect)
    (shared : env.dialect.extension? n.kind = none) (directive : Directive.ofKind? n.kind = some d)
    (body : d = .cond ∨ d = .ifNot ∨ d = .loop ∨ d = .comment) : n.isBlock = true := by
  cases n with
  | text v i =>
    obtain rfl := Option.some.inj directive
    simp at body
  | leaf k p i =>
    change env.dialect.extension? k = none at shared
    change Directive.ofKind? k = some d at directive
    rcases body with rfl | rfl | rfl | rfl <;>
      simp [Node.WellMade, Dialect.takesBody, shared, directive] at made
  | block k p i cs => rfl

theorem fails_ifNot (acts : Acts env n .ifNot) (h : Part.Fails env f (.node n, s)) :
    unlessName n.parameters = .error f ∨ ∃ q, Calls env (.node n, s) q ∧ Part.Fails env f q := by
  rw [Part.Fails, node_ifNot acts] at h
  rcases Fails.of_read h with failed | ⟨name, asked, h⟩
  · exact .inl failed
  · refine .inr ?_
    rw [Eval.Fails, outcome_scope_bind] at h
    cases known : s.scope.condition? name with
    | some v =>
      rw [known] at h
      cases truthy : v.truthy with
      | true =>
        simp only [truthy] at h
        exact ⟨_, .unlessTrue acts asked known truthy, h⟩
      | false =>
        simp only [truthy] at h
        refine ⟨_, .unlessBody acts asked fun w hw => ?_, h⟩
        rw [← Option.some.inj (known.symm.trans hw)]
        exact truthy
    | none =>
      rw [known] at h
      rcases Fails.of_bind h with failed | ⟨rs, t, body, h⟩
      · exact ⟨_, .unlessBody acts asked (by simp [known]), failed⟩
      · cases more : n.nextBranch.isSome with
        | true =>
          rw [more] at h
          exact ⟨_, .unlessElse acts asked known body more, h.of_bind_pure⟩
        | false =>
          rw [more] at h
          exact absurd h (not_fails_pure _)

theorem not_fails_text (made : n.WellMade env.dialect)
    (shared : env.dialect.extension? n.kind = none)
    (directive : Directive.ofKind? n.kind = some .text) : ¬ Part.Fails env f (.node n, s) := by
  cases n with
  | text v i =>
    rw [Part.Fails, node]
    exact not_fails_pure _
  | leaf k p i =>
    change env.dialect.extension? k = none at shared
    change Directive.ofKind? k = some .text at directive
    simp [Node.WellMade, Dialect.takesBody, shared, directive] at made
  | block k p i cs => exact absurd (Directive.ofKind?_eq_some.1 directive) made

theorem fails_unknown (shared : env.dialect.extension? n.kind = none)
    (directive : Directive.ofKind? n.kind = none) (h : Part.Fails env f (.node n, s)) :
    f = .unknownNode n.kind := by
  cases n with
  | text v i => exact nomatch directive
  | leaf k p i =>
    change env.dialect.extension? k = none at shared
    change Directive.ofKind? k = none at directive
    rw [Part.Fails, node, leaf] at h
    simp only [shared, directive] at h
    exact (Except.error.inj h).symm
  | block k p i cs =>
    rw [Part.Fails, node_unknown rfl shared directive] at h
    exact (Except.error.inj h).symm

/-- How much of a part there is to compile; of the parts of one node, those count more that call for
the others. -/
noncomputable def Part.extent : Part → Nat × Nat
  | .node n => (sizeOf n, 3)
  | .chain n => (sizeOf n, 2)
  | .following n | .branches n => (sizeOf n, 1)
  | .nodes ns => (sizeOf ns, 0)

theorem sizeOf_children (block : n.isBlock = true) : sizeOf n.children < sizeOf n := by
  cases n with
  | text value indentation => exact absurd block Bool.false_ne_true
  | leaf kind parameters indentation => exact absurd block Bool.false_ne_true
  | block kind parameters indentation children => simp [Node.children]

theorem Calls.extent_lt {p q : Part × Session} (h : Calls env p q) :
    Prod.Lex (· < ·) (· < ·) q.1.extent p.1.extent := by
  cases h with
  | head => exact .left _ _ (by simp; omega)
  | tail => exact .left _ _ (by simp)
  | native block => exact .left _ _ (sizeOf_children block)
  | comment acts => exact .left _ _ (sizeOf_children acts.block)
  | unlessBody | elseBody | chainBody => exact .left _ _ (sizeOf_branchBody _)
  | next hnext | laterNext hnext | laterRest hnext => exact .left _ _ (sizeOf_nextBranch hnext)
  | laterElse hnext | laterBody hnext =>
    exact .left _ _ (Nat.lt_trans (sizeOf_branchBody _) (sizeOf_nextBranch hnext))
  | cond | unlessTrue | unlessElse | chainNext | chainRest => exact .right _ (by decide)

end Compile

namespace Transform

open Template Compile Eval

variable {settings : Settings} {f : Failure}

def branch? : Part → Option Node
  | .chain n => some n
  | .branches n => n.nextBranch
  | _ => none

/-- A point at which a directive fails by itself: for its parameters, for a value that it needs, or
for the component that it names. -/
inductive Raises (settings : Settings) (f : Failure) (v : Visit) : Prop
  | argument {n : Node} {e : Extension} (part : v.part = .node n)
      (own : settings.dialect.extension? n.kind = some e)
      (failed : argument e n.parameters = .error f)
  | unknown {n : Node} (part : v.part = .node n)
      (foreign : settings.dialect.extension? n.kind = none)
      (undirected : Directive.ofKind? n.kind = none) (failed : f = .unknownNode n.kind)
  | echo {n : Node} (meets : v.Meets settings n .echo)
      (failed : Eval.Fails f (echo n.parameters) v.session)
  | metadata {n : Node} (meets : v.Meets settings n .metadata)
      (failed : Eval.Fails f (metadata n.parameters) v.session)
  | ifNot {n : Node} (meets : v.Meets settings n .ifNot)
      (failed : unlessName n.parameters = .error f)
  | branch {n : Node} (asked : branch? v.part = some n)
      (failed : n.standing? v.session.scope = .error f)
  | items {n : Node} (meets : v.Meets settings n .loop)
      (failed : Eval.Fails f (loopItems n.parameters) v.session)
  | item {n : Node} {item collection : String} {done later : List Value} {value : Value}
      (meets : v.Meets settings n .loop)
      (items : (loopItems n.parameters).outcome v.session =
        (.ok (item, collection, done ++ value :: later), v.session))
      (failed : Frame.expand (.str item) value [] = .error f)
  | component {n : Node} (meets : v.Meets settings n .render)
      (failed : Eval.Fails f (component settings n.parameters n.indentation) v.session)
  | nested {n : Node} {found : Component × Frame} {t : Session}
      (meets : v.Meets settings n .render) (full : v.depth = 0)
      (load : (component settings n.parameters n.indentation).outcome v.session = (.ok found, t))
      (failed : f = .nestedTooDeeply)
  | parse {n : Node} {depth : Nat} {found : Component} {frame : Frame} {t : Session}
      (meets : v.Meets settings n .render) (room : v.depth = depth + 1)
      (load : (component settings n.parameters n.indentation).outcome v.session =
        (.ok (found, frame), t))
      (failed : Eval.Fails f (parse settings.dialect found.contents) (t.push frame))

section Steps

variable {v : Visit}

theorem step_of_calls (h : ∃ q, Calls (v.env settings) (v.part, v.session) q ∧
    Part.Fails (v.env settings) f q) : ∃ w, Leads settings v w ∧ w.Fails settings f := by
  obtain ⟨q, call, failed⟩ := h
  exact ⟨_, .call call, failed⟩

theorem fails_loop {n : Node} (meets : v.Meets settings n .loop) (block : n.isBlock = true)
    (h : v.Fails settings f) :
    Raises settings f v ∨ ∃ w, Leads settings v w ∧ w.Fails settings f := by
  unfold Visit.Fails at h
  rw [meets.part, Part.Fails, node_plainly meets.shared meets.directive] at h
  rcases Fails.of_bind h with failed | ⟨⟨item, collection, items⟩, t, read, h⟩
  · exact .inl (.items meets failed)
  · obtain rfl : t = v.session := (keeps_loopItems n.parameters).ok read
    rcases Fails.of_bind h with failed | ⟨parts, t, -, ended⟩
    · obtain ⟨done, value, later, rs, u, rfl, before, failed⟩ := failed.of_mapM
      rcases Fails.of_read failed with unnamed | ⟨frame, bound, failed⟩
      · exact .inl (.item meets read unnamed)
      · rw [loopBody_of_isBlock block] at before failed
        exact .inr ⟨_, .item meets block read before bound, failed⟩
    · cases ended

theorem fails_render {n : Node} (meets : v.Meets settings n .render) (h : v.Fails settings f) :
    Raises settings f v ∨ ∃ w, Leads settings v w ∧ w.Fails settings f := by
  unfold Visit.Fails at h
  rw [meets.part, Part.Fails, node_plainly meets.shared meets.directive] at h
  rcases Fails.of_bind h with failed | ⟨⟨found, frame⟩, t, load, h⟩
  · exact .inl (.component meets failed)
  · change Eval.Fails f (contentsWithin settings v.depth found.contents) (t.push frame) at h
    cases room : v.depth with
    | zero =>
      rw [room] at h
      exact .inl (.nested meets room load (Except.error.inj h).symm)
    | succ depth =>
      rw [room, contentsWithin_succ] at h
      rcases h.of_bind with failed | ⟨roots, u, parsed, failed⟩
      · exact .inl (.parse meets room load failed)
      · exact .inr ⟨_, .component meets room load parsed, failed⟩

theorem fails_node {n : Node} (part : v.part = .node n) (made : n.WellMade settings.dialect)
    (h : v.Fails settings f) :
    Raises settings f v ∨ ∃ w, Leads settings v w ∧ w.Fails settings f := by
  let env := v.env settings
  have made : n.WellMade env.dialect := made
  have compiled : Part.Fails env f (.node n, v.session) := by
    rw [← part]
    exact h
  have called (h : ∃ q, Calls (v.env settings) (.node n, v.session) q ∧
      Part.Fails (v.env settings) f q) : ∃ w, Leads settings v w ∧ w.Fails settings f := by
    rw [← part] at h
    exact step_of_calls h
  cases own : settings.dialect.extension? n.kind with
  | some e =>
    rcases fails_native made own compiled with failed | onwards
    · exact .inl (.argument part own failed)
    · exact .inr (called onwards)
  | none =>
    cases directive : Directive.ofKind? n.kind with
    | none => exact .inl (.unknown part own directive (fails_unknown own directive compiled))
    | some d =>
      have block := isBlock_of_wellMade made own directive
      have plain : node env n = plainly env n d := node_plainly own directive
      have meets : v.Meets settings n d := ⟨part, own, directive⟩
      cases d with
      | text => exact absurd compiled (not_fails_text made own directive)
      | echo =>
        rw [Part.Fails, plain] at compiled
        exact .inl (.echo meets compiled)
      | cond =>
        have acts : Acts (v.env settings) n .cond := ⟨block (by simp), own, directive⟩
        rw [Part.Fails, node_cond acts] at compiled
        exact .inr (called ⟨_, .cond acts, compiled⟩)
      | ifNot =>
        rcases fails_ifNot ⟨block (by simp), own, directive⟩ compiled with failed | onwards
        · exact .inl (.ifNot meets failed)
        · exact .inr (called onwards)
      | loop => exact fails_loop meets (block (by simp)) h
      | render => exact fails_render meets h
      | metadata =>
        rw [Part.Fails, plain] at compiled
        exact .inl (.metadata meets compiled)
      | comment =>
        have acts : Acts (v.env settings) n .comment := ⟨block (by simp), own, directive⟩
        rw [Part.Fails, node_comment acts] at compiled
        exact .inr (called ⟨_, .comment acts, compiled.of_bind_pure⟩)

/-- Where compiling fails, it is by the point itself or by one that it leads to. -/
theorem fails_step (made : v.part.Every (Node.WellMade settings.dialect))
    (h : v.Fails settings f) :
    Raises settings f v ∨ ∃ w, Leads settings v w ∧ w.Fails settings f := by
  obtain ⟨depth, file, top, loops, part, session⟩ := v
  cases part with
  | node n => exact fails_node rfl made.self h
  | nodes ns => exact .inr (step_of_calls (fails_nodes h))
  | following n => exact .inr (step_of_calls (fails_following h))
  | chain n =>
    rcases fails_chain h with failed | onwards
    · exact .inl (.branch rfl failed)
    · exact .inr (step_of_calls onwards)
  | branches n =>
    rcases fails_branches h with ⟨next, hnext, failed⟩ | onwards
    · exact .inl (.branch hnext failed)
    · exact .inr (step_of_calls onwards)

end Steps

noncomputable def Visit.extent (v : Visit) : Nat × Nat × Nat :=
  (v.depth, v.part.extent)

theorem Leads.extent_lt {v w : Visit} (h : Leads settings v w) :
    Prod.Lex (· < ·) (Prod.Lex (· < ·) (· < ·)) w.extent v.extent := by
  cases h with
  | call h => exact .right _ h.extent_lt
  | item meets block =>
    refine .right _ ?_
    rw [meets.part]
    exact .left _ _ (sizeOf_children block)
  | @component n depth found frame roots t u meets room =>
    have less : depth < v.depth := by omega
    exact .left _ _ less

theorem Leads.wellMade {v w : Visit} (coherent : settings.dialect.Coherent)
    (h : Leads settings v w) (made : v.part.Every (Node.WellMade settings.dialect)) :
    w.part.Every (Node.WellMade settings.dialect) := by
  cases h with
  | call h => exact h.every made
  | item meets =>
    rw [meets.part] at made
    exact fun _ => made.children
  | @component n depth found frame roots t u meets room load parsed =>
    exact wellMade_of_parse coherent parsed

/-- Behind a point that fails, there is one that raises the failure. -/
theorem exists_origin (coherent : settings.dialect.Coherent) (v : Visit)
    (made : v.part.Every (Node.WellMade settings.dialect)) (h : v.Fails settings f) :
    ∃ w, Relation.ReflTransGen (Leads settings) v w ∧ Raises settings f w := by
  -- Each point that is led to has less before it, so the way back to the origin ends.
  rcases fails_step made h with raises | ⟨w, leads, failed⟩
  · exact ⟨v, .refl, raises⟩
  · obtain ⟨u, reached, raises⟩ := exists_origin coherent w (leads.wellMade coherent made) failed
    exact ⟨u, .head leads reached, raises⟩
termination_by v.extent
decreasing_by exact leads.extent_lt

theorem fails_parse {d : Dialect} (coherent : d.Coherent) {text : String} {s : Session}
    (h : Eval.Fails f (parse d text) s) :
    ∃ tokens t, Token.ofText d.tags text = .ok tokens ∧ FirstStray d.tags tokens t ∧
      f = .unexpectedClose t.kind := by
  rcases parse_cases coherent text s with ⟨roots, u, read, -⟩ | ⟨tokens, t, u, cut, stray, unread⟩
  · rw [Eval.Fails, read] at h
    exact nomatch h
  · rw [Eval.Fails, unread] at h
    exact ⟨tokens, t, cut, stray, (Except.error.inj h).symm⟩

theorem fails_contents (coherent : settings.dialect.Coherent) {path : Option String}
    {text : String} {s : Session}
    (h : Eval.Fails f (contents settings text) (begun path s)) :
    Eval.Fails f (parse settings.dialect text) (begun path s) ∨
      ∃ v, Visited settings path text s v ∧ Raises settings f v := by
  rcases Fails.of_bind h with failed | ⟨roots, t, parsed, failed⟩
  · exact .inl failed
  · obtain ⟨v, reached, raises⟩ :=
      exists_origin coherent (start path s roots t) (wellMade_of_parse coherent parsed) failed
    exact .inr ⟨v, ⟨roots, t, parsed, reached⟩, raises⟩

end Transform

end Stencil
