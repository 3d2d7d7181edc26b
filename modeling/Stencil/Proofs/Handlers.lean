import Stencil.Proofs.Assignments
import Stencil.Proofs.Crashes
import Stencil.Proofs.Forms

set_option autoImplicit false

/-!
# Failures of nesting

Directives fail for their parameters and for values. That a text is nested wrongly shows in two ways
alone: a tag closes where nothing is open, or a branch of a chain stands in a body that is none of a
branch, where it is compiled by itself and has no directive. All other nodes that are compiled have
a directive, and the form that it works on.
-/

namespace Stencil

abbrev Unnested {α : Type} (e : Except Failure α) : Prop :=
  FailsOnly (fun f => f.group ≠ .nesting) e

theorem Failure.OfReading.group_ne {f : Failure} (h : f.OfReading) : f.group ≠ .nesting := by
  cases h <;> exact nofun

theorem FailsOnly.unnested {α : Type} {e : Except Failure α} (h : FailsReading e) : Unnested e :=
  h.imp fun _ => Failure.OfReading.group_ne

namespace Value

theorem unnested_stringify (v : Value) : Unnested v.stringify :=
  failsOnly_stringify nofun v fun _ => nofun

theorem unnested_toNumber (v : Value) : Unnested v.toNumber := by
  unfold toNumber
  split
  · split
    · exact .ok _
    · exact .error nofun
  · exact .ok _
  · split
    · exact .ok _
    · split
      · exact .error nofun
      · exact .ok _
  · exact .ok _

theorem unnested_satisfies (v : Value) (operator : String) (expected : Value) :
    Unnested (v.satisfies operator expected) := by
  have texts (op : Operator) : Unnested (satisfies.byText v expected op) :=
    .bind v.unnested_stringify fun _ _ => .bind expected.unnested_stringify fun _ _ => .ok _
  unfold satisfies
  split
  · exact .error nofun
  · split
    · exact .bind v.unnested_toNumber fun _ _ => .bind expected.unnested_toNumber fun _ _ => .ok _
    · split
      · exact texts _
      · exact .ok _
      · exact .ok _
      · exact texts _

theorem unnested_fulfils (v : Value) (comparison : Option Comparison) :
    Unnested (v.fulfils comparison) := by
  cases comparison with
  | none => exact .ok _
  | some c => exact v.unnested_satisfies _ _

end Value

namespace Compile

open Template

theorem unnested_standing (scope : Scope) (n : Node) : Unnested (n.standing? scope) := by
  unfold Node.standing?
  split
  · exact .ok _
  · refine .bind (Condition.failsReading_ofParameters _).unnested fun c _ => ?_
    unfold Scope.standing?
    split
    · exact .ok _
    · exact .map (Value.unnested_fulfils _ _) _

theorem unnested_echoText (scope : Scope) (owner : String) (l : Lexeme) :
    Unnested (echoText scope owner l) := by
  unfold echoText
  split
  · dsimp only
    split
    · exact .ok _
    · split
      · exact .map (Value.unnested_stringify _) _
      · exact .ok _
  · exact .ok _
  · exact .ok _

variable {parameters : Option String} {s : Session} {f : Failure}

theorem group_of_fails_echo (h : Eval.Fails f (echo parameters) s) : f.group ≠ .nesting := by
  unfold Eval.Fails at h
  cases known : s.scope.lookup? (parameters.getD "") with
  | none =>
    simp only [echo, Eval.outcome_scope_bind, known] at h
    cases h
  | some v =>
    by_cases text : ∃ text, v = .str text
    · obtain ⟨text, rfl⟩ := text
      rw [outcome_echo_text known] at h
      exact FailsOnly.mapM (fun l _ => unnested_echoText _ _ l.1) f h
    · rw [outcome_echo_other known fun w same => text ⟨w, same⟩] at h
      exact FailsOnly.map v.unnested_stringify _ f h

theorem group_of_fails_metadata (h : Eval.Fails f (metadata parameters) s) :
    f.group ≠ .nesting := by
  rcases fails_metadata h with rfl | reading
  · exact nofun
  · exact reading.group_ne

theorem group_of_fails_loopItems (h : Eval.Fails f (loopItems parameters) s) :
    f.group ≠ .nesting := by
  rcases fails_loopItems h with rfl | ⟨collection, type, path, rfl⟩
  · exact nofun
  · exact nofun

end Compile

namespace Transform

open Template Compile

variable {settings : Settings} {f : Failure}

theorem group_of_fails_component {parameters : Option String} {indentation : Nat} {s : Session}
    (h : Eval.Fails f (component settings parameters indentation) s) : f.group ≠ .nesting := by
  rcases fails_component h with reading | ⟨-, rfl⟩ | ⟨-, rfl⟩
  · exact reading.group_ne
  · exact nofun
  · exact nofun

theorem nesting_of_raises {v : Visit} (h : Raises settings f v) (nesting : f.group = .nesting) :
    (∃ n, v.part = .node n ∧ settings.dialect.form? n.kind = none ∧ f = .unknownNode n.kind) ∨
      ∃ n found frame t, v.Meets settings n .render ∧
        (component settings n.parameters n.indentation).outcome v.session =
          (.ok (found, frame), t) ∧
        Eval.Fails f (parse settings.dialect found.contents) (t.push frame) := by
  cases h with
  | argument part own failed =>
    exact absurd nesting ((failsReading_argument _ _).unnested f failed)
  | unknown part foreign undirected failed =>
    refine .inl ⟨_, part, ?_, failed⟩
    simp only [Dialect.form?, foreign, undirected, Option.map_none]
  | echo meets failed => exact absurd nesting (group_of_fails_echo failed)
  | metadata meets failed => exact absurd nesting (group_of_fails_metadata failed)
  | ifNot meets failed => exact absurd nesting ((failsReading_unlessName _).unnested f failed)
  | branch asked failed => exact absurd nesting (unnested_standing _ _ f failed)
  | items meets failed => exact absurd nesting (group_of_fails_loopItems failed)
  | item meets items failed =>
    rw [Frame.expand_eq_error failed] at nesting
    cases nesting
  | component meets failed => exact absurd nesting (group_of_fails_component failed)
  | nested meets full load failed =>
    rw [failed] at nesting
    cases nesting
  | parse meets room load failed => exact .inr ⟨_, _, _, _, meets, load, failed⟩

/-- A branch that continues no chain: it ends the body of a node that is no branch. -/
structure Misplaced (p c : Node) : Prop where
  last : p.children.getLast? = some c
  continues : c.kind ∈ continuationKinds
  outside : p.kind ∉ chainKinds ∧ p.kind ∉ continuationKinds

/-- The nodes that a part compiles one by one, each by its own directive. -/
def listed : Part → List Node
  | .node n => [n]
  | .nodes ns => ns
  | .following _ | .chain _ | .branches _ => []

structure Placed (ns : List Node) (part : Part) : Prop where
  within : part.Every fun n => n ∈ ns
  misplaced : ∀ n ∈ listed part, n.Continues → ∃ p ∈ ns, Misplaced p n

theorem outside_of_directive {d : Directive} {kind : String}
    (h : Directive.ofKind? kind = some d) (cond : d ≠ .cond) (ifNot : d ≠ .ifNot) :
    kind ∉ chainKinds ∧ kind ∉ continuationKinds := by
  rw [Directive.ofKind?_eq_some.1 h]
  cases d <;> first
    | contradiction
    | decide

section Trees

variable {ns : List Node} (chained : ∀ n ∈ ns, n.Chained)
include chained

theorem placed_children {n : Node} (every : Node.Every (fun n => n ∈ ns) n)
    (outside : n.kind ∉ chainKinds ∧ n.kind ∉ continuationKinds) :
    Placed ns (.nodes n.children) where
  within _ := every.children
  misplaced _ mem continues :=
    ⟨n, every.self, (chained n every.self).getLast?_eq mem continues, continues, outside⟩

theorem placed_branchBody {n : Node} (every : Node.Every (fun n => n ∈ ns) n) :
    Placed ns (.nodes n.branchBody) where
  within := every.branchBody
  misplaced c mem continues := absurd continues ((chained n every.self).branchBody c mem)

theorem placed_of_calls {env : Env} (fitting : env.dialect.Fitting) {p q : Part × Session}
    (h : Calls env p q) (placed : Placed ns p.1) : Placed ns q.1 := by
  have every := h.every placed.within
  cases h with
  | head =>
    refine ⟨every, List.forall_mem_singleton.2 (placed.misplaced _ List.mem_cons_self)⟩
  | tail => exact ⟨every, fun c mem => placed.misplaced c (List.mem_cons_of_mem _ mem)⟩
  | native block own =>
    obtain ⟨mem, named⟩ := Dialect.mem_of_extension? own
    have outside := (fitting.extensions _ mem).2
    rw [named] at outside
    exact placed_children chained placed.within outside
  | comment acts =>
    exact placed_children chained placed.within (outside_of_directive acts.directive nofun nofun)
  | unlessBody | elseBody | chainBody => exact placed_branchBody chained placed.within
  | laterElse hnext | laterBody hnext =>
    exact placed_branchBody chained (placed.within.nextBranch hnext)
  | cond | unlessTrue | unlessElse | next | chainNext | chainRest | laterNext | laterRest =>
    exact ⟨every, nofun⟩

end Trees

/-- The texts that a transformation compiles: its own and those of the components that it puts in
place. -/
inductive Compiles (settings : Settings) (path : Option String) (text : String) (s : Session) :
    String → Prop
  | own : Compiles settings path text s text
  | component {found : Component} (included : Includes settings path text s found) :
    Compiles settings path text s found.contents

section Runs

variable {path : Option String} {text : String} {s : Session} {v : Visit}
  (fitting : settings.dialect.Fitting)
include fitting

theorem placed_of_parse {contents : String} {roots : List Node} {t u : Session}
    (parsed : (parse settings.dialect contents).outcome t = (.ok roots, u)) :
    Placed (Node.walkAll roots) (.nodes roots) where
  within := Node.every_of_walkAll fun _ mem => mem
  misplaced c mem continues := absurd continues (not_continues_of_parse fitting parsed c mem)

theorem Visited.exists_placed (h : Visited settings path text s v) :
    ∃ contents ns, Compiles settings path text s contents ∧
      nodesOf settings.dialect contents = .ok ns ∧ Placed ns v.part := by
  refine h.induction (I := fun v => ∃ contents ns, Compiles settings path text s contents ∧
    nodesOf settings.dialect contents = .ok ns ∧ Placed ns v.part) ?_ ?_
  · intro roots t parsed
    exact ⟨text, _, .own, nodesOf_of_parse parsed, placed_of_parse fitting parsed⟩
  · rintro w x visited ⟨contents, ns, compiles, read, placed⟩ step
    have chained := chained_of_nodesOf fitting read
    cases step with
    | call call =>
      exact ⟨contents, ns, compiles, read, placed_of_calls chained fitting call placed⟩
    | item meets =>
      rw [meets.part] at placed
      exact ⟨contents, ns, compiles, read, placed_children chained placed.within
        (outside_of_directive meets.directive nofun nofun)⟩
    | component meets room load parsed =>
      exact ⟨_, _, .component ⟨w, _, _, _, visited, meets, load⟩, nodesOf_of_parse parsed,
        placed_of_parse fitting parsed⟩

theorem Visited.fits_or_misplaced (h : Visited settings path text s v) {n : Node}
    (part : v.part = .node n) :
    settings.dialect.form? n.kind = some n.form ∨
      ∃ contents ns p, Compiles settings path text s contents ∧
        nodesOf settings.dialect contents = .ok ns ∧ p ∈ ns ∧ Misplaced p n := by
  obtain ⟨contents, ns, compiles, read, placed⟩ := h.exists_placed fitting
  rw [part] at placed
  rcases fits_of_nodesOf fitting read n (Node.Every.self placed.within) with fits | ⟨-, continues⟩
  · exact .inl fits
  · obtain ⟨p, mem, misplaced⟩ := placed.misplaced n List.mem_cons_self continues
    exact .inr ⟨contents, ns, p, compiles, read, mem, misplaced⟩

theorem Visited.block_of_chain (h : Visited settings path text s v) {n : Node}
    (part : v.part = .chain n) : n.form = .block := by
  obtain ⟨contents, ns, -, read, placed⟩ := h.exists_placed fitting
  rw [part] at placed
  have fits := fits_of_nodesOf fitting read n (Node.Every.self placed.within)
  rcases h.kind_of_chain part with kind | continues
  · rcases fits with shaped | ⟨block, -⟩
    · rw [fitting.form_eq shaped, kind]
      rfl
    · exact block
  · refine fitting.block_of_continues fits ?_
    simpa [Node.Continues, continuationKinds] using continues

theorem kind_of_misplaced {contents : String} {ns : List Node} {p c : Node}
    (read : nodesOf settings.dialect contents = .ok ns) (mem : p ∈ ns)
    (misplaced : Misplaced p c) : p.kind ∈ ["for", "comment", "loop", "pre"] := by
  have block : p.form = .block := by
    cases p with
    | block => rfl
    | text | leaf => exact nomatch misplaced.last
  obtain ⟨noChain, noBranch⟩ := misplaced.outside
  rcases fitting.kind_of_block (fits_of_nodesOf fitting read p mem) block with kind | continues
  · have others : ∀ kind ∈ ["if", "unless", "for", "comment", "loop", "pre"], kind ∉ chainKinds →
        kind ∈ ["for", "comment", "loop", "pre"] := by decide
    exact others p.kind kind noChain
  · exact absurd continues noBranch

end Runs

theorem nodesOf_of_fails {d : Dialect} {text : String} {s : Session}
    (h : Eval.Fails f (parse d text) s) : nodesOf d text = .error f := by
  rw [nodesOf_eq d text s, h]
  rfl

/-- For every dialect of the program, every text and every tree of files: the nodes of a text have
a directive and the form that it works on, unless they continue a chain. So do the nodes that a run
compiles by themselves, unless they are misplaced branches. A failure of nesting is due to a tag
that closes where nothing is open, in the text of the template or of a component that it puts in
place, or to a misplaced branch in such a text, and then it names the branch. -/
theorem every_directive_is_handled (name : String) (settings : Settings)
    (builtin : Registry.builtin.get name = .ok settings.dialect) (shown : Bool)
    (path : Option String) (text : String) (s : Session) :
    (∀ kind form, settings.dialect.form? kind = some form → form = Node.Form.ofKind kind) ∧
    (∀ contents ns, nodesOf settings.dialect contents = .ok ns → ∀ n ∈ ns,
      settings.dialect.form? n.kind = some n.form ∨
        n.form = .block ∧ n.kind ∈ continuationKinds) ∧
    (∀ v n, Visited settings path text s v → v.part = .node n →
      settings.dialect.form? n.kind = some n.form ∨
        ∃ contents ns p, Compiles settings path text s contents ∧
          nodesOf settings.dialect contents = .ok ns ∧ p ∈ ns ∧ Misplaced p n) ∧
    (∀ v n, Visited settings path text s v → v.part = .chain n → n.form = .block) ∧
    ¬ Eval.Fails .missingPart (output settings shown path text) s ∧
    ∀ f, Eval.Fails f (output settings shown path text) s → f.group = .nesting →
      ∃ contents, Compiles settings path text s contents ∧
        ((∃ tokens t, Token.ofText settings.dialect.tags contents = .ok tokens ∧
            FirstStray settings.dialect.tags tokens t ∧ f = .unexpectedClose t.kind ∧
            nodesOf settings.dialect contents = .error f) ∨
          ∃ ns p n, nodesOf settings.dialect contents = .ok ns ∧ p ∈ ns ∧
            p.kind ∈ ["for", "comment", "loop", "pre"] ∧ Misplaced p n ∧
            f = .unknownNode n.kind) := by
  have coherent := Registry.coherent_builtin builtin
  have fitting : settings.dialect.Fitting := by
    obtain ⟨entry, mem, same⟩ := Registry.mem_of_get builtin
    rw [same]
    exact Registry.fitting_builtin mem
  have unparsed {f : Failure} {contents : String} {t : Session}
      (failed : Eval.Fails f (parse settings.dialect contents) t) :
      ∃ tokens t, Token.ofText settings.dialect.tags contents = .ok tokens ∧
        FirstStray settings.dialect.tags tokens t ∧ f = .unexpectedClose t.kind ∧
        nodesOf settings.dialect contents = .error f := by
    obtain ⟨tokens, t, cut, stray, rfl⟩ := fails_parse coherent failed
    exact ⟨tokens, t, cut, stray, rfl, nodesOf_of_fails failed⟩
  refine ⟨fun _ _ => fitting.form_eq, fun _ _ => fits_of_nodesOf fitting,
    fun v n h => h.fits_or_misplaced fitting, fun v n h => h.block_of_chain fitting, ?_, ?_⟩
  · intro failed
    obtain ⟨v, -, givesUp | ⟨-, other⟩⟩ := (output_unreported_iff coherent shown).1 ⟨failed, rfl⟩
    · exact absurd givesUp.cause (by decide)
    · exact nomatch other
  · intro f failed nesting
    rcases fails_contents coherent (fails_output_iff.1 failed).1 with failed | ⟨v, visited, raises⟩
    · exact ⟨text, .own, .inl (unparsed failed)⟩
    rcases nesting_of_raises raises nesting with
      ⟨n, part, undirected, rfl⟩ | ⟨n, found, frame, t, meets, load, failed⟩
    · rcases visited.fits_or_misplaced fitting part with
        fits | ⟨contents, ns, p, compiles, read, mem, misplaced⟩
      · exact nomatch undirected.symm.trans fits
      · exact ⟨contents, compiles, .inr ⟨ns, p, n, read, mem,
          kind_of_misplaced fitting read mem misplaced, misplaced, rfl⟩⟩
    · exact ⟨found.contents, .component ⟨v, n, frame, t, visited, meets, load⟩,
        .inl (unparsed failed)⟩

section Example

def elseInLoop : String := "\x7b% for x in xs %\x7da\x7b% else %\x7db\x7b% endfor %\x7d"

def elseSettings : Settings where
  dialect := .php
  extension := ".liquid"
  files := ⟨[], [], []⟩

def elseSession : Session := ⟨⟨[[(.str "xs", .list [.str "c"])]], none⟩, []⟩

theorem else_in_loop_is_misplaced :
    Registry.builtin.get "php" = .ok elseSettings.dialect ∧
      Eval.Fails (.unknownNode "else") (output elseSettings false none elseInLoop) elseSession ∧
      ∃ contents ns p n, Compiles elseSettings none elseInLoop elseSession contents ∧
        nodesOf elseSettings.dialect contents = .ok ns ∧ p ∈ ns ∧ Misplaced p n ∧
        n.kind = "else" := by
  have failed : Eval.Fails (.unknownNode "else") (output elseSettings false none elseInLoop)
      elseSession := by
    unfold Eval.Fails
    cbv
  obtain ⟨-, -, -, -, -, nesting⟩ :=
    every_directive_is_handled "php" elseSettings rfl false none elseInLoop elseSession
  obtain ⟨contents, compiles, ⟨-, t, -, -, other, -⟩ | ⟨ns, p, n, read, mem, -, misplaced, same⟩⟩ :=
    nesting _ failed rfl
  · cases other
  · exact ⟨rfl, failed, contents, ns, p, n, compiles, read, mem, misplaced,
      (Failure.unknownNode.inj same).symm⟩

end Example

end Transform

end Stencil
