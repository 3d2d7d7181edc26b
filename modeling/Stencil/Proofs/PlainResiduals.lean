import Stencil.Proofs.CompileEquations
import Stencil.Proofs.Outcome
import Stencil.Transform

set_option autoImplicit false

/-!
# Residual templates without pieces of a target language

A dialect that adds no directives leaves texts, variables, conditions and comments alone.
-/

namespace Stencil

open Template

namespace Residual

mutual

/-- Whether nothing in a residual template was put there by a directive of one dialect. -/
def plain : Residual → Bool
  | text _ => true
  | echo _ => true
  | cond _ body further otherwise => plainAll body && plainFurther further && plainElse otherwise
  | ifNot _ body otherwise => plainAll body && plainElse otherwise
  | comment body => plainAll body
  | native .. => false

def plainAll : List Residual → Bool
  | [] => true
  | r :: rs => plain r && plainAll rs

def plainFurther : List (Condition × List Residual) → Bool
  | [] => true
  | (_, body) :: rest => plainAll body && plainFurther rest

def plainElse : Option (List Residual) → Bool
  | none => true
  | some body => plainAll body

end

theorem plainAll_append {as bs : List Residual} (ha : plainAll as = true)
    (hb : plainAll bs = true) : plainAll (as ++ bs) = true := by
  induction as with
  | nil => exact hb
  | cons a as ih =>
    rw [plainAll, Bool.and_eq_true] at ha
    rw [List.cons_append, plainAll, ha.1, ih ha.2]
    rfl

theorem plainAll_flatten {parts : List (List Residual)} (h : ∀ rs ∈ parts, plainAll rs = true) :
    plainAll parts.flatten = true := by
  induction parts with
  | nil => rfl
  | cons rs parts ih =>
    rw [List.flatten_cons]
    exact plainAll_append (h rs List.mem_cons_self) (ih fun q hq => h q (List.mem_cons_of_mem _ hq))

theorem plainFurther_cons {c : Condition} {body : List Residual}
    {more : List (Condition × List Residual)} (hb : plainAll body = true)
    (hm : plainFurther more = true) : plainFurther ((c, body) :: more) = true := by
  rw [plainFurther, hb, hm]
  rfl

theorem plainAll_singleton {r : Residual} (h : plain r = true) : plainAll [r] = true := by
  rw [plainAll, h]
  rfl

end Residual

namespace Compile

open Residual

theorem plain_echoText {scope : Scope} {owner : String} {l : Lexeme} {r : Residual}
    (h : echoText scope owner l = .ok r) : plain r = true := by
  unfold echoText at h
  split at h
  · simp only at h
    split at h
    · rw [← Except.ok.inj h]
      rfl
    · split at h
      · rename_i v _
        cases hv : v.stringify with
        | error e =>
          rw [hv] at h
          cases h
        | ok text =>
          rw [hv] at h
          rw [← Except.ok.inj h]
          rfl
      · rw [← Except.ok.inj h]
        rfl
  · rw [← Except.ok.inj h]
    rfl
  · rw [← Except.ok.inj h]
    rfl

theorem plainAll_echoTexts {scope : Scope} {owner : String} {ls : List (Lexeme × List Char)}
    {rs : List Residual} (h : ls.mapM (fun l => echoText scope owner l.1) = .ok rs) :
    plainAll rs = true := by
  induction ls generalizing rs with
  | nil =>
    rw [← Except.ok.inj h]
    rfl
  | cons l ls ih =>
    rw [List.mapM_cons] at h
    obtain ⟨first, hfirst, h₁⟩ := exists_of_bind_eq_ok h
    obtain ⟨rest, hrest, h₂⟩ := exists_of_bind_eq_ok h₁
    rw [← Except.ok.inj h₂, plainAll, plain_echoText hfirst, ih hrest]
    rfl

abbrev Plain (act : Eval (List Residual)) : Prop :=
  Eval.Gives (fun rs => plainAll rs = true) act

theorem plain_echo (parameters : Option String) : Plain (echo parameters) := by
  refine .after _ fun scope => ?_
  split
  · exact .pure rfl
  · exact .ofExcept fun rs h => plainAll_echoTexts h
  · exact .after _ fun text => .pure rfl

theorem plain_loop {body : Eval (List Residual)} (h : Plain body) (parameters : Option String) :
    Plain (loop parameters body) := by
  refine .after _ fun (item, collection, items) => ?_
  refine .bind (.mapM (fun v => .after _ fun frame => h.withFrame frame) items)
    fun parts hparts => ?_
  exact .after _ fun _ => .pure (plainAll_flatten hparts)

theorem plain_metadata (parameters : Option String) : Plain (metadata parameters) := by
  intro s rs t h
  cases hd : Meta.ofParameters parameters with
  | error e =>
    unfold metadata at h
    rw [hd] at h
    exact nomatch h
  | ok data =>
    rw [outcome_metadata hd] at h
    split at h
    · exact nomatch h
    · split at h
      · exact nomatch h
      · split at h
        · rw [← Except.ok.inj (Prod.mk.inj h).1]
          rfl
        · rw [← Except.ok.inj (Prod.mk.inj h).1]
          rfl

section Branching

variable {env : Env} {n : Node}

abbrev PlainBranches (act : Eval Branches) : Prop :=
  Eval.Gives (fun b => plainFurther b.further = true ∧ plainElse b.otherwise = true) act

theorem plain_ifNot (acts : Acts env n .ifNot) (following : Plain (following env n))
    (body : Plain (nodes env n.branchBody)) : Plain (node env n) := by
  rw [node_ifNot acts]
  refine .after _ fun name => .after _ fun scope => ?_
  split
  · split
    · exact following
    · exact body
  · refine .bind body fun body hbody => ?_
    split
    · refine .bind following fun otherwise ho => .pure (plainAll_singleton ?_)
      rw [plain, hbody, plainElse, ho]
      rfl
    · refine .pure (plainAll_singleton ?_)
      rw [plain, hbody]
      rfl

theorem plain_chain (he : n.kind ≠ "else") (body : Plain (nodes env n.branchBody))
    (following : Plain (following env n)) (branches : PlainBranches (branches env n)) :
    Plain (chain env n) := by
  rw [chain_if he]
  refine .after _ fun condition => .after _ fun scope => ?_
  split
  · refine .after _ fun holds => ?_
    split
    · exact body
    · exact following
  · refine .bind body fun body hbody => .bind branches fun rest hrest =>
      .pure (plainAll_singleton ?_)
    rw [plain, hbody, hrest.1, hrest.2]
    rfl

theorem plain_branches {next : Node} (hnext : n.nextBranch = some next) (he : next.kind ≠ "else")
    (body : Plain (nodes env next.branchBody)) (later : PlainBranches (branches env next)) :
    PlainBranches (branches env n) := by
  rw [branches_if hnext he]
  refine .after _ fun condition => .after _ fun scope => ?_
  split
  · refine .after _ fun holds => ?_
    split
    · exact .bind body fun body hbody => .pure ⟨plainFurther_cons hbody rfl, rfl⟩
    · exact later
  · exact .bind body fun body hbody => .bind later fun rest hrest =>
      .pure ⟨plainFurther_cons hbody hrest.1, hrest.2⟩

end Branching

section Bare

variable {env : Env} (bare : ∀ kind, env.dialect.extension? kind = none)
  (render : ∀ parameters indentation, Plain (env.render parameters indentation))
include bare render

theorem plain_leaf (kind : String) (parameters : Option String) (indentation : Nat) :
    Plain (leaf env kind parameters indentation) := by
  unfold leaf
  rw [bare]
  simp only
  split
  · exact plain_echo parameters
  · exact render parameters indentation
  · exact plain_metadata parameters
  · exact .after _ fun _ => .throw _
  · exact plain_loop (.throw _) parameters
  all_goals exact .throw _

theorem plain_nodes :
    (∀ n, Plain (node env n)) ∧ (∀ n, Plain (following env n)) ∧ (∀ n, Plain (chain env n)) ∧
    (∀ n, PlainBranches (branches env n)) ∧
    (∀ ns, Plain (nodes env ns)) := by
  apply parts_induction env
  case text =>
    intro value indentation
    rw [node]
    exact .pure rfl
  case leaf =>
    intro kind parameters indentation
    rw [node]
    exact plain_leaf bare render kind parameters indentation
  case native =>
    intro n e _ he _
    rw [bare] at he
    cases he
  case cond =>
    intro n acts ih
    rw [node_cond acts]
    exact ih
  case ifNot =>
    intro n acts ihFollowing ihBody
    exact plain_ifNot acts ihFollowing ihBody
  case loop =>
    intro n acts ih
    rw [node_plainly acts.shared acts.directive]
    obtain ⟨k, p, i, cs, rfl⟩ := exists_block acts.block
    exact plain_loop ih p
  case comment =>
    intro n acts ih
    rw [node_comment acts]
    refine .bind ih fun body hbody => .pure (plainAll_singleton ?_)
    rw [plain, hbody]
  case echo =>
    intro n acts
    rw [node_plainly acts.shared acts.directive]
    exact plain_echo n.parameters
  case render =>
    intro n acts
    rw [node_plainly acts.shared acts.directive]
    exact render n.parameters n.indentation
  case metadata =>
    intro n acts
    rw [node_plainly acts.shared acts.directive]
    exact plain_metadata n.parameters
  case textBlock =>
    intro n acts
    rw [node_text acts]
    exact .throw _
  case unknown =>
    intro n block hn hd
    rw [node_unknown block hn hd]
    exact .throw _
  case last =>
    intro n hnext
    rw [following_none hnext]
    exact .pure rfl
  case next =>
    intro n next hnext ih
    rw [following_some hnext]
    exact ih
  case chainElse =>
    intro n he ih
    rw [chain_else he]
    exact ih
  case chainIf =>
    intro n he ihBody ihFollowing ihBranches
    exact plain_chain he ihBody ihFollowing ihBranches
  case branchesNone =>
    intro n hnext
    rw [branches_none hnext]
    exact .pure ⟨rfl, rfl⟩
  case branchesElse =>
    intro n next hnext he ih
    rw [branches_else hnext he]
    exact .bind ih fun body hbody => .pure ⟨rfl, hbody⟩
  case branchesIf =>
    intro n next hnext he ihBody ihBranches
    exact plain_branches hnext he ihBody ihBranches
  case nil =>
    rw [nodes]
    exact .pure rfl
  case cons =>
    intro n rest ihNode ihRest
    rw [nodes]
    exact .bind ihNode fun first hfirst => .bind ihRest fun others hothers =>
      .pure (plainAll_append hfirst hothers)

end Bare

end Compile

namespace Transform

open Compile Residual

theorem plain_contentsWithin {settings : Settings}
    (bare : ∀ kind, settings.dialect.extension? kind = none) (depth : Nat) (text : String) :
    Plain (contentsWithin settings depth text) := by
  induction depth generalizing text with
  | zero => exact .throw _
  | succ depth ih =>
    refine .after _ fun roots => ?_
    refine (@plain_nodes (env settings (contentsWithin settings depth)) bare ?_).2.2.2.2 roots
    intro parameters indentation
    exact .after _ fun (found, frame) => (ih found.contents).withFrame frame

end Transform

end Stencil
