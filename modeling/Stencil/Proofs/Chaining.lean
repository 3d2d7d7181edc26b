import Mathlib
import Stencil.Compile
import Stencil.Proofs.Vocabularies
import Stencil.Registry

set_option autoImplicit false

/-!
# Chains of branches

The builder keeps open scopes on a stack. `Reads` is the grammar that it follows, without a stack:
nodes side by side, and behind the tag that opens a branch all that belongs to the branch, the next
branch of its chain included. From the grammar: a branch that continues another one is the last
child of its parent, and the branches behind one are those that the tokens name, in their order.
-/

namespace Stencil.Template

def Token.effect (tags : List Tag) (t : Token) : Bool × Bool :=
  let tag := if t.isText then none else Tag.find? tags t.kind
  ((tag.map Tag.opens).getD false, (tag.map Tag.closes).getD false)

theorem Token.effect_of_find? {tags : List Tag} {t : Token} {tag : Tag} (text : t.kind ≠ "text")
    (h : Tag.find? tags t.kind = some tag) : t.effect tags = (tag.opens, tag.closes) := by
  have notText : t.isText = false := beq_eq_false_iff_ne.2 text
  unfold effect
  rw [notText, h]
  rfl

theorem Tag.mem_of_find? {tags : List Tag} {kind : String} {tag : Tag}
    (h : find? tags kind = some tag) : tag ∈ tags ∧ canonicalName tag.name = kind := by
  unfold find? at h
  have named := List.find?_some h
  exact ⟨List.mem_reverse.1 (List.mem_of_find?_eq_some h), eq_of_beq named⟩

theorem Token.exists_tag {tags : List Tag} {t : Token} (acts : t.effect tags ≠ (false, false)) :
    ∃ tag ∈ tags, canonicalName tag.name = t.kind ∧ t.effect tags = (tag.opens, tag.closes) := by
  unfold effect at acts ⊢
  by_cases text : t.isText = true
  · rw [if_pos text] at acts
    exact absurd rfl acts
  · rw [if_neg text] at acts ⊢
    cases found : Tag.find? tags t.kind with
    | none =>
      rw [found] at acts
      exact absurd rfl acts
    | some tag =>
      obtain ⟨mem, named⟩ := Tag.mem_of_find? found
      exact ⟨tag, mem, named, rfl⟩

/-- How tokens are read as nodes, up to the tokens that are left: as nodes side by side, or, behind
a token that has opened a branch, as the one node of that branch. -/
inductive Reads (tags : List Tag) : Option Token → List Token → List Node → List Token → Prop
  | stop {rest : List Token} : Reads tags none rest [] rest
  | leaf {t : Token} {ts rest : List Token} {ns : List Node}
      (effect : t.effect tags = (false, false)) (others : Reads tags none ts ns rest) :
    Reads tags none (t :: ts) (Builder.leafOf t :: ns) rest
  | block {t : Token} {ts mid rest : List Token} {n : Node} {ns : List Node}
      (effect : t.effect tags = (true, false)) (first : Reads tags (some t) ts [n] mid)
      (others : Reads tags none mid ns rest) :
    Reads tags none (t :: ts) (n :: ns) rest
  | unclosed {t : Token} {ts : List Token} {ns : List Node} (body : Reads tags none ts ns []) :
    Reads tags (some t) ts [.block t.kind t.parameters t.indentation ns] []
  | closed {t c : Token} {ts rest : List Token} {ns : List Node}
      (effect : c.effect tags = (false, true)) (body : Reads tags none ts ns (c :: rest)) :
    Reads tags (some t) ts [.block t.kind t.parameters t.indentation ns] rest
  | continued {t b : Token} {ts mid rest : List Token} {ns : List Node} {m : Node}
      (effect : b.effect tags = (true, true)) (body : Reads tags none ts ns (b :: mid))
      (next : Reads tags (some b) mid [m] rest) :
    Reads tags (some t) ts [.block t.kind t.parameters t.indentation (ns ++ [m])] rest

namespace Builder

variable {tags : List Tag}

section Step

variable {t : Token} (b : Builder)

theorem step_leaf (h : t.effect tags = (false, false)) :
    step tags b t = .ok (b.add (leafOf t)) := by
  obtain ⟨opens, closes⟩ := Prod.mk.inj h
  simp only [step, opens, closes]

theorem step_open (h : t.effect tags = (true, false)) :
    step tags b t = .ok { b with scopes := ⟨.ofToken t, []⟩ :: b.scopes } := by
  obtain ⟨opens, closes⟩ := Prod.mk.inj h
  simp only [step, opens, closes]

theorem step_close (h : t.effect tags = (false, true)) (roots : List Node) (s : OpenScope)
    (outer : List OpenScope) :
    step tags ⟨roots, s :: outer⟩ t = .ok (add s.close ⟨roots, outer⟩) := by
  obtain ⟨opens, closes⟩ := Prod.mk.inj h
  simp only [step, opens, closes]

theorem step_branch (h : t.effect tags = (true, true)) (roots : List Node) (s : OpenScope)
    (outer : List OpenScope) :
    step tags ⟨roots, s :: outer⟩ t =
      .ok ⟨roots, ⟨.ofToken t, s.current :: s.earlier⟩ :: outer⟩ := by
  obtain ⟨opens, closes⟩ := Prod.mk.inj h
  simp only [step, opens, closes]

theorem step_stray (h : (t.effect tags).2 = true) (roots : List Node) :
    step tags ⟨roots, []⟩ t = .error (.unexpectedClose t.kind) := by
  change (Option.map Tag.closes (if t.isText then none else Tag.find? tags t.kind)).getD false =
    true at h
  simp only [step, h]
  split <;> first
    | rfl
    | contradiction

end Step

def rootsFrom (tags : List Tag) (b : Builder) (ts : List Token) : Except Failure (List Node) :=
  (ts.foldlM (step tags) b).map fun b => b.finish.roots

theorem rootsFrom_step {b b' : Builder} {t : Token} (h : step tags b t = .ok b')
    (ts : List Token) : rootsFrom tags b (t :: ts) = rootsFrom tags b' ts := by
  unfold rootsFrom
  rw [List.foldlM_cons, h]
  rfl

def addAll (b : Builder) (ns : List Node) : Builder :=
  ns.foldl (fun b n => b.add n) b

theorem addAll_scope (roots : List Node) (block : OpenBlock) (earlier : List OpenBlock)
    (outer : List OpenScope) (ns : List Node) :
    addAll ⟨roots, ⟨block, earlier⟩ :: outer⟩ ns =
      ⟨roots, ⟨{ block with children := ns.reverse ++ block.children }, earlier⟩ :: outer⟩ := by
  induction ns generalizing block with
  | nil => rfl
  | cons n ns ih =>
    change addAll ⟨roots, ⟨block.add n, earlier⟩ :: outer⟩ ns = _
    rw [ih, List.reverse_cons, List.append_assoc]
    rfl

theorem addAll_roots (ns : List Node) : addAll .empty ns = ⟨ns.reverse, []⟩ := by
  suffices ∀ roots, addAll ⟨roots, []⟩ ns = ⟨ns.reverse ++ roots, []⟩ by
    rw [empty, this, List.append_nil]
  induction ns with
  | nil => exact fun _ => rfl
  | cons n ns ih =>
    intro roots
    change addAll ⟨n :: roots, []⟩ ns = _
    rw [ih, List.reverse_cons, List.append_assoc]
    rfl

theorem finish_add_close (roots : List Node) (s : OpenScope) (outer : List OpenScope) :
    (finish ⟨roots, s :: outer⟩).roots = (finish (add s.close ⟨roots, outer⟩)).roots := by
  cases outer with
  | nil =>
    change roots.reverse ++ [s.close] = (s.close :: roots).reverse ++ []
    rw [List.reverse_cons, List.append_nil]
  | cons s' outer => rfl

/-- The branches before a node, each with the next one as its last child. -/
def nest (earlier : List OpenBlock) (n : Node) : Node :=
  earlier.foldl (fun inner b => (b.add inner).close) n

/-- The stack takes tokens as nodes: it adds them where they stand side by side, and closes the
scope of a branch. -/
def Follows (tags : List Tag) (ts : List Token) (ns : List Node) (rest : List Token) :
    Option Token → Prop
  | none => ∀ b, rootsFrom tags b ts = rootsFrom tags (addAll b ns) rest
  | some t => ∀ n ∈ ns, ∀ roots earlier outer,
    rootsFrom tags ⟨roots, ⟨.ofToken t, earlier⟩ :: outer⟩ ts =
      rootsFrom tags (add (nest earlier n) ⟨roots, outer⟩) rest

/-- The stack does what the grammar says, whatever is on it and whatever tokens are left. -/
theorem follows_of_reads {opener : Option Token} {ts rest : List Token} {ns : List Node}
    (h : Reads tags opener ts ns rest) : Follows tags ts ns rest opener := by
  induction h with
  | stop => exact fun _ => rfl
  | leaf effect _ ih =>
    intro b
    rw [rootsFrom_step (step_leaf b effect), ih]
    rfl
  | block effect _ _ ihFirst ihOthers =>
    intro b
    rw [rootsFrom_step (step_open b effect), ihFirst _ List.mem_cons_self, ihOthers]
    rfl
  | unclosed _ ih =>
    intro n hn roots earlier outer
    obtain rfl := List.mem_singleton.1 hn
    rw [ih, OpenBlock.ofToken, addAll_scope, List.append_nil]
    refine congrArg Except.ok ((finish_add_close _ _ _).trans ?_)
    rw [OpenScope.close, OpenBlock.close, List.reverse_reverse]
    rfl
  | closed effect _ ih =>
    intro n hn roots earlier outer
    obtain rfl := List.mem_singleton.1 hn
    rw [ih, OpenBlock.ofToken, addAll_scope, rootsFrom_step (step_close effect _ _ _),
      OpenScope.close, OpenBlock.close, List.append_nil, List.reverse_reverse]
    rfl
  | continued effect _ _ ihBody ihNext =>
    intro n hn roots earlier outer
    obtain rfl := List.mem_singleton.1 hn
    rw [ihBody, OpenBlock.ofToken, addAll_scope, rootsFrom_step (step_branch effect _ _ _),
      ihNext _ List.mem_cons_self, nest, List.foldl_cons, OpenBlock.add, OpenBlock.close,
      List.append_nil, List.reverse_cons, List.reverse_reverse]
    rfl

end Builder

variable {tags : List Tag}

theorem Reads.length_le {opener : Option Token} {ts rest : List Token} {ns : List Node}
    (h : Reads tags opener ts ns rest) : rest.length ≤ ts.length := by
  induction h with
  | stop => exact Nat.le_refl _
  | leaf _ _ ih => exact Nat.le_succ_of_le ih
  | block _ _ _ ihFirst ihOthers => exact Nat.le_succ_of_le (Nat.le_trans ihOthers ihFirst)
  | unclosed _ ih => exact ih
  | closed _ _ ih => exact Nat.le_of_succ_le ih
  | continued _ _ _ ihBody ihNext => exact Nat.le_trans ihNext (Nat.le_of_succ_le ihBody)

theorem exists_reads (ts : List Token) :
    (∃ ns rest, Reads tags none ts ns rest ∧ ∀ c ∈ rest.head?, (c.effect tags).2 = true) ∧
      ∀ t, ∃ n rest, Reads tags (some t) ts [n] rest := by
  induction hl : ts.length using Nat.strongRecOn generalizing ts with
  | _ len ih =>
    have body : ∃ ns rest, Reads tags none ts ns rest ∧
        ∀ c ∈ rest.head?, (c.effect tags).2 = true := by
      cases ts with
      | nil => exact ⟨[], [], .stop, nofun⟩
      | cons t ts =>
        have shorter : ts.length < len := by
          rw [← hl]
          exact Nat.lt_succ_self _
        rcases he : t.effect tags with ⟨_ | _, _ | _⟩
        · obtain ⟨⟨ns, rest, others, ends⟩, -⟩ := ih _ shorter ts rfl
          exact ⟨_, rest, .leaf he others, ends⟩
        · exact ⟨[], t :: ts, .stop, fun c hc => by rw [← Option.some.inj hc, he]⟩
        · obtain ⟨-, branch⟩ := ih _ shorter ts rfl
          obtain ⟨n, mid, first⟩ := branch t
          obtain ⟨⟨ns, rest, others, ends⟩, -⟩ :=
            ih _ (Nat.lt_of_le_of_lt first.length_le shorter) mid rfl
          exact ⟨_, rest, .block he first others, ends⟩
        · exact ⟨[], t :: ts, .stop, fun c hc => by rw [← Option.some.inj hc, he]⟩
    refine ⟨body, fun t => ?_⟩
    obtain ⟨ns, rest, read, ends⟩ := body
    cases rest with
    | nil => exact ⟨_, [], .unclosed read⟩
    | cons c rest =>
      have closes := ends c rfl
      have shorter : rest.length < len := by
        rw [← hl]
        exact read.length_le
      rcases he : c.effect tags with ⟨_ | _, _ | _⟩
      · rw [he] at closes
        exact absurd closes Bool.false_ne_true
      · exact ⟨_, rest, .closed he read⟩
      · rw [he] at closes
        exact absurd closes Bool.false_ne_true
      · obtain ⟨-, branch⟩ := ih _ shorter rest rfl
        obtain ⟨m, rest', next⟩ := branch c
        exact ⟨_, rest', .continued he read next⟩

/-- A tree that is built is one that the grammar reads from all of the tokens. -/
theorem reads_of_ofTokens {ts : List Token} {f : Forest} (h : Forest.ofTokens tags ts = .ok f) :
    Reads tags none ts f.roots [] := by
  have roots : Builder.rootsFrom tags .empty ts = .ok f.roots := by
    unfold Builder.rootsFrom
    unfold Forest.ofTokens at h
    cases hb : ts.foldlM (Builder.step tags) .empty with
    | error e =>
      rw [hb] at h
      exact nomatch h
    | ok b =>
      rw [hb] at h
      rw [← Except.ok.inj h]
      rfl
  obtain ⟨ns, rest, read, ends⟩ := (@exists_reads tags ts).1
  have built := Builder.follows_of_reads read .empty
  rw [roots, Builder.addAll_roots] at built
  cases rest with
  | nil =>
    have same : f.roots = ns.reverse.reverse ++ [] := Except.ok.inj built
    rw [same, List.append_nil, List.reverse_reverse]
    exact read
  | cons c rest =>
    unfold Builder.rootsFrom at built
    rw [List.foldlM_cons, Builder.step_stray (ends c rfl)] at built
    exact nomatch built

def continuationKinds : List String := ["elseif", "else"]

/-- A vocabulary in which the tags that both close and open are those that continue a chain. -/
def Chains (tags : List Tag) : Prop :=
  ∀ t : Token, t.effect tags = (true, true) ↔ t.kind ∈ continuationKinds

theorem chains_builtin {entry : String × Dialect} (h : entry ∈ Registry.builtin.entries) :
    Chains entry.2.tags := by
  have branching : ∀ e ∈ Registry.builtin.entries, ∀ tag ∈ e.2.tags, tag.opens = true →
      tag.closes = true → canonicalName tag.name ∈ continuationKinds := by decide
  have found : ∀ e ∈ Registry.builtin.entries, ∀ kind ∈ continuationKinds, kind ≠ "text" ∧
      ((Tag.find? e.2.tags kind).map fun tag => (tag.opens, tag.closes)) = some (true, true) := by
    decide
  intro t
  constructor
  · intro effect
    obtain ⟨tag, mem, named, flags⟩ := @Token.exists_tag entry.2.tags t (by simp [effect])
    obtain ⟨opens, closes⟩ := Prod.mk.inj (flags.symm.trans effect)
    rw [← named]
    exact branching entry h tag mem opens closes
  · intro kind
    obtain ⟨notText, flags⟩ := found entry h t.kind kind
    obtain ⟨tag, hf, both⟩ := Option.map_eq_some_iff.1 flags
    rw [Token.effect_of_find? notText hf]
    exact both

def chainKinds : List String := ["if", "unless"]

theorem opens_chain {entry : String × Dialect} (h : entry ∈ Registry.builtin.entries) {t : Token}
    (kind : t.kind ∈ chainKinds) : (t.effect entry.2.tags).1 = true := by
  have found : ∀ e ∈ Registry.builtin.entries, ∀ kind ∈ chainKinds, kind ≠ "text" ∧
      (Tag.find? e.2.tags kind).map Tag.opens = some true := by decide
  obtain ⟨notText, opens⟩ := found entry h t.kind kind
  obtain ⟨tag, hf, opens⟩ := Option.map_eq_some_iff.1 opens
  rw [Token.effect_of_find? notText hf]
  exact opens

namespace Node

def Continues (n : Node) : Prop := n.kind ∈ continuationKinds

theorem isContinuation_iff {n : Node} :
    n.isContinuation = true ↔ n.isBlock = true ∧ n.Continues := by
  cases n with
  | text v i => simp [isContinuation, isBlock]
  | leaf k p i => simp [isContinuation, isBlock]
  | block k p i cs => simp [isContinuation, isBlock, Continues, continuationKinds, kind]

/-- Among the children of a node, only the last one continues a chain, and only a block does. -/
structure Chained (n : Node) : Prop where
  last : ∀ c ∈ n.children.dropLast, ¬ c.Continues
  block : ∀ c ∈ n.children, c.Continues → c.isBlock = true

namespace Chained

variable {n : Node} (h : n.Chained)
include h

theorem eq_nil (before : List Node) (c : Node) (after : List Node)
    (split : n.children = before ++ c :: after) (continues : c.Continues) : after = [] := by
  have last := h.last
  rw [split] at last
  cases after with
  | nil => rfl
  | cons d after =>
    refine absurd continues (last c ?_)
    rw [List.dropLast_append_of_ne_nil (List.cons_ne_nil _ _), List.dropLast_cons_cons]
    exact List.mem_append_right _ List.mem_cons_self

theorem countP_le : (n.children.countP fun c => decide (c.kind ∈ continuationKinds)) ≤ 1 := by
  have none : (n.children.dropLast.countP fun c => decide (c.kind ∈ continuationKinds)) = 0 := by
    refine List.countP_eq_zero.2 fun c hc => ?_
    rw [decide_eq_true_eq]
    exact h.last c hc
  rcases List.eq_nil_or_concat' n.children with nil | ⟨front, c, split⟩
  · rw [nil]
    exact Nat.zero_le _
  · rw [split, List.dropLast_concat] at none
    rw [split, List.countP_append, none, Nat.zero_add]
    exact List.countP_le_length

theorem getLast?_eq {c : Node} (mem : c ∈ n.children) (continues : c.Continues) :
    n.children.getLast? = some c := by
  obtain ⟨before, after, split⟩ := List.append_of_mem mem
  rw [split, h.eq_nil before c after split continues, List.getLast?_concat]

theorem branchBody : ∀ c ∈ n.branchBody, ¬ c.Continues := by
  intro c hc continues
  unfold Node.branchBody at hc
  split at hc
  · exact h.last c hc continues
  · rename_i ends
    have named : c.isContinuation = true := isContinuation_iff.2 ⟨h.block c hc continues, continues⟩
    refine ends ?_
    rw [nextBranch, h.getLast?_eq hc continues, Option.filter_some, if_pos named]
    rfl

end Chained

/-- The branches behind a node in its chain, nearest first: those that `nextBranch` comes to. -/
def laterBranches (n : Node) : List Node :=
  match _h : n.nextBranch with
  | none => []
  | some next => next :: laterBranches next
termination_by sizeOf n
decreasing_by exact Compile.sizeOf_nextBranch _h

theorem laterBranches_none {n : Node} (h : n.nextBranch = none) : n.laterBranches = [] := by
  rw [laterBranches]
  split
  · rfl
  · rename_i hs
    rw [h] at hs
    exact nomatch hs

theorem laterBranches_some {n next : Node} (h : n.nextBranch = some next) :
    n.laterBranches = next :: next.laterBranches := by
  rw [laterBranches]
  split
  · rename_i hs
    rw [h] at hs
    exact nomatch hs
  · rename_i other hs
    rw [h] at hs
    rw [Option.some.inj hs]

theorem nextBranch_block_none {kind : String} {parameters : Option String} {indentation : Nat}
    {ns : List Node} (h : ∀ n ∈ ns, ¬ n.Continues) :
    (block kind parameters indentation ns).nextBranch = none := by
  refine Option.filter_eq_none_iff.2 fun c hc continues => ?_
  exact h c (List.mem_of_getLast? hc) (isContinuation_iff.1 continues).2

/-- The node stands for the token: it is its leaf, or a block that it opens. -/
def StandsFor (n : Node) (t : Token) : Prop :=
  n = Builder.leafOf t ∨ ∃ children, n = block t.kind t.parameters t.indentation children

theorem StandsFor.kind {n : Node} {t : Token} (h : n.StandsFor t) : n.kind = t.kind := by
  rcases h with rfl | ⟨children, rfl⟩
  · unfold Builder.leafOf
    split
    · rename_i text
      exact (eq_of_beq text).symm
    · rfl
  · rfl

end Node

/-- The tokens that continue the branch that has just been opened, up to the end of its scope, when
`depth` more scopes have been opened inside it. -/
def continuations (tags : List Tag) : Nat → List Token → List Token
  | _, [] => []
  | depth, t :: ts =>
    match t.effect tags, depth with
    | (true, false), depth => continuations tags (depth + 1) ts
    | (false, true), 0 => []
    | (false, true), depth + 1 => continuations tags depth ts
    | (true, true), 0 => t :: continuations tags 0 ts
    | (true, true), depth + 1 => continuations tags (depth + 1) ts
    | (false, false), depth => continuations tags depth ts

/-- The tokens that make nodes, in order, each with the tokens behind it. -/
def sites (tags : List Tag) : List Token → List (Token × List Token)
  | [] => []
  | t :: ts => if t.effect tags = (false, true) then sites tags ts else (t, ts) :: sites tags ts

theorem sites_cons {t : Token} {ts : List Token} (h : t.effect tags ≠ (false, true)) :
    sites tags (t :: ts) = (t, ts) :: sites tags ts := by
  rw [sites, if_neg h]

theorem Reads.block_of_opener {t : Token} {ts rest : List Token} {n : Node}
    (h : Reads tags (some t) ts [n] rest) :
    ∃ children, n = .block t.kind t.parameters t.indentation children := by
  cases h with
  | unclosed | closed | continued => exact ⟨_, rfl⟩

theorem Chains.not_mem (chains : Chains tags) {t : Token} {opens closes : Bool}
    (effect : t.effect tags = (opens, closes)) (apart : (opens && closes) = false) :
    t.kind ∉ continuationKinds := by
  intro kind
  have both := (chains t).2 kind
  rw [effect] at both
  obtain ⟨rfl, rfl⟩ := Prod.mk.inj both
  exact absurd apart (by decide)

section Grammar

variable (chains : Chains tags) {opener : Option Token} {ts rest : List Token} {ns : List Node}
include chains

theorem not_continues_leafOf {t : Token} (effect : t.effect tags = (false, false)) :
    ¬ (Builder.leafOf t).Continues := by
  unfold Builder.leafOf Node.Continues
  split
  · exact show "text" ∉ continuationKinds by decide
  · exact chains.not_mem effect rfl

theorem Reads.not_continues (h : Reads tags opener ts ns rest) (side : opener = none) :
    ∀ n ∈ ns, ¬ n.Continues := by
  induction h with
  | stop => exact nofun
  | leaf effect _ ih => exact List.forall_mem_cons.2 ⟨not_continues_leafOf chains effect, ih side⟩
  | block effect first _ _ ihOthers =>
    refine List.forall_mem_cons.2 ⟨?_, ihOthers side⟩
    obtain ⟨children, rfl⟩ := first.block_of_opener
    exact chains.not_mem effect rfl
  | unclosed | closed | continued => exact nomatch side

theorem Reads.chained (h : Reads tags opener ts ns rest) :
    ∀ n ∈ ns, Node.Every Node.Chained n := by
  induction h with
  | stop => exact nofun
  | leaf _ _ ih =>
    refine List.forall_mem_cons.2 ⟨?_, ih⟩
    unfold Builder.leafOf
    split
    · exact .of_children ⟨nofun, nofun⟩ nofun
    · exact .of_children ⟨nofun, nofun⟩ nofun
  | block _ _ _ ihFirst ihOthers =>
    exact List.forall_mem_cons.2 ⟨ihFirst _ List.mem_cons_self, ihOthers⟩
  | unclosed body ih | closed _ body ih =>
    have side := body.not_continues chains rfl
    refine List.forall_mem_singleton.2 (.of_children ⟨?_, ?_⟩ ih)
    · exact fun c hc => side c ((List.dropLast_sublist _).subset hc)
    · exact fun c hc continues => absurd continues (side c hc)
  | @continued t b ts mid rest ns m _ body next ihBody ihNext =>
    have side := body.not_continues chains rfl
    refine List.forall_mem_singleton.2 (.of_children ⟨?_, ?_⟩ ?_)
    · change ∀ c ∈ (ns ++ [m]).dropLast, ¬ c.Continues
      rw [List.dropLast_concat]
      exact side
    · refine List.forall_mem_append.2 ⟨fun c hc continues => absurd continues (side c hc), ?_⟩
      refine List.forall_mem_singleton.2 fun _ => ?_
      obtain ⟨children, rfl⟩ := next.block_of_opener
      rfl
    · exact List.forall_mem_append.2 ⟨ihBody, ihNext⟩

end Grammar

theorem Reads.continuations_eq {opener : Option Token} {ts rest : List Token} {ns : List Node}
    (h : Reads tags opener ts ns rest) (depth : Nat) :
    continuations tags (if opener.isSome then depth + 1 else depth) ts =
      continuations tags depth rest := by
  induction h generalizing depth with
  | stop => rfl
  | leaf effect _ ih => simpa [continuations, effect] using ih depth
  | block effect _ _ ihFirst ihOthers =>
    simpa [continuations, effect] using (ihFirst depth).trans (ihOthers depth)
  | unclosed _ ih => simpa [continuations] using ih (depth + 1)
  | closed effect _ ih => simpa [continuations, effect] using ih (depth + 1)
  | continued effect _ _ ihBody ihNext =>
    simpa [continuations, effect] using (ihBody (depth + 1)).trans (by
      simpa [continuations, effect] using ihNext depth)

theorem Reads.laterBranches (chains : Chains tags) {opener : Option Token} {ts rest : List Token}
    {ns : List Node} (h : Reads tags opener ts ns rest) (opened : opener.isSome = true) :
    ∀ n ∈ ns, List.Forall₂ Node.StandsFor n.laterBranches (continuations tags 0 ts) := by
  induction h with
  | stop | leaf | block => exact absurd opened Bool.false_ne_true
  | unclosed body =>
    refine List.forall_mem_singleton.2 ?_
    rw [Node.laterBranches_none (Node.nextBranch_block_none (body.not_continues chains rfl)),
      show continuations tags 0 _ = _ from body.continuations_eq 0]
    exact .nil
  | @closed t c ts rest ns effect body =>
    refine List.forall_mem_singleton.2 ?_
    rw [Node.laterBranches_none (Node.nextBranch_block_none (body.not_continues chains rfl)),
      show continuations tags 0 _ = _ from body.continuations_eq 0]
    simp [continuations, effect]
  | @continued t b ts mid rest ns m effect body next _ ihNext =>
    have stands := next.block_of_opener
    have named : m.isContinuation = true := by
      obtain ⟨children, rfl⟩ := stands
      exact Node.isContinuation_iff.2 ⟨rfl, (chains b).1 effect⟩
    have nextBranch : (Node.block t.kind t.parameters t.indentation (ns ++ [m])).nextBranch =
        some m := by
      rw [Node.nextBranch, Node.children, List.getLast?_concat, Option.filter_some, if_pos named]
    have tokens : continuations tags 0 ts = b :: continuations tags 0 mid := by
      rw [show continuations tags 0 _ = _ from body.continuations_eq 0]
      simp [continuations, effect]
    refine List.forall_mem_singleton.2 ?_
    rw [Node.laterBranches_some nextBranch, tokens]
    exact .cons (.inr stands) (ihNext rfl m List.mem_cons_self)

/-- A node stands for the token of a site, and if it is a block, the branches behind it stand for
the tokens that continue it. -/
structure Node.Made (tags : List Tag) (n : Node) (site : Token × List Token) : Prop where
  stands : n.StandsFor site.1
  opens : (site.1.effect tags).1 = n.isBlock
  branches : n.isBlock = true →
    List.Forall₂ StandsFor n.laterBranches (continuations tags 0 site.2)

theorem Node.made_leafOf {t : Token} (effect : t.effect tags = (false, false)) (ts : List Token) :
    (Builder.leafOf t).Made tags (t, ts) ∧ walk (Builder.leafOf t) = [Builder.leafOf t] := by
  have leaf : (Builder.leafOf t).isBlock = false ∧
      walk (Builder.leafOf t) = [Builder.leafOf t] := by
    unfold Builder.leafOf
    split <;> exact ⟨rfl, rfl⟩
  refine ⟨⟨.inl rfl, ?_, fun block => absurd (leaf.1.symm.trans block) Bool.false_ne_true⟩, leaf.2⟩
  rw [effect, leaf.1]

theorem Reads.made (chains : Chains tags) {t : Token} {ts rest : List Token} {n : Node}
    (h : Reads tags (some t) ts [n] rest) (opens : (t.effect tags).1 = true) :
    n.Made tags (t, ts) := by
  refine ⟨.inr h.block_of_opener, ?_, fun _ => h.laterBranches chains rfl n List.mem_cons_self⟩
  obtain ⟨children, rfl⟩ := h.block_of_opener
  exact opens

/-- The nodes in the order in which they are walked are those of the tokens in their order. The
nodes of the tokens that are left come after them. -/
theorem Reads.walk_sites (chains : Chains tags) {opener : Option Token} {ts rest : List Token}
    {ns : List Node} (h : Reads tags opener ts ns rest)
    (opens : ∀ t ∈ opener, (t.effect tags).1 = true) {later : List Node}
    (others : List.Forall₂ (Node.Made tags) later (sites tags rest)) :
    List.Forall₂ (Node.Made tags) (Node.walkAll ns ++ later)
      (opener.toList.map (·, ts) ++ sites tags ts) := by
  have bare : ∀ t ∈ (none : Option Token), (t.effect tags).1 = true := by simp
  induction h generalizing later with
  | stop => exact others
  | leaf effect _ ih =>
    obtain ⟨made, walk⟩ := Node.made_leafOf effect _
    rw [Node.walkAll, walk, sites_cons (by simp [effect])]
    exact .cons made (ih bare others)
  | block effect _ _ ihFirst ihOthers =>
    have first := ihFirst (fun t ht => by rw [← Option.some.inj ht, effect]) (ihOthers bare others)
    rw [Node.walkAll, Node.walkAll, List.append_nil] at first
    rw [Node.walkAll, List.append_assoc, sites_cons (by simp [effect])]
    exact first
  | unclosed body ih =>
    rw [Node.walkAll, Node.walkAll, List.append_nil, Node.walk]
    exact .cons ((Reads.unclosed body).made chains (opens _ rfl)) (ih bare others)
  | closed effect body ih =>
    rw [Node.walkAll, Node.walkAll, List.append_nil, Node.walk]
    refine .cons ((Reads.closed effect body).made chains (opens _ rfl)) (ih bare ?_)
    rw [sites, if_pos effect]
    exact others
  | continued effect body next ihBody ihNext =>
    rw [Node.walkAll, Node.walkAll, List.append_nil, Node.walk, Node.walkAll_append,
      List.cons_append, List.append_assoc]
    refine .cons ((Reads.continued effect body next).made chains (opens _ rfl)) (ihBody bare ?_)
    rw [sites_cons (by simp [effect])]
    exact ihNext (fun t ht => by rw [← Option.some.inj ht, effect]) others

/-- For every sequence of tokens that a dialect of the program builds a tree from: no root continues
a chain, and below a node only the last child does, so that there is at most one and the body of a
branch has none. The nodes come in the order of their tokens, and the branches behind an `if` or an
`unless` are those of the tokens that continue it, in their order. -/
theorem continuations_are_last_children (entry : String × Dialect)
    (builtin : entry ∈ Registry.builtin.entries) (tokens : List Token) (forest : Forest)
    (built : Forest.ofTokens entry.2.tags tokens = .ok forest) :
    (∀ n ∈ forest.roots, n.kind ∉ continuationKinds) ∧
    (∀ n ∈ Node.walkAll forest.roots,
      (∀ before c after, n.children = before ++ c :: after → c.kind ∈ continuationKinds →
        after = []) ∧
      (n.children.countP fun c => decide (c.kind ∈ continuationKinds)) ≤ 1 ∧
      (∀ c ∈ n.branchBody, c.kind ∉ continuationKinds)) ∧
    List.Forall₂ (fun n site => Node.StandsFor n site.1 ∧
        (n.kind ∈ chainKinds →
          List.Forall₂ Node.StandsFor n.laterBranches (continuations entry.2.tags 0 site.2)))
      (Node.walkAll forest.roots) (sites entry.2.tags tokens) := by
  have chains := chains_builtin builtin
  have read := reads_of_ofTokens built
  refine ⟨read.not_continues chains rfl, ?_, ?_⟩
  · intro n hn
    obtain ⟨root, hroot, hn⟩ := Node.mem_walkAll.1 hn
    have chained : n.Chained := read.chained chains root hroot n hn
    exact ⟨chained.eq_nil, chained.countP_le, chained.branchBody⟩
  · have walk := read.walk_sites chains nofun .nil
    rw [List.append_nil] at walk
    refine walk.imp fun n site made => ⟨made.stands, fun kind => made.branches ?_⟩
    rw [made.stands.kind] at kind
    rw [← made.opens]
    exact opens_chain builtin kind

section Example

def bareToken (kind : String) (parameters : Option String) : Token :=
  ⟨kind, 0, false, false, parameters, none, 0⟩

def chainRest : List Token :=
  [bareToken "unless" (some "b"), bareToken "else" none, bareToken "endunless" none,
    bareToken "elseif" (some "c"), bareToken "else" none, bareToken "variable" (some "d")]

def chainNode : Node :=
  .block "if" (some "a") 0
    [.block "unless" (some "b") 0 [.block "else" none 0 []],
      .block "elseif" (some "c") 0 [.block "else" none 0 [.leaf "variable" (some "d") 0]]]

theorem open_chain_keeps_its_branches :
    ("php", Dialect.php) ∈ Registry.builtin.entries ∧
      Forest.ofTokens Dialect.php.tags (bareToken "if" (some "a") :: chainRest) =
        .ok ⟨[chainNode], ["else"]⟩ ∧
      (∀ c ∈ chainNode.branchBody, c.kind ∉ continuationKinds) ∧
      List.Forall₂ Node.StandsFor chainNode.laterBranches
        [bareToken "elseif" (some "c"), bareToken "else" none] := by
  have builtin : ("php", Dialect.php) ∈ Registry.builtin.entries :=
    List.mem_cons_of_mem _ List.mem_cons_self
  have built : Forest.ofTokens Dialect.php.tags (bareToken "if" (some "a") :: chainRest) =
      .ok ⟨[chainNode], ["else"]⟩ := by rfl
  obtain ⟨-, below, walk⟩ := continuations_are_last_children _ builtin _ _ built
  have branches : continuations Dialect.php.tags 0 chainRest =
      [bareToken "elseif" (some "c"), bareToken "else" none] := by decide
  refine ⟨builtin, built, (below chainNode List.mem_cons_self).2.2, ?_⟩
  rw [← branches]
  cases walk with
  | cons first _ => exact first.2 (by decide)

end Example

end Stencil.Template
