import Stencil.Proofs.Chaining

set_option autoImplicit false

/-!
# Writing a forest as tokens

A forest is written with each node before its children. A block that begins a chain is closed once,
behind the last branch of the chain; the branches inside it have no end of their own. Building a
tree from the tokens gives the forest back, whatever tokens stand for its nodes and its ends.
-/

namespace Stencil.Template

/-- What is written of a forest: a node, or the end of a scope. -/
inductive Mark
  | node (n : Node)
  | close

namespace Node

/-- The end that stands behind a whole chain, where the node begins one. -/
def ending (n : Node) : List Mark :=
  if n.isBlock && !n.isContinuation then [.close] else []

mutual

def marks : Node → List Mark
  | text v i => [.node (text v i)]
  | leaf k p i => [.node (leaf k p i)]
  | block k p i cs => .node (block k p i cs) :: marksAll cs

def marksAll : List Node → List Mark
  | [] => []
  | n :: ns => marks n ++ ending n ++ marksAll ns

end

/-- What a vocabulary lets a node be: a text, a variable or a tag by itself, or a block that its tag
opens. -/
def Allowed (tags : List Tag) : Node → Prop
  | text .. => True
  | leaf kind .. => kind = "variable" ∨
    ∃ tag, Tag.find? tags kind = some tag ∧ tag.opens = false ∧ tag.closes = false
  | block kind .. => ∃ tag, Tag.find? tags kind = some tag ∧ tag.opens = true

/-- A node that the vocabulary allows, none of whose children but the last continues a chain. -/
structure Linear (tags : List Tag) (n : Node) : Prop where
  allowed : n.Allowed tags
  last : ∀ c ∈ n.children.dropLast, ¬ c.Continues

theorem marks_eq (n : Node) : n.marks = .node n :: marksAll n.children := by
  cases n <;> rfl

/-- Induction on a forest: on each tree, and on the trees side by side. -/
theorem forest_induction {OfNode : Node → Prop} {OfNodes : List Node → Prop}
    (text : ∀ v i, OfNode (.text v i)) (leaf : ∀ k p i, OfNode (.leaf k p i))
    (block : ∀ k p i cs, OfNodes cs → OfNode (.block k p i cs)) (nil : OfNodes [])
    (cons : ∀ n ns, OfNode n → OfNodes ns → OfNodes (n :: ns)) :
    (∀ n, OfNode n) ∧ ∀ ns, OfNodes ns :=
  marks.mutual_induct OfNode OfNodes text leaf block nil cons

theorem mem_walkAll_of_mem_marksAll :
    (∀ (n m : Node), .node m ∈ n.marks → m ∈ n.walk) ∧
    (∀ (ns : List Node) (m : Node), .node m ∈ marksAll ns → m ∈ walkAll ns) := by
  apply forest_induction
  case text => simp [marks, walk]
  case leaf => simp [marks, walk]
  case block =>
    intro k p i cs ih m hm
    rcases List.mem_cons.1 hm with same | below
    · rw [Mark.node.inj same]
      exact self_mem_walk _
    · exact List.mem_cons_of_mem _ (ih m below)
  case nil => simp [marksAll]
  case cons =>
    intro n ns ihFirst ihOthers m hm
    have apart : Mark.node m ∉ n.ending := by
      unfold ending
      split <;> simp
    simp only [marksAll, List.mem_append, apart, or_false] at hm
    simp only [walkAll, List.mem_append]
    exact hm.imp (ihFirst m) (ihOthers m)

end Node

/-- A token that may be written for a mark: one that stands for the node, or one that closes. -/
def Mark.WrittenAs (tags : List Tag) : Mark → Token → Prop
  | .node n, t => n.StandsFor t
  | .close, t => t.effect tags = (false, true)

/-- The tokens that a forest may be written as. -/
def Writes (tags : List Tag) (ns : List Node) (ts : List Token) : Prop :=
  List.Forall₂ (Mark.WrittenAs tags) (Node.marksAll ns) ts

theorem exists_written_append {tags : List Tag} {ms ms' : List Mark} {ts : List Token}
    (h : List.Forall₂ (Mark.WrittenAs tags) (ms ++ ms') ts) :
    ∃ us us', ts = us ++ us' ∧ List.Forall₂ (Mark.WrittenAs tags) ms us ∧
      List.Forall₂ (Mark.WrittenAs tags) ms' us' :=
  ⟨_, _, (List.take_append_drop ms.length ts).symm,
    (List.forall₂_take_append ts ms ms' h.flip).flip,
    (List.forall₂_drop_append ts ms ms' h.flip).flip⟩

theorem Writes.cons_inv {tags : List Tag} {n : Node} {ns : List Node} {ts : List Token}
    (h : Writes tags (n :: ns) ts) :
    ∃ t inner ends others, ts = t :: inner ++ ends ++ others ∧ n.StandsFor t ∧
      Writes tags n.children inner ∧
      List.Forall₂ (Mark.WrittenAs tags) n.ending ends ∧ Writes tags ns others := by
  unfold Writes at h
  rw [Node.marksAll, Node.marks_eq] at h
  obtain ⟨front, others, rfl, hfront, hothers⟩ := exists_written_append h
  obtain ⟨first, ends, rfl, hfirst, hends⟩ := exists_written_append hfront
  obtain ⟨t, inner, ht, hinner, rfl⟩ := List.forall₂_cons_left_iff.1 hfirst
  exact ⟨t, inner, ends, others, rfl, ht, hinner, hends, hothers⟩

namespace Builder

def Takes (tags : List Tag) (b : Builder) (ts : List Token) (b' : Builder) : Prop :=
  ts.foldlM (step tags) b = .ok b'

variable {tags : List Tag} {a b c : Builder} {t : Token} {ts us : List Token}

theorem Takes.nil (tags : List Tag) (b : Builder) : Takes tags b [] b := rfl

theorem Takes.trans (first : Takes tags a ts b) (second : Takes tags b us c) :
    Takes tags a (ts ++ us) c := by
  unfold Takes at first second ⊢
  rw [List.foldlM_append, first]
  exact second

theorem Takes.step (h : Builder.step tags b t = .ok c) : Takes tags b [t] c := by
  unfold Takes
  rw [List.foldlM_cons, h]
  rfl

theorem Takes.cons (first : Builder.step tags a t = .ok b) (others : Takes tags b ts c) :
    Takes tags a (t :: ts) c :=
  (Takes.step first).trans others

theorem takes_leaves (h : ∀ t ∈ ts, t.effect tags = (false, false)) (b : Builder) :
    Takes tags b ts (addAll b (ts.map leafOf)) := by
  induction ts generalizing b with
  | nil => exact .nil tags b
  | cons t ts ih =>
    obtain ⟨first, others⟩ := List.forall_mem_cons.1 h
    exact .cons (step_leaf b first) (ih others _)

theorem ofTokens_of_takes {ns : List Node} (h : Takes tags .empty ts (addAll .empty ns)) :
    Forest.ofTokens tags ts = .ok ⟨ns, []⟩ := by
  unfold Forest.ofTokens
  rw [show ts.foldlM (Builder.step tags) .empty = .ok (addAll .empty ns) from h, addAll_roots]
  change Except.ok (⟨ns.reverse.reverse ++ [], []⟩ : Forest) = _
  rw [List.reverse_reverse, List.append_nil]

end Builder

/-- A vocabulary in which the tags that both close and open continue chains, and which has no tag
that is called like a text or a variable. -/
structure Writable (tags : List Tag) : Prop where
  chains : Chains tags
  reserved : ∀ kind ∈ ["text", "variable"], Tag.find? tags kind = none

section Vocabulary

variable {tags : List Tag} (writable : Writable tags) {n : Node} {t : Token}
include writable

theorem effect_of_reserved {t : Token} (h : t.kind ∈ ["text", "variable"]) :
    t.effect tags = (false, false) := by
  unfold Token.effect
  rw [writable.reserved t.kind h]
  simp

theorem effect_of_flat (allowed : n.Allowed tags) (stands : n.StandsFor t)
    (flat : n.isBlock = false) : t.effect tags = (false, false) ∧ n = Builder.leafOf t := by
  have leaf : n = Builder.leafOf t := by
    rcases stands with same | ⟨children, rfl⟩
    · exact same
    · cases flat
  refine ⟨?_, leaf⟩
  subst leaf
  unfold Builder.leafOf at allowed
  unfold Token.effect
  by_cases text : t.isText = true
  · simp [text]
  · simp only [text] at allowed ⊢
    rcases allowed with named | ⟨tag, found, opens, closes⟩
    · simp [named, writable.reserved]
    · simp [found, opens, closes]

theorem effect_of_block (allowed : n.Allowed tags) (stands : n.StandsFor t)
    (block : n.isBlock = true) :
    t.effect tags = (true, n.isContinuation) ∧
      n = .block t.kind t.parameters t.indentation n.children := by
  rcases stands with rfl | ⟨children, rfl⟩
  · unfold Builder.leafOf at block
    split at block <;> cases block
  · obtain ⟨tag, found, opens⟩ := allowed
    have notText : t.kind ≠ "text" := by
      intro text
      rw [text, writable.reserved "text" (by simp)] at found
      cases found
    have effect := Token.effect_of_find? notText found
    have continues := writable.chains t
    rw [effect, opens, Prod.mk.injEq] at continues
    rw [effect, opens]
    refine ⟨congrArg _ ?_, rfl⟩
    rw [Bool.eq_iff_iff, Node.isContinuation_iff]
    simpa [Node.isBlock, Node.Continues, Node.kind] using continues

end Vocabulary

namespace Builder

variable {tags : List Tag}

/-- The nodes fill a branch that is open: closing its scope behind them gives the branches before
it, with the branch and all of its nodes at their end. -/
def Fills (tags : List Tag) (ns : List Node) : Prop :=
  ∀ ts, Writes tags ns ts → ∀ roots block earlier outer, ∃ s,
    Takes tags ⟨roots, ⟨block, earlier⟩ :: outer⟩ ts ⟨roots, s :: outer⟩ ∧
      s.close = nest earlier { block with children := ns.reverse ++ block.children }.close

theorem fills_nil (tags : List Tag) : Fills tags [] := by
  intro ts written roots block earlier outer
  obtain rfl := List.forall₂_nil_left_iff.1 written
  exact ⟨_, .nil _ _, rfl⟩

section Written

variable (writable : Writable tags) {n : Node} {t : Token} {inner ends : List Token}
  (allowed : n.Allowed tags) (stands : n.StandsFor t) (written : Writes tags n.children inner)
  (ended : List.Forall₂ (Mark.WrittenAs tags) n.ending ends) (fills : Fills tags n.children)
include writable allowed stands written ended fills

theorem takes_node (alone : ¬ n.Continues) (b : Builder) :
    Takes tags b (t :: inner ++ ends) (b.add n) := by
  cases block : n.isBlock with
  | false =>
    obtain ⟨effect, leaf⟩ := effect_of_flat writable allowed stands block
    have bare : n.children = [] := by
      cases n <;> simp_all [Node.children, Node.isBlock]
    have noEnd : n.ending = [] := by simp [Node.ending, block]
    rw [bare] at written
    rw [noEnd] at ended
    obtain rfl := List.forall₂_nil_left_iff.1 written
    obtain rfl := List.forall₂_nil_left_iff.1 ended
    rw [leaf]
    exact .step (step_leaf b effect)
  | true =>
    obtain ⟨effect, whole⟩ := effect_of_block writable allowed stands block
    have begins : n.isContinuation = false := by
      refine Bool.eq_false_iff.2 fun continues => alone ?_
      exact (Node.isContinuation_iff.1 continues).2
    rw [begins] at effect
    have oneEnd : n.ending = [.close] := by simp [Node.ending, block, begins]
    rw [oneEnd] at ended
    obtain ⟨c, rest, closes, nothing, rfl⟩ := List.forall₂_cons_left_iff.1 ended
    obtain rfl := List.forall₂_nil_left_iff.1 nothing
    obtain ⟨s, taken, close⟩ := fills inner written b.roots (.ofToken t) [] b.scopes
    have closed : s.close = n := by
      rw [close, whole]
      simp [nest, OpenBlock.close, OpenBlock.ofToken, Node.children]
    rw [← closed]
    have opened := Takes.cons (step_open b effect) taken
    exact opened.trans (.step (step_close closes _ _ _))

theorem takes_continuation (continues : n.Continues) (block : n.isBlock = true)
    (roots : List Node) (branch : OpenBlock) (earlier : List OpenBlock) (outer : List OpenScope) :
    ∃ s, Takes tags ⟨roots, ⟨branch, earlier⟩ :: outer⟩ (t :: inner ++ ends)
        ⟨roots, s :: outer⟩ ∧
      s.close = nest earlier (branch.add n).close := by
  obtain ⟨effect, whole⟩ := effect_of_block writable allowed stands block
  have named : n.isContinuation = true := Node.isContinuation_iff.2 ⟨block, continues⟩
  rw [named] at effect
  have noEnd : n.ending = [] := by simp [Node.ending, named]
  rw [noEnd] at ended
  obtain rfl := List.forall₂_nil_left_iff.1 ended
  obtain ⟨s, taken, close⟩ := fills inner written roots (.ofToken t) (branch :: earlier) outer
  refine ⟨s, ?_, ?_⟩
  · rw [List.append_nil]
    exact .cons (step_branch effect _ _ _) taken
  · rw [close]
    conv_rhs => rw [whole]
    simp [nest, OpenBlock.close, OpenBlock.ofToken, OpenBlock.add]

end Written

theorem isBlock_of_continues (writable : Writable tags) {n : Node} (allowed : n.Allowed tags)
    (continues : n.Continues) : n.isBlock = true := by
  cases n with
  | text v i => exact absurd continues (by simp [Node.Continues, Node.kind, continuationKinds])
  | block k p i cs => rfl
  | leaf k p i =>
    change k ∈ continuationKinds at continues
    rcases allowed with rfl | ⟨tag, found, opens, -⟩
    · exact absurd continues (by decide)
    · have effect := (writable.chains ⟨k, i, false, false, p, none, 0⟩).2 continues
      have notText : k ≠ "text" := by
        rintro rfl
        exact absurd continues (by decide)
      rw [Token.effect_of_find? notText found, opens] at effect
      cases effect

/-- The induction is on the forest. Below a block the nodes side by side are added one by one, and
only behind them a node may continue the chain, so that nothing is added to a branch that has been
continued. -/
theorem fills_children (writable : Writable tags) :
    (∀ n : Node, n.Every (Node.Linear tags) → Fills tags n.children) ∧
    (∀ ns : List Node, (∀ n ∈ ns, n.Every (Node.Linear tags)) →
      (∀ c ∈ ns.dropLast, ¬ c.Continues) → Fills tags ns) := by
  apply Node.forest_induction
  case text => exact fun _ _ _ => fills_nil tags
  case leaf => exact fun _ _ _ _ => fills_nil tags
  case block =>
    intro k p i cs ih linear
    exact ih (fun c hc => linear.children hc) linear.self.last
  case nil => exact fun _ _ => fills_nil tags
  case cons =>
    intro n ns ihFirst ihOthers linear last ts written roots block earlier outer
    obtain ⟨here, below⟩ := List.forall_mem_cons.1 linear
    have allowed := here.self.allowed
    obtain ⟨t, inner, ends, others, rfl, stands, inside, ended, later⟩ := written.cons_inv
    by_cases continues : n.Continues
    · have final : ns = [] := by
        cases ns with
        | nil => rfl
        | cons m ms => exact absurd continues (last n (by simp))
      subst final
      obtain rfl := List.forall₂_nil_left_iff.1 later
      rw [List.append_nil]
      exact takes_continuation writable allowed stands inside ended (ihFirst here) continues
        (isBlock_of_continues writable allowed continues) roots block earlier outer
    · have rest : ∀ c ∈ ns.dropLast, ¬ c.Continues := by
        intro c hc
        cases ns with
        | nil => simp at hc
        | cons m ms => exact last c (List.mem_cons_of_mem _ hc)
      have first := takes_node writable allowed stands inside ended (ihFirst here) continues
        ⟨roots, ⟨block, earlier⟩ :: outer⟩
      obtain ⟨s, taken, close⟩ :=
        ihOthers below rest others later roots (block.add n) earlier outer
      refine ⟨s, first.trans taken, ?_⟩
      rw [close]
      simp [OpenBlock.add]

theorem takes_forest (writable : Writable tags) {ns : List Node} {ts : List Token}
    (linear : ∀ n ∈ ns, n.Every (Node.Linear tags)) (roots : ∀ n ∈ ns, ¬ n.Continues)
    (written : Writes tags ns ts) (b : Builder) : Takes tags b ts (addAll b ns) := by
  induction ns generalizing ts b with
  | nil =>
    obtain rfl := List.forall₂_nil_left_iff.1 written
    exact .nil tags b
  | cons n ns ih =>
    obtain ⟨here, below⟩ := List.forall_mem_cons.1 linear
    obtain ⟨alone, others⟩ := List.forall_mem_cons.1 roots
    obtain ⟨t, inner, ends, later, rfl, stands, inside, ended, rest⟩ := written.cons_inv
    have first := takes_node writable here.self.allowed stands inside ended
      ((fills_children writable).1 n here) alone b
    exact first.trans (ih below others rest (b.add n))

end Builder

/-- A token for each mark, at no place of a text and without trim marks. -/
def Mark.token : Mark → Token
  | .node (.text v i) => ⟨"text", i, false, false, none, some v, 0⟩
  | .node (.leaf k p i) => ⟨k, i, false, false, p, none, 0⟩
  | .node (.block k p i _) => ⟨k, i, false, false, p, none, 0⟩
  | .close => ⟨"endif", 0, false, false, none, none, 0⟩

theorem standsFor_token {tags : List Tag} (writable : Writable tags) {n : Node}
    (allowed : n.Allowed tags) : n.StandsFor (Mark.node n).token := by
  cases n with
  | text v i => exact .inl rfl
  | block k p i cs => exact .inr ⟨cs, rfl⟩
  | leaf k p i =>
    have notText : k ≠ "text" := by
      rintro rfl
      rcases allowed with named | ⟨tag, found, -⟩
      · exact absurd named (by decide)
      · rw [writable.reserved "text" (by simp)] at found
        cases found
    have flat : (Mark.node (.leaf k p i)).token.isText = false := beq_eq_false_iff_ne.2 notText
    refine .inl ?_
    rw [Builder.leafOf, flat]
    rfl

theorem builtin_writable {entry : String × Dialect} (h : entry ∈ Registry.builtin.entries) :
    Writable entry.2.tags ∧ Mark.close.token.effect entry.2.tags = (false, true) := by
  have reserved : ∀ e ∈ Registry.builtin.entries, ∀ kind ∈ ["text", "variable"],
      Tag.find? e.2.tags kind = none := by decide
  have closes : ∀ e ∈ Registry.builtin.entries,
      Mark.close.token.effect e.2.tags = (false, true) := by decide
  exact ⟨⟨chains_builtin h, reserved entry h⟩, closes entry h⟩

/-- Every forest of a built-in vocabulary can be written, and from whatever tokens it is written as
the same forest is built, with no scope left open and no warning. -/
theorem building_inverts_writing (entry : String × Dialect)
    (builtin : entry ∈ Registry.builtin.entries) (forest : List Node)
    (allowed : ∀ n ∈ Node.walkAll forest, n.Allowed entry.2.tags)
    (roots : ∀ n ∈ forest, n.kind ∉ continuationKinds)
    (last : ∀ n ∈ Node.walkAll forest, ∀ c ∈ n.children.dropLast, c.kind ∉ continuationKinds) :
    Writes entry.2.tags forest ((Node.marksAll forest).map Mark.token) ∧
    ∀ tokens, Writes entry.2.tags forest tokens →
      Forest.ofTokens entry.2.tags tokens = .ok ⟨forest, []⟩ ∧
      (⟨forest, []⟩ : Forest).warning? = none := by
  obtain ⟨writable, closes⟩ := builtin_writable builtin
  constructor
  · refine List.forall₂_map_right_iff.2 (List.forall₂_same.2 fun mark hm => ?_)
    cases mark with
    | close => exact closes
    | node n =>
      have walked := Node.mem_walkAll_of_mem_marksAll.2 _ n hm
      exact standsFor_token writable (allowed n walked)
  · intro tokens written
    have linear : ∀ n ∈ forest, n.Every (Node.Linear entry.2.tags) :=
      Node.every_of_walkAll fun n hn => ⟨allowed n hn, last n hn⟩
    exact ⟨Builder.ofTokens_of_takes (Builder.takes_forest writable linear roots written _), rfl⟩

section Example

def chainForest : List Node :=
  [.text "a" 0,
    .block "if" (some "b") 2
      [.block "for" (some "c in d") 4 [.leaf "render" (some "'e'") 6, .block "else" none 4 []],
        .text "f" 0,
        .block "elseif" (some "g") 2 [.block "else" none 2 [.leaf "variable" (some "h") 0]]],
    .leaf "meta" none 0]

def chainTokens : List Token :=
  [⟨"text", 0, false, false, none, some "a", 0⟩,
    ⟨"if", 2, true, false, some "b", none, 1⟩,
    ⟨"for", 4, false, false, some "c in d", none, 12⟩,
    ⟨"render", 6, false, true, some "'e'", none, 30⟩,
    ⟨"else", 4, false, false, none, none, 45⟩,
    ⟨"endif", 0, false, false, none, none, 55⟩,
    ⟨"text", 0, false, false, none, some "f", 66⟩,
    ⟨"elseif", 2, false, false, some "g", none, 67⟩,
    ⟨"else", 2, false, false, none, none, 80⟩,
    ⟨"variable", 0, false, false, some "h", none, 90⟩,
    ⟨"endcomment", 0, true, true, none, none, 97⟩,
    ⟨"meta", 0, false, false, none, none, 110⟩]

theorem chain_forest_is_built :
    ("vue", Dialect.vue) ∈ Registry.builtin.entries ∧
      Writes Dialect.vue.tags chainForest chainTokens ∧
      Forest.ofTokens Dialect.vue.tags chainTokens = .ok ⟨chainForest, []⟩ := by
  have builtin : ("vue", Dialect.vue) ∈ Registry.builtin.entries := by
    simp [Registry.builtin]
  have allowed : ∀ n ∈ Node.walkAll chainForest, n.Allowed Dialect.vue.tags := by
    simp only [chainForest, Node.walkAll, Node.walk, List.cons_append, List.nil_append,
      List.forall_mem_cons]
    exact ⟨trivial, ⟨_, rfl, rfl⟩, ⟨_, rfl, rfl⟩, .inr ⟨_, rfl, rfl, rfl⟩, ⟨_, rfl, rfl⟩, trivial,
      ⟨_, rfl, rfl⟩, ⟨_, rfl, rfl⟩, .inl rfl, .inr ⟨_, rfl, rfl, rfl⟩,
      List.forall_mem_nil _⟩
  have last : ∀ n ∈ Node.walkAll chainForest, ∀ c ∈ n.children.dropLast,
      c.kind ∉ continuationKinds := by
    simp [chainForest, Node.walkAll, Node.walk, Node.children, Node.kind, continuationKinds]
  have written : Writes Dialect.vue.tags chainForest chainTokens := by
    exact .cons (.inl rfl) <| .cons (.inr ⟨_, rfl⟩) <| .cons (.inr ⟨_, rfl⟩) <| .cons (.inl rfl) <|
      .cons (.inr ⟨_, rfl⟩) <| .cons rfl <| .cons (.inl rfl) <| .cons (.inr ⟨_, rfl⟩) <|
      .cons (.inr ⟨_, rfl⟩) <| .cons (.inl rfl) <| .cons rfl <| .cons (.inl rfl) .nil
  obtain ⟨-, built⟩ := building_inverts_writing _ builtin chainForest allowed (by decide) last
  exact ⟨builtin, written, (built chainTokens written).1⟩

end Example

end Stencil.Template
