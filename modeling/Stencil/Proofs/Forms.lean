import Stencil.Proofs.UnreadNames
import Stencil.Proofs.WellMade

set_option autoImplicit false

/-!
# Forms of nodes

Three tables have to fit together: the tags of a dialect say what opens a scope, the builder makes a
block of what does and a leaf of all else, and the directives work on texts, on bodies or on
parameters alone. Where they fit, each node of a tree has the form that its directive works on. Only
the branches that continue a chain have no directive, and they are blocks.
-/

namespace Stencil

namespace Template.Node

inductive Form
  | text
  | leaf
  | block
  deriving Repr, DecidableEq

def Form.ofKind (kind : String) : Form :=
  if kind = "text" then text
  else if kind ∈ ["if", "unless", "for", "comment", "loop", "pre"] then block
  else leaf

def form : Node → Form
  | text .. => .text
  | leaf .. => .leaf
  | block .. => .block

@[simp]
theorem form_bare (n : Node) : n.bare.form = n.form := by
  cases n <;> rfl

@[simp]
theorem kind_bare (n : Node) : n.bare.kind = n.kind := by
  cases n <;> rfl

end Template.Node

open Template

def Directive.form : Directive → Node.Form
  | text => .text
  | cond | ifNot | loop | comment => .block
  | echo | render | metadata => .leaf

def Extension.form (e : Extension) : Node.Form :=
  if e.opens then .block else .leaf

/-- The form of node that the directive of a kind works on, if the kind has a directive. -/
def Dialect.form? (d : Dialect) (kind : String) : Option Node.Form :=
  match d.extension? kind with
  | some e => some e.form
  | none => (Directive.ofKind? kind).map Directive.form

theorem Directive.form_eq (d : Directive) : d.form = Node.Form.ofKind d.kind := by
  cases d <;> decide

namespace Template.Node

/-- The node has the form that its directive works on, or it is a branch that continues a chain. -/
def Fits (d : Dialect) (n : Node) : Prop :=
  d.form? n.kind = some n.form ∨ n.form = .block ∧ n.Continues

theorem fits_bare {d : Dialect} {n : Node} : n.bare.Fits d ↔ n.Fits d := by
  simp [Fits, Continues]

end Template.Node

/-- A dialect whose tags make nodes of the forms that its directives work on. -/
structure Dialect.Fitting (d : Dialect) : Prop where
  text : d.form? "text" = some .text
  plain : d.form? "variable" = some .leaf
  opening : ∀ tag ∈ d.tags, tag.opens = true →
    d.form? (canonicalName tag.name) = some .block ∨ canonicalName tag.name ∈ continuationKinds
  single : ∀ tag ∈ d.tags, tag.opens = false → tag.closes = false →
    d.form? (canonicalName tag.name) = some .leaf
  chains : Chains d.tags
  extensions : ∀ e ∈ d.extensions, e.form = Node.Form.ofKind e.kind ∧ e.kind ∉ chainKinds ∧
    e.kind ∉ continuationKinds

theorem Registry.fitting_builtin {entry : String × Dialect}
    (h : entry ∈ Registry.builtin.entries) : entry.2.Fitting where
  text := by
    revert entry
    decide
  plain := by
    revert entry
    decide
  opening := by
    revert entry
    decide
  single := by
    revert entry
    decide
  chains := chains_builtin h
  extensions := by
    revert entry
    decide

namespace Dialect

variable {d : Dialect} {kind : String}

theorem mem_of_extension? {e : Extension} (h : d.extension? kind = some e) :
    e ∈ d.extensions ∧ e.kind = kind := by
  unfold extension? at h
  have named := List.find?_some h
  exact ⟨List.mem_of_find?_eq_some h, eq_of_beq named⟩

namespace Fitting

variable (fitting : d.Fitting)
include fitting

theorem form_eq {form : Node.Form} (h : d.form? kind = some form) :
    form = Node.Form.ofKind kind := by
  unfold form? at h
  split at h
  · rename_i e own
    obtain ⟨mem, named⟩ := mem_of_extension? own
    rw [← Option.some.inj h, ← named]
    exact (fitting.extensions e mem).1
  · obtain ⟨directive, found, rfl⟩ := Option.map_eq_some_iff.1 h
    rw [Directive.ofKind?_eq_some.1 found]
    exact directive.form_eq

theorem form?_continues (continues : kind ∈ continuationKinds) : d.form? kind = none := by
  have undirected : ∀ kind ∈ continuationKinds, (Directive.ofKind? kind).isNone = true := by decide
  unfold form?
  split
  · rename_i e own
    obtain ⟨mem, rfl⟩ := mem_of_extension? own
    exact absurd continues (fitting.extensions e mem).2.2
  · rw [Option.isNone_iff_eq_none.1 (undirected kind continues)]
    rfl

theorem fits_bareNode {t : Token} (known : Known d.tags t.kind)
    (kept : t.closesOnly d.tags = false) : (t.bareNode d.tags).Fits d := by
  unfold Token.bareNode
  split
  · rename_i opens
    have acts : t.effect d.tags ≠ (false, false) := fun bare => by simp [bare] at opens
    obtain ⟨tag, mem, named, flags⟩ := Token.exists_tag acts
    rw [flags] at opens
    have form := fitting.opening tag mem opens
    rw [named] at form
    exact form.imp id fun continues => ⟨rfl, continues⟩
  · rename_i single
    refine .inl ?_
    unfold Builder.leafOf
    split
    · exact fitting.text
    · rename_i noText
      change d.form? t.kind = some .leaf
      rcases known with text | plain | ⟨tag, mem, named⟩
      · exact absurd (beq_iff_eq.2 text) noText
      · rw [plain]
        exact fitting.plain
      · have notText : t.kind ≠ "text" := fun text => noText (beq_iff_eq.2 text)
        obtain ⟨own, own_mem, same, flags⟩ := Token.exists_tag_of_named notText mem named
        rw [flags] at single
        have opens : own.opens = false := Bool.eq_false_iff.2 single
        have closes : own.closes = false := by
          simpa [Token.closesOnly, flags, opens] using kept
        rw [← same]
        exact fitting.single own own_mem opens closes

theorem kind_of_block {n : Node} (fits : n.Fits d) (block : n.form = .block) :
    n.kind ∈ ["if", "unless", "for", "comment", "loop", "pre"] ∨ n.Continues := by
  rcases fits with shaped | ⟨-, continues⟩
  · refine .inl ?_
    have form := fitting.form_eq shaped
    rw [block, Node.Form.ofKind] at form
    split at form
    · cases form
    · split at form
      · assumption
      · cases form
  · exact .inr continues

theorem block_of_continues {n : Node} (fits : n.Fits d) (continues : n.Continues) :
    n.form = .block := by
  rcases fits with shaped | ⟨block, -⟩
  · rw [fitting.form?_continues continues] at shaped
    cases shaped
  · exact block

end Fitting

end Dialect

namespace Transform

variable {d : Dialect} {text : String}

theorem exists_forest_of_nodesOf {ns : List Node} (read : nodesOf d text = .ok ns) :
    ∃ tokens forest, Token.ofText d.tags text = .ok tokens ∧
      Forest.ofTokens d.tags tokens = .ok forest ∧ ns = Node.walkAll forest.roots := by
  obtain ⟨tokens, cut, read⟩ := exists_of_bind_eq_ok read
  obtain ⟨forest, built, read⟩ := exists_of_bind_eq_ok read
  exact ⟨tokens, forest, cut, built, (Except.ok.inj read).symm⟩

theorem fits_of_nodesOf (fitting : d.Fitting) {ns : List Node} (read : nodesOf d text = .ok ns) :
    ∀ n ∈ ns, n.Fits d := by
  intro n mem
  obtain ⟨tokens, forest, cut, built, rfl⟩ := exists_forest_of_nodesOf read
  obtain ⟨t, given, kept, same⟩ := Forest.exists_token built mem
  rw [← Node.fits_bare, same]
  exact fitting.fits_bareNode (Token.known_of_mem_ofText cut t given) kept

theorem chained_of_nodesOf (fitting : d.Fitting) {ns : List Node} (read : nodesOf d text = .ok ns) :
    ∀ n ∈ ns, n.Chained := by
  intro n mem
  obtain ⟨tokens, forest, -, built, rfl⟩ := exists_forest_of_nodesOf read
  obtain ⟨root, hroot, mem⟩ := Node.mem_walkAll.1 mem
  exact (reads_of_ofTokens built).chained fitting.chains root hroot n mem

theorem not_continues_of_parse (fitting : d.Fitting) {roots : List Node} {s t : Session}
    (parsed : (parse d text).outcome s = (.ok roots, t)) : ∀ n ∈ roots, ¬ n.Continues := by
  obtain ⟨tokens, forest, -, built, rfl⟩ := exists_forest_of_parse parsed
  exact (reads_of_ofTokens built).not_continues fitting.chains rfl

end Transform

end Stencil
