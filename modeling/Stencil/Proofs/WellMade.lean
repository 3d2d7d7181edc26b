import Stencil.Proofs.Acceptance
import Stencil.Proofs.Segmentation
import Stencil.Proofs.Visits
import Stencil.Registry

set_option autoImplicit false

/-!
# Trees of a dialect

The trees that are built from the tags of a dialect give a body to the directives that work on one.
All that can be wrong with a template as a whole is a tag that closes where nothing is open.
-/

namespace Stencil

def Dialect.takesBody (d : Dialect) (kind : String) : Bool :=
  match d.extension? kind with
  | some e => e.opens
  | none =>
    match Directive.ofKind? kind with
    | some .text | some .cond | some .ifNot | some .loop | some .comment => true
    | _ => false

/-- A dialect that opens a scope for every directive that works on a body, and that has no tag
called like a text. -/
structure Dialect.Coherent (d : Dialect) : Prop where
  noText : ∀ tag ∈ d.tags, tag.name ≠ "text"
  single : ∀ tag ∈ d.tags, tag.opens = false →
    d.takesBody (Template.canonicalName tag.name) = false
  plain : d.takesBody "variable" = false

theorem Registry.coherent_builtin {name : String} {d : Dialect} (h : builtin.get name = .ok d) :
    d.Coherent := by
  unfold get at h
  split at h
  · rename_i entry found
    obtain rfl := Except.ok.inj h
    have mem := List.mem_of_find?_eq_some found
    simp only [builtin, List.mem_cons, List.not_mem_nil, or_false, Prod.mk.injEq] at mem
    rcases mem with ⟨-, rfl⟩ | ⟨-, rfl⟩ | ⟨-, rfl⟩
    all_goals exact ⟨by decide, by decide, by decide⟩
  · cases h

namespace Template

/-- A node that has a body if its directive works on one; a block is not called like a text. -/
def Node.WellMade (d : Dialect) : Node → Prop
  | .text .. => True
  | .leaf kind .. => d.takesBody kind = false
  | .block kind .. => kind ≠ "text"

theorem Node.wellMade_bare {d : Dialect} {n : Node} : n.bare.WellMade d ↔ n.WellMade d := by
  cases n <;> rfl

theorem Lexeme.mem_names_of_mem_all {names : List (List Char)} {cs : List Char} :
    ∀ l ∈ all names cs, ∀ name, l.1.tagName? = some name → name ∈ names := by
  induction cs using all.induct names with
  | case1 =>
    rw [all]
    intro l mem
    cases mem
  | case2 c cs read ih =>
    rw [all]
    intro l mem name named
    rcases List.mem_cons.1 mem with rfl | mem
    · exact mem_names_of_scan named
    · exact ih l mem name named

def Known (tags : List Tag) (kind : String) : Prop :=
  kind = "text" ∨ kind = "variable" ∨ ∃ tag ∈ tags, kind = canonicalName tag.name

theorem Token.known_of_mem_ofText {tags : List Tag} {text : String} {ts : List Token}
    (h : ofText tags text = .ok ts) : ∀ t ∈ ts, Known tags t.kind := by
  refine kind_of_mem_ofText h fun l mem => ?_
  have used := Lexeme.mem_names_of_mem_all l mem
  cases lexeme : l.1 with
  | text value => exact .inl rfl
  | interpolation before after name => exact .inr (.inl rfl)
  | tag before after name parameters =>
    obtain ⟨tag, known, same⟩ := List.mem_map.1 (used name (by rw [lexeme]; rfl))
    refine .inr (.inr ⟨tag, known, ?_⟩)
    change canonicalName (String.ofList name) = _
    rw [← same, String.ofList_toList]

theorem Token.exists_tag_of_named {tags : List Tag} {t : Token} {tag : Tag}
    (notText : t.kind ≠ "text") (mem : tag ∈ tags) (named : t.kind = canonicalName tag.name) :
    ∃ own ∈ tags, canonicalName own.name = t.kind ∧ t.effect tags = (own.opens, own.closes) := by
  have known : (Tag.find? tags t.kind).isSome = true := by
    refine List.find?_isSome.2 ⟨tag, List.mem_reverse.2 mem, ?_⟩
    rw [named]
    exact beq_self_eq_true _
  obtain ⟨own, found⟩ := Option.isSome_iff_exists.1 known
  obtain ⟨mem, same⟩ := Tag.mem_of_find? found
  exact ⟨own, mem, same, effect_of_find? notText found⟩

theorem Forest.exists_token {tags : List Tag} {tokens : List Token} {forest : Forest}
    (h : ofTokens tags tokens = .ok forest) {n : Node} (mem : n ∈ Node.walkAll forest.roots) :
    ∃ t ∈ tokens, t.closesOnly tags = false ∧ n.bare = t.bareNode tags := by
  obtain ⟨b, taken, rfl⟩ := ofTokens_eq_ok_iff.1 h
  have whole : Node.preorder b.finish.roots = Token.bareNodes tags tokens := by
    rw [Builder.preorder_finish, Builder.preorder_steps taken]
    rfl
  have shown : n.bare ∈ Token.bareNodes tags tokens := by
    rw [← whole]
    exact List.mem_map_of_mem mem
  obtain ⟨t, kept, same⟩ := List.mem_map.1 shown
  obtain ⟨mem, more⟩ := List.mem_filter.1 kept
  exact ⟨t, mem, by simpa using more, same.symm⟩

section Trees

variable {d : Dialect} (coherent : d.Coherent)
include coherent

theorem wellMade_bareNode {t : Token} (known : Known d.tags t.kind) :
    (t.bareNode d.tags).WellMade d := by
  unfold Token.bareNode
  split
  · rename_i opens
    intro text
    have isText : t.isText = true := beq_iff_eq.2 text
    simp [Token.effect, isText] at opens
  · rename_i single
    unfold Builder.leafOf
    split
    · trivial
    · rename_i noText
      have notText : t.kind ≠ "text" := fun text => noText (beq_iff_eq.2 text)
      change d.takesBody t.kind = false
      rcases known with text | plain | ⟨tag, mem, named⟩
      · exact absurd text notText
      · rw [plain]
        exact coherent.plain
      · obtain ⟨own, own_mem, same, flags⟩ := Token.exists_tag_of_named notText mem named
        rw [flags] at single
        rw [← same]
        exact coherent.single own own_mem (Bool.eq_false_iff.2 single)

theorem wellMade_ofTokens {tokens : List Token} {forest : Forest}
    (known : ∀ t ∈ tokens, Known d.tags t.kind)
    (h : Forest.ofTokens d.tags tokens = .ok forest) :
    ∀ n ∈ forest.roots, Node.Every (Node.WellMade d) n := by
  refine Node.every_of_walkAll fun m mem => ?_
  obtain ⟨t, kept, -, same⟩ := Forest.exists_token h mem
  rw [← Node.wellMade_bare, same]
  exact wellMade_bareNode coherent (known t kept)

end Trees

end Template

namespace Transform

open Template

/-- The trees of a template are well made, unless one of its tags closes where nothing is open. -/
theorem parse_cases {d : Dialect} (coherent : d.Coherent) (text : String) (s : Session) :
    (∃ roots t, (parse d text).outcome s = (.ok roots, t) ∧
      ∀ n ∈ roots, Node.Every (Node.WellMade d) n) ∨
    ∃ tokens stray t, Token.ofText d.tags text = .ok tokens ∧ FirstStray d.tags tokens stray ∧
      (parse d text).outcome s = (.error (.unexpectedClose stray.kind), t) := by
  obtain ⟨tokens, read, -⟩ := exists_cut coherent.noText text
  have known := Token.known_of_mem_ofText read
  have result := result_parse d text s
  rw [read] at result
  change _ = (Forest.ofTokens d.tags tokens).map Forest.roots at result
  cases built : Forest.ofTokens d.tags tokens with
  | error f =>
    obtain ⟨t, stray, rfl⟩ := Forest.ofTokens_eq_error_iff.1 built
    rw [built] at result
    exact .inr ⟨tokens, t, _, read, stray, Prod.ext result rfl⟩
  | ok forest =>
    rw [built] at result
    exact .inl ⟨forest.roots, _, Prod.ext result rfl, wellMade_ofTokens coherent known built⟩

theorem wellMade_of_parse {d : Dialect} (coherent : d.Coherent) {text : String} {s t : Session}
    {roots : List Node} (parsed : (parse d text).outcome s = (.ok roots, t)) :
    ∀ n ∈ roots, Node.Every (Node.WellMade d) n := by
  rcases parse_cases coherent text s with ⟨trees, u, read, made⟩ | ⟨tokens, t, u, -, -, unread⟩
  · rw [← Except.ok.inj (Prod.mk.inj (read.symm.trans parsed)).1]
    exact made
  · exact nomatch unread.symm.trans parsed

end Transform

end Stencil
