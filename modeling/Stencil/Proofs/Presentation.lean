import Mathlib
import Stencil.Proofs.Brackets
import Stencil.Proofs.PlainResiduals
import Stencil.Proofs.Visits
import Stencil.Proofs.Vocabularies
import Stencil.Registry

set_option autoImplicit false

/-!
# Dialects differ in spelling alone

A template that uses the shared tags alone, in its own text and in those of its components, is
compiled to one residual template whatever the dialect: the dialects and the way in which comments
are shown only decide how that is spelled.
-/

namespace Stencil

open Template

def Dialect.builtin : List Dialect :=
  Registry.builtin.entries.map Prod.snd

namespace Presentation

def knownTags : List Tag :=
  Tag.shared ++ Dialect.builtin.flatMap fun d => d.extensions.flatMap Extension.tags

/-- A dialect without directives of its own. -/
def bare : Dialect where
  name := ""
  fragments := Dialect.Php.fragments
  extensions := []

/-- The dialects that are compared, one without directives of its own among them. -/
def dialects : List Dialect :=
  bare :: Dialect.builtin

def names (tags : List Tag) : List (List Char) :=
  tags.map fun t => t.name.toList

/-- A text none of whose tags belongs to one dialect alone. -/
def SharedOnly (text : String) : Prop :=
  ∀ l ∈ Lexeme.all (names knownTags) text.toList, ∀ name, l.1.tagName? = some name →
    name ∈ names Tag.shared

def sharedKinds : List String :=
  "text" :: "variable" :: Tag.shared.map fun t => canonicalName t.name

section Reading

variable {d d' : Dialect}

theorem shared_sub : ∀ name ∈ names Tag.shared, name ∈ names d.tags := by
  intro name mem
  unfold Dialect.tags names
  rw [List.map_append]
  exact List.mem_append_left _ mem

variable (hd : d ∈ dialects)
include hd

theorem names_sub : ∀ name ∈ names d.tags, name ∈ names knownTags := by
  revert d
  decide

theorem find?_shared {kind : String} (hk : kind ∈ sharedKinds) :
    Tag.find? d.tags kind = Tag.find? Tag.shared kind := by
  revert kind
  revert d
  decide

theorem extension?_shared {kind : String} (hk : kind ∈ sharedKinds) :
    d.extension? kind = none := by
  have : ∀ d ∈ dialects, ∀ kind ∈ sharedKinds, (d.extension? kind).isNone = true := by
    decide
  exact Option.isNone_iff_eq_none.1 (this d hd kind hk)

theorem all_shared {text : String} (h : SharedOnly text) :
    Lexeme.all (names d.tags) text.toList = Lexeme.all (names knownTags) text.toList :=
  Lexeme.all_narrow (names_sub hd) fun l hl name hn => shared_sub name (h l hl name hn)

theorem kind_of_shared {text : String} (h : SharedOnly text) :
    ∀ l ∈ Lexeme.all (names d.tags) text.toList, (Token.ofLexeme 0 0 l.1).kind ∈ sharedKinds := by
  intro l hl
  rw [all_shared hd h] at hl
  have used := h l hl
  cases hlex : l.1 with
  | text value => exact List.mem_cons_self
  | interpolation before after name => exact List.mem_cons_of_mem _ List.mem_cons_self
  | tag before after name parameters =>
    rw [hlex] at used
    obtain ⟨t, ht, same⟩ := List.mem_map.1 (used name rfl)
    have kind : (Token.ofLexeme 0 0 (.tag before after name parameters)).kind =
        canonicalName t.name := by
      change canonicalName (String.ofList name) = _
      rw [← same, String.ofList_toList]
    rw [kind]
    exact List.mem_cons_of_mem _ (List.mem_cons_of_mem _ (List.mem_map.2 ⟨t, ht, rfl⟩))

theorem kind_of_tokens {text : String} (h : SharedOnly text) {tokens : List Token}
    (ht : Token.ofText d.tags text = .ok tokens) : ∀ t ∈ tokens, t.kind ∈ sharedKinds :=
  Token.kind_of_mem_ofText ht (kind_of_shared hd h)

theorem every_parsed {text : String} (h : SharedOnly text) {roots : List Node} {s t : Session}
    (parsed : (Transform.parse d text).outcome s = (.ok roots, t)) :
    ∀ n ∈ roots, Node.Every (fun n => n.kind ∈ sharedKinds) n := by
  obtain ⟨tokens, _, htokens, h₁⟩ := Eval.outcome_bind_eq_ok.1 parsed
  obtain ⟨_, _, _, h₂⟩ := Eval.outcome_bind_eq_ok.1 h₁
  obtain ⟨forest, _, hforest, h₃⟩ := Eval.outcome_bind_eq_ok.1 h₂
  obtain ⟨_, _, _, h₄⟩ := Eval.outcome_bind_eq_ok.1 h₃
  obtain ⟨_, _, _, h₅⟩ := Eval.outcome_bind_eq_ok.1 h₄
  have kinds := kind_of_tokens hd h (Prod.mk.inj htokens).1
  rw [← Except.ok.inj (Prod.mk.inj h₅).1]
  exact Forest.every_ofTokens List.mem_cons_self kinds (Prod.mk.inj hforest).1

theorem parse_shared (hd' : d' ∈ dialects) {text : String} (h : SharedOnly text)
    (s : Session) : (Transform.parse d text).outcome s = (Transform.parse d' text).outcome s := by
  have tokens : Token.ofText d.tags text = Token.ofText d'.tags text := by
    change Token.obeyAll false (Token.place 0 .start (Lexeme.all (names d.tags) _)) =
      Token.obeyAll false (Token.place 0 .start (Lexeme.all (names d'.tags) _))
    rw [all_shared hd h, all_shared hd' h]
  unfold Transform.parse
  rw [← tokens]
  cases ht : Token.ofText d.tags text with
  | error e => rfl
  | ok ts =>
    have kinds := kind_of_tokens hd h ht
    have forests : Forest.ofTokens d.tags ts = Forest.ofTokens d'.tags ts :=
      Forest.ofTokens_congr fun t mem =>
        (find?_shared hd (kinds t mem)).trans (find?_shared hd' (kinds t mem)).symm
    simp only [Eval.outcome_bind, Eval.outcome_ofExcept, forests]

end Reading

section Simulation

open Transform Compile

theorem outcome_withFrame_congr {α : Type} {frame : Frame} {x y : Eval α} {s : Session}
    (h : x.outcome (s.push frame) = y.outcome (s.push frame)) :
    (Eval.withFrame frame x).outcome s = (Eval.withFrame frame y).outcome s := by
  rw [Eval.outcome_withFrame, Eval.outcome_withFrame, h]

/-- The components that are put in place from some point on use the shared tags alone. -/
def SharedFrom (settings : Settings) (v : Visit) : Prop :=
  ∀ w n depth found frame t, Relation.ReflTransGen (Leads settings) v w →
    w.Meets settings n .render → w.depth = depth + 1 →
    (component settings n.parameters n.indentation).outcome w.session = (.ok (found, frame), t) →
    SharedOnly found.contents

theorem SharedFrom.of_reached {settings : Settings} {v w : Visit} (h : SharedFrom settings v)
    (reached : Relation.ReflTransGen (Leads settings) v w) : SharedFrom settings w :=
  fun u n depth found frame t further => h u n depth found frame t (reached.trans further)

/-- The part and the session of a point that can be reached without another component. -/
structure Beside (settings : Settings) (v : Visit) (q : Part × Session) : Prop where
  reached : ∃ w : Visit, Relation.ReflTransGen (Leads settings) v w ∧ w.depth = v.depth ∧
    w.part = q.1 ∧ w.session = q.2
  every : q.1.Every fun n => n.kind ∈ sharedKinds

variable {settings : Settings} {d : Dialect}

theorem Beside.call {v : Visit} {p q : Part × Session} (h : Beside settings v p)
    (call : Calls (v.env settings) p q) : Beside settings v q := by
  obtain ⟨w, reached, depth, part, session⟩ := h.reached
  have here : Calls (w.env settings) (w.part, w.session) q := by
    rw [part, session]
    unfold Visit.env
    rw [depth]
    exact call
  exact ⟨⟨_, reached.tail (.call here), depth, rfl, rfl⟩, call.every h.every⟩

theorem Beside.item {v : Visit} {n : Node} {s t : Session} (h : Beside settings v (.node n, s))
    (shared : settings.dialect.extension? n.kind = none)
    (directive : Directive.ofKind? n.kind = some .loop) (block : n.isBlock = true)
    {item collection : String} {done later : List Value} {value : Value}
    {rs : List (List Residual)} {frame : Frame}
    (items : (loopItems n.parameters).outcome s =
      (.ok (item, collection, done ++ value :: later), s))
    (before : (done.mapM (forItem item (nodes (v.env settings) n.children))).outcome s =
      (.ok rs, t))
    (bound : Frame.expand (.str item) value [] = .ok frame) :
    Beside settings v (.nodes n.children, t.push frame) := by
  obtain ⟨w, reached, depth, part, session⟩ := h.reached
  change w.session = s at session
  have step : Leads settings w
      { w with
        loops := (item, value) :: w.loops
        part := .nodes n.children
        session := t.push frame } := by
    have env : v.env settings = w.env settings := by
      unfold Visit.env
      rw [depth]
    rw [← session] at items before
    rw [env] at before
    exact .item ⟨part, shared, directive⟩ block items before bound
  exact ⟨⟨_, reached.tail step, depth, rfl, rfl⟩, fun _ => Node.Every.children h.every⟩

/-- Within one text, dialects do the same if they do with its components. -/
theorem nodes_of_components (hd : settings.dialect ∈ dialects)
    (hd' : d ∈ dialects) {v : Visit} {ns : List Node} (part : v.part = .nodes ns)
    (kinds : ∀ n ∈ ns, Node.Every (fun n => n.kind ∈ sharedKinds) n)
    (components : ∀ n s, Beside settings v (.node n, s) →
      settings.dialect.extension? n.kind = none → Directive.ofKind? n.kind = some .render →
      ((v.env settings).render n.parameters n.indentation).outcome s =
        ((v.env { settings with dialect := d }).render n.parameters n.indentation).outcome s) :
    (nodes (v.env settings) ns).outcome v.session =
      (nodes (v.env { settings with dialect := d }) ns).outcome v.session := by
  have reduces : Reduces (fun x y s => x.outcome s = y.outcome s) (Beside settings v)
      (v.env settings) (v.env { settings with dialect := d }) := by
    constructor
    · intro p q hp hq
      exact hp.call hq
    · intro n s h
      have kind := Node.Every.self h.every
      exact (extension?_shared hd' kind).trans (extension?_shared hd kind).symm
    · intro n s h shared directive body
      refine local_loop local_outcome (fun _ _ _ => rfl) ?_
      intro item collection done value later rs t frame items before bound
      cases n with
      | text => rfl
      | leaf => rfl
      | block =>
        have inside := h.item shared directive rfl items before bound
        exact outcome_withFrame_congr (body _ inside)
    · intro n s h shared directive
      exact components n s h shared directive
    · intro n s _ _ _
      rfl
  obtain ⟨-, -, -, -, same⟩ := local_parts local_outcome reduces
  exact same ns v.session ⟨⟨v, .refl, rfl, part, rfl⟩, kinds⟩

theorem render_congr {inner inner' : String → Eval (List Residual)}
    {parameters : Option String} {indentation : Nat} {s : Session}
    (h : ∀ found frame t,
      (component settings parameters indentation).outcome s = (.ok (found, frame), t) →
      (inner found.contents).outcome (t.push frame) =
        (inner' found.contents).outcome (t.push frame)) :
    (render settings inner parameters indentation).outcome s =
      (render { settings with dialect := d } inner' parameters indentation).outcome s := by
  have same : component { settings with dialect := d } parameters indentation =
      component settings parameters indentation := rfl
  unfold render
  rw [same]
  refine local_outcome.bind rfl fun found t hfound => ?_
  exact outcome_withFrame_congr (h found.1 found.2 t hfound)

theorem nodes_shared (hd : settings.dialect ∈ dialects) (hd' : d ∈ dialects)
    {v : Visit} {ns : List Node} (part : v.part = .nodes ns)
    (kinds : ∀ n ∈ ns, Node.Every (fun n => n.kind ∈ sharedKinds) n)
    (shared : SharedFrom settings v) :
    (nodes (v.env settings) ns).outcome v.session =
      (nodes (v.env { settings with dialect := d }) ns).outcome v.session := by
  -- The induction is on how deep components may be nested: within one text there is none.
  induction hdepth : v.depth generalizing v ns with
  | zero =>
    refine nodes_of_components hd hd' part kinds fun n s _ _ _ => render_congr ?_
    intro found frame t _
    rw [hdepth]
    rfl
  | succ depth ih =>
    refine nodes_of_components hd hd' part kinds fun n s beside hn directive => render_congr ?_
    intro found frame t load
    obtain ⟨w, reached, hw, here, session⟩ := beside.reached
    change w.session = s at session
    have meets : w.Meets settings n .render := ⟨here, hn, directive⟩
    have room : w.depth = depth + 1 := hw.trans hdepth
    rw [← session] at load
    have only := shared w n depth found frame t reached meets room load
    rw [hdepth, contentsWithin_succ, contentsWithin_succ]
    refine local_outcome.bind (parse_shared hd hd' only _) fun roots u parsed => ?_
    have step := Leads.component meets room load parsed
    exact ih rfl (every_parsed hd only parsed) (shared.of_reached (reached.tail step)) rfl

/-- The texts that transforming a template reads: its own, and those of the components that are
put in place. -/
def Reads (settings : Settings) (path : Option String) (text : String) (s : Session)
    (contents : String) : Prop :=
  contents = text ∨ ∃ v n depth found frame t, Visited settings path text s v ∧
    v.Meets settings n .render ∧ v.depth = depth + 1 ∧
    (component settings n.parameters n.indentation).outcome v.session = (.ok (found, frame), t) ∧
    contents = found.contents

theorem contents_shared (hd : settings.dialect ∈ dialects) (hd' : d ∈ dialects)
    {path : Option String} {text : String} {s : Session}
    (shared : ∀ contents, Reads settings path text s contents → SharedOnly contents) :
    (contents settings text).outcome (begun path s) =
      (contents { settings with dialect := d } text).outcome (begun path s) := by
  have own := shared text (.inl rfl)
  change (contentsWithin settings (maxNesting - 1 + 1) text).outcome _ =
    (contentsWithin { settings with dialect := d } (maxNesting - 1 + 1) text).outcome _
  rw [contentsWithin_succ, contentsWithin_succ]
  refine local_outcome.bind (parse_shared hd hd' own _) fun roots t parsed => ?_
  have rendered : SharedFrom settings (start path s roots t) := by
    intro w n depth found frame u reached meets room load
    have visited : Visited settings path text s w := ⟨roots, t, parsed, reached⟩
    exact shared _ (.inr ⟨w, n, depth, found, frame, u, visited, meets, room, load, rfl⟩)
  have same := nodes_shared hd hd' (v := start path s roots t) rfl (every_parsed hd own parsed)
    rendered
  exact same

theorem outcome_framed_congr {α : Type} {path : Option String} {x y : Eval α} {s : Session}
    (h : x.outcome (begun path s) = y.outcome (begun path s)) :
    (framed s x).outcome (about path s) = (framed s y).outcome (about path s) := by
  unfold begun at h
  unfold framed
  split
  · rename_i empty
    rw [if_pos empty] at h
    exact outcome_withFrame_congr h
  · rename_i filled
    rw [if_neg filled] at h
    exact h

theorem template_shared (hd : settings.dialect ∈ dialects) (hd' : d ∈ dialects)
    {path : Option String} {text : String} {s : Session}
    (shared : ∀ contents, Reads settings path text s contents → SharedOnly contents) :
    (template settings path text).outcome s =
      (template { settings with dialect := d } path text).outcome s := by
  have same := contents_shared hd hd' shared
  rw [outcome_template, outcome_template, outcome_cancellable, outcome_cancellable,
    outcome_framed_congr same]

theorem outcome_output (settings : Settings) (shown : Bool) (path : Option String)
    (text : String) (s : Session) :
    (output settings shown path text).outcome s =
      (((template settings path text).outcome s).1.map
        (Option.map (Residual.renderAll settings.dialect.fragments shown)),
      ((template settings path text).outcome s).2) := by
  unfold output
  rw [Eval.outcome_bind]
  rcases (template settings path text).outcome s with ⟨_ | _, _⟩ <;> rfl

theorem plain_template (bare : ∀ kind, settings.dialect.extension? kind = none)
    {path : Option String} {text : String} {s t : Session} {rs : List Residual}
    (h : (template settings path text).outcome s = (.ok (some rs), t)) :
    Residual.plainAll rs = true := by
  have whole : Plain (contents settings text) := plain_contentsWithin bare maxNesting text
  rw [outcome_template, outcome_cancellable] at h
  split at h
  · rename_i a u ha
    have inner : ((contents settings text).outcome (begun path s)).1 = .ok a := by
      rw [← outcome_framed, ha]
    rw [← Option.some.inj (Except.ok.inj (Prod.mk.inj h).1)]
    exact whole _ a _ (Prod.ext inner rfl)
  · exact nomatch (Except.ok.inj (Prod.mk.inj h).1)
  · exact nomatch (Prod.mk.inj h).1

/-- Templates that use the shared tags alone, in their own texts and in those of the components
that they put in place, are compiled to one residual template in all dialects, whose pieces each
dialect spells in its own way; where they fail or are cancelled, they do so alike, and they leave
the same session. -/
theorem dialects_differ_in_spelling (settings : Settings)
    (known : settings.dialect ∈ Dialect.builtin) (path : Option String) (text : String)
    (s : Session)
    (shared : ∀ contents, Reads settings path text s contents → SharedOnly contents) :
    ∃ (result : Except Failure (Option (List Residual))) (s' : Session),
      (∀ rs, result = .ok (some rs) →
        Residual.plainAll rs = true ∧ Piece.Bracketed (Residual.piecesAll rs)) ∧
      ∀ d ∈ Dialect.builtin, ∀ shown,
        (output { settings with dialect := d } shown path text).outcome s =
          (result.map (Option.map fun rs =>
            Piece.spellAll d.fragments shown (Residual.piecesAll rs)), s') := by
  have hd : settings.dialect ∈ dialects := List.mem_cons_of_mem _ known
  have same {d : Dialect} (hd' : d ∈ dialects) := template_shared hd hd' shared
  have common := same (d := bare) List.mem_cons_self
  refine ⟨((template { settings with dialect := bare } path text).outcome s).1,
    ((template { settings with dialect := bare } path text).outcome s).2, ?_, ?_⟩
  · intro rs hrs
    refine ⟨?_, Residual.bracketed_piecesAll rs⟩
    exact @plain_template { settings with dialect := bare } (fun _ => rfl) path text s _ rs
      (Prod.ext hrs rfl)
  · intro d hbuiltin shown
    have spelled : (fun rs => Piece.spellAll d.fragments shown (Residual.piecesAll rs)) =
        Residual.renderAll d.fragments shown :=
      funext (Residual.spellAll_piecesAll d.fragments shown)
    rw [outcome_output, spelled, ← common, same (List.mem_cons_of_mem _ hbuiltin)]

theorem exists_file_of_load {t : FileTree} {current : Option String} {name extension : String}
    {indentation : Nat} {found : Component}
    (h : Component.load t current name indentation extension = .ok found) :
    ∃ file ∈ t.files, ∃ text, FileTree.textOf file.2 = .ok text ∧
      found.contents = Component.fit indentation text := by
  obtain ⟨resolved, -, h₁⟩ := exists_of_bind_eq_ok h
  obtain ⟨path, -, h₂⟩ := exists_of_bind_eq_ok h₁
  split at h₂
  · obtain ⟨text, read, h₃⟩ := exists_of_bind_eq_ok h₂
    unfold FileTree.readText at read
    split at read
    · rename_i bytes entry
      obtain ⟨names, -, here⟩ := Option.bind_eq_some_iff.1 entry
      unfold FileTree.entry? at here
      split at here
      · rename_i hfile
        have same := FileTree.Entry.file.inj (Option.some.inj here)
        refine ⟨_, List.mem_of_find?_eq_some hfile, text, ?_, ?_⟩
        · rw [same]
          exact read
        · rw [← Except.ok.inj h₃]
      · split at here <;> exact nomatch here
    · exact nomatch read
    · exact nomatch read
  · exact nomatch h₂

theorem shared_of_files {path : Option String} {text : String} {s : Session}
    (own : SharedOnly text)
    (files : ∀ file ∈ settings.files.files, ∀ contents indentation,
      FileTree.textOf file.2 = .ok contents → SharedOnly (Component.fit indentation contents)) :
    ∀ contents, Reads settings path text s contents → SharedOnly contents := by
  rintro contents (rfl | ⟨v, n, depth, found, frame, t, -, -, -, load, rfl⟩)
  · exact own
  · obtain ⟨call, current, -, -, hfound, -⟩ := component_eq_ok load
    obtain ⟨file, mem, text, read, same⟩ := exists_file_of_load hfound
    rw [same]
    exact files file mem text n.indentation read

theorem sharedOnly_of_tags {text : String} {tags : List (List Char)}
    (h : (Lexeme.all (names knownTags) text.toList).filterMap (fun l => l.1.tagName?) = tags)
    (sub : ∀ name ∈ tags, name ∈ names Tag.shared) : SharedOnly text := by
  intro l hl name hname
  refine sub name ?_
  rw [← h]
  exact List.mem_filterMap.2 ⟨l, hl, hname⟩

def siteSettings : Settings where
  dialect := .php
  extension := ".liquid"
  files := ⟨[(["site", "part.liquid"], "\x7b\x7b b \x7d\x7d".toUTF8.toList)], [], []⟩

def pageText : String :=
  "\x7b% if a %\x7dA\x7b% else %\x7d\x7b% render 'part' %\x7d\x7b% endif %\x7d"

theorem sharedOnly_page : SharedOnly pageText :=
  @sharedOnly_of_tags pageText ["if".toList, "else".toList, "render".toList, "endif".toList]
    (by cbv) (by decide)

theorem sharedOnly_part : ∀ file ∈ siteSettings.files.files, ∀ contents indentation,
    FileTree.textOf file.2 = .ok contents → SharedOnly (Component.fit indentation contents) := by
  intro file mem contents indentation read
  have part : FileTree.textOf "\x7b\x7b b \x7d\x7d".toUTF8.toList =
      .ok "\x7b\x7b b \x7d\x7d" := by cbv
  have fitted : Component.fit indentation "\x7b\x7b b \x7d\x7d" = "\x7b\x7b b \x7d\x7d" := by
    cbv
  rw [List.mem_singleton.1 mem, part] at read
  rw [← Except.ok.inj read, fitted]
  exact @sharedOnly_of_tags _ [] (by cbv) (by decide)

theorem page_differs_in_spelling :
    ∃ (result : Except Failure (Option (List Residual))) (s' : Session),
      (∀ rs, result = .ok (some rs) →
        Residual.plainAll rs = true ∧ Piece.Bracketed (Residual.piecesAll rs)) ∧
      ∀ d ∈ Dialect.builtin, ∀ shown,
        (output { siteSettings with dialect := d } shown (some "/site/page.liquid")
          pageText).outcome ⟨⟨[[]], none⟩, []⟩ =
          (result.map (Option.map fun rs =>
            Piece.spellAll d.fragments shown (Residual.piecesAll rs)), s') :=
  dialects_differ_in_spelling siteSettings
    (List.mem_cons_of_mem _ List.mem_cons_self) (some "/site/page.liquid") pageText
    ⟨⟨[[]], none⟩, []⟩ (shared_of_files sharedOnly_page sharedOnly_part)

end Simulation

end Presentation

end Stencil
