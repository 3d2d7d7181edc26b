import Stencil.CommandLine.Run
import Stencil.Proofs.DistinctKeys
import Stencil.Proofs.PlainText

set_option autoImplicit false

/-!
# Variables of the command line

A key that the command line assigns keeps the place that it has in the configuration or in the
variables file, and takes the assigned value there. All entries are then bound in their order, so
the assigned value stays unless an entry behind the key has a part of the same name. A key of
neither file comes behind all entries of the files, and its value always stays.
-/

namespace Stencil

namespace Mapping

variable {name : String} {m : Mapping}

theorem lookup?_split (v : Value) {before after : Mapping} (unbound : lookup? name before = none) :
    lookup? name (before ++ (.str name, v) :: after) = some v := by
  rw [lookup?_append, unbound, Option.none_or, lookup?_str_cons, if_pos rfl]

/-- The name is bound, and only texts are bound behind it, under other keys. -/
def Settled (name : String) (m : Mapping) : Prop :=
  ∃ before v after, m = before ++ (.str name, v) :: after ∧ lookup? name before = none ∧
    lookup? name after = none ∧ ∀ e ∈ after, ∃ s, e.2 = .str s

theorem Distinct.settled (h : Distinct m) {v : Value} (bound : lookup? name m = some v)
    (texts : ∀ e ∈ m, ∃ s, e.2 = .str s) : Settled name m := by
  obtain ⟨before, after, rfl, unbound⟩ := exists_split bound
  have behind := List.pairwise_cons.1 (List.pairwise_append.1 h).2.1
  refine ⟨before, v, after, rfl, unbound, ?_, ?_⟩
  · rw [lookup?_eq_none_iff]
    intro w mem
    exact behind.1 _ mem name rfl rfl
  · intro e he
    exact texts e (List.mem_append_right _ (List.mem_cons_of_mem _ he))

theorem Settled.insert (h : Settled name m) (k : Key) (text : String) :
    Settled name (insert k (.str text) m) := by
  obtain ⟨before, v, after, rfl, unbound, later, texts⟩ := h
  rw [insert_append]
  split
  · rename_i found
    refine ⟨Mapping.insert k (.str text) before, v, after, rfl, ?_, later, texts⟩
    have apart : ¬ k.same (.str name) = true := by
      intro here
      rw [Key.same_str_iff.1 here, any_same_str, unbound] at found
      exact Bool.false_ne_true found
    rw [lookup?_insert, if_neg apart, unbound]
  · rw [Mapping.insert]
    split
    · exact ⟨before, .str text, after, rfl, unbound, later, texts⟩
    · rename_i apart
      refine ⟨before, v, Mapping.insert k (.str text) after, rfl, unbound, ?_, ?_⟩
      · rw [lookup?_insert, if_neg, later]
        intro here
        rw [Key.same_str_iff.1 here] at apart
        exact apart (Key.str_same_iff.2 rfl)
      · intro e he
        have entries := forall_mem_insert (P := fun _ => True) (Q := fun v => ∃ s, v = .str s)
          (k := k) trivial ⟨text, rfl⟩ (fun e he => ⟨trivial, texts e he⟩) e he
        exact entries.2

theorem Settled.overlay (h : Settled name m) {upper : Mapping}
    (texts : ∀ e ∈ upper, ∃ s, e.2 = .str s) : Settled name (overlay upper m) := by
  induction upper generalizing m with
  | nil => exact h
  | cons e upper ih =>
    obtain ⟨k, v⟩ := e
    obtain ⟨⟨text, rfl⟩, others⟩ := List.forall_mem_cons.1 texts
    exact ih (h.insert k text) others

theorem settled_overlay {lower : Mapping} (h : Settled name m)
    (unbound : lookup? name lower = none) : Settled name (overlay m lower) := by
  obtain ⟨before, v, after, rfl, first, -, texts⟩ := h
  have still : lookup? name (overlay before lower) = none := by
    rw [lookup?_overlay, unbound, Option.or_none, lookup?_eq_none_iff]
    intro w mem
    exact lookup?_eq_none_iff.1 first w (List.mem_reverse.1 mem)
  have new : (overlay before lower).any (fun e => e.1.same (.str name)) = false := by
    rw [any_same_str, still]
    rfl
  rw [overlay_append, overlay_cons, insert_of_new new]
  refine Settled.overlay ?_ texts
  exact ⟨_, v, [], rfl, still, rfl, nofun⟩

end Mapping

namespace Frame

theorem last?_append (name : String) (first second : Mapping) :
    last? name (first ++ second) = (last? name second).or (last? name first) := by
  unfold last?
  rw [spread_append, List.reverse_append, Mapping.lookup?_append]

theorem last?_split (name text : String) (before after : Mapping) :
    last? name (before ++ (.str name, .str text) :: after) =
      some ((last? name after).getD (.str text)) := by
  have own : last? name [(.str name, .str text)] = some (.str text) := by
    simp [last?, spread, parts]
  rw [last?_append, ← List.singleton_append, last?_append, own]
  cases last? name after <;> rfl

theorem last?_of_texts {name : String} {m : Mapping} (unbound : Mapping.lookup? name m = none)
    (texts : ∀ e ∈ m, ∃ s, e.2 = .str s) : last? name m = none := by
  refine Option.eq_none_iff_forall_ne_some.2 fun w left => ?_
  rcases origin_of_last? left with entry | ⟨e, mem, part⟩
  · exact Mapping.lookup?_eq_none_iff.1 unbound w entry
  · obtain ⟨text, value⟩ := texts e mem
    rw [value] at part
    exact nomatch part

end Frame

theorem Mapping.Settled.last?_eq {name text : String} {m : Mapping} (h : Settled name m)
    (bound : lookup? name m = some (.str text)) : Frame.last? name m = some (.str text) := by
  obtain ⟨before, v, after, rfl, unbound, later, texts⟩ := h
  rw [lookup?_split v unbound] at bound
  obtain rfl := Option.some.inj bound
  rw [Frame.last?_split, Frame.last?_of_texts later texts]
  rfl

theorem Variables.exists_of_ofAssignments {items : List String} {assigned : Mapping}
    (h : ofAssignments items = .ok assigned) :
    ∃ bindings, items.mapM assignment = .ok bindings ∧
      assigned = Mapping.ofList (bindings.map (Prod.map Key.str Value.str)) := by
  obtain ⟨bindings, read, made⟩ := exists_of_bind_eq_ok h
  exact ⟨bindings, read, (Except.ok.inj made).symm⟩

theorem Mapping.texts_ofList (bindings : List (String × String)) :
    ∀ e ∈ ofList (bindings.map (Prod.map Key.str Value.str)), ∃ s, e.2 = .str s := by
  have written : ∀ e ∈ bindings.map (Prod.map Key.str Value.str), True ∧ ∃ s, e.2 = .str s := by
    intro e he
    obtain ⟨b, -, rfl⟩ := List.mem_map.1 he
    exact ⟨trivial, b.2, rfl⟩
  have entries := @forall_mem_overlay (fun _ => True) (fun v => ∃ s, v = .str s) _ []
    written (List.forall_mem_nil _)
  intro e he
  exact (entries e he).2

namespace CommandLine.RenderRequest

open Template Transform

/-- The last assignment to a name gives it a value. -/
def Assigns (r : RenderRequest) (name value : String) : Prop :=
  ∃ earlier item later, r.assignments = earlier ++ item :: later ∧
    Variables.assignment item = .ok (name, value) ∧
    ∀ other ∈ later, ∀ v, Variables.assignment other ≠ .ok (name, v)

def fileVariables (t : FileTree) (r : RenderRequest) : Except Failure Mapping :=
  match nonempty? r.variablesFile with
  | some f => Variables.load t (Path.ofString f)
  | none => .ok []

theorem bindings_eq (t : FileTree) (r : RenderRequest) :
    r.bindings t = r.fileVariables t >>= fun file =>
      Variables.ofAssignments r.assignments >>= fun assigned =>
        pure (Mapping.overlay assigned file) := by
  unfold bindings fileVariables
  cases nonempty? r.variablesFile <;> rfl

theorem distinct_fileVariables {t : FileTree} {r : RenderRequest} {file : Mapping}
    (h : r.fileVariables t = .ok file) : file.Distinct := by
  unfold fileVariables at h
  split at h
  · exact Variables.distinct_of_load h
  · rw [← Except.ok.inj h]
    exact .nil

theorem Assigns.assigned {r : RenderRequest} {name value : String} (given : r.Assigns name value)
    {assigned : Mapping} (read : Variables.ofAssignments r.assignments = .ok assigned) :
    assigned.Distinct ∧ (∀ e ∈ assigned, ∃ s, e.2 = .str s) ∧
      Mapping.lookup? name assigned = some (.str value) := by
  obtain ⟨earlier, item, later, whole, here, last⟩ := given
  obtain ⟨bindings, split, rfl⟩ := Variables.exists_of_ofAssignments read
  rw [whole, List.mapM_append] at split
  obtain ⟨first, -, split⟩ := exists_of_bind_eq_ok split
  obtain ⟨second, others, split⟩ := exists_of_bind_eq_ok split
  rw [List.mapM_cons, here] at others
  obtain ⟨rest, final, others⟩ := exists_of_bind_eq_ok (show later.mapM _ >>= _ = _ from others)
  obtain rfl := Except.ok.inj split
  obtain rfl := Except.ok.inj others
  refine ⟨Mapping.distinct_ofList _, Mapping.texts_ofList _, ?_⟩
  have unbound : Mapping.lookup? name (rest.map (Prod.map Key.str Value.str)).reverse = none := by
    rw [Mapping.lookup?_eq_none_iff]
    intro v mem
    obtain ⟨b, hb, same⟩ := List.mem_map.1 (List.mem_reverse.1 mem)
    obtain ⟨other, hother, again⟩ := exists_of_mem_mapM final b hb
    obtain rfl := Key.str_inj.1 (Prod.mk.inj same).1
    exact last other hother b.2 again
  unfold Mapping.ofList
  rw [Mapping.lookup?_overlay, List.map_append, List.map_cons, List.reverse_append,
    List.reverse_cons, List.append_assoc, Mapping.lookup?_append, unbound]
  simp

theorem exists_of_configure {t : FileTree} {r : RenderRequest} {s s' : Session} {config : Config}
    (h : (r.configure t).outcome s = (.ok config, s')) :
    ∃ base file assigned,
      (Config.load t ((nonempty? r.config).map Path.ofString) r.source.parent).outcome s =
        (.ok base, s') ∧
      r.fileVariables t = .ok file ∧ Variables.ofAssignments r.assignments = .ok assigned ∧
      config.bindings = Mapping.overlay (Mapping.overlay assigned file) base.bindings := by
  obtain ⟨base, u, loaded, h⟩ := Eval.outcome_bind_eq_ok.1 h
  obtain ⟨own, v, bound, h⟩ := Eval.outcome_bind_eq_ok.1 h
  obtain ⟨read, rfl⟩ := Prod.mk.inj bound
  rw [bindings_eq] at read
  obtain ⟨file, fromFile, read⟩ := exists_of_bind_eq_ok read
  obtain ⟨assigned, given, read⟩ := exists_of_bind_eq_ok read
  obtain ⟨made, rfl⟩ := Prod.mk.inj h
  refine ⟨base, file, assigned, loaded, fromFile, given, ?_⟩
  rw [← Except.ok.inj made, ← Except.ok.inj read]
  rfl

theorem lookup?_bindings {file assigned base : Mapping} {name value : String}
    (distinct : file.Distinct) (once : assigned.Distinct)
    (given : Mapping.lookup? name assigned = some (.str value)) :
    Mapping.lookup? name (Mapping.overlay (Mapping.overlay assigned file) base) =
      some (.str value) := by
  have merged := Mapping.distinct_overlay assigned distinct
  rw [Mapping.lookup?_overlay, merged.lookup?_reverse, Mapping.lookup?_overlay,
    once.lookup?_reverse, given]
  rfl

end CommandLine.RenderRequest

section Rendering

open Template Transform Compile

def showing (name : String) : String :=
  "\x7b\x7b " ++ name ++ " \x7d\x7d"

theorem toList_showing (name : String) :
    (showing name).toList = '\x7b' :: '\x7b' :: ' ' :: (name.toList ++ [' ', '\x7d', '\x7d']) := by
  simp [showing]

theorem interpolation?_name {name : List Char} (named : isName name = true) :
    Lexeme.interpolation? (' ' :: (name ++ [' ', '\x7d', '\x7d'])) =
      some (.interpolation false false name, []) := by
  have blank : ∀ c ∈ [' '], Text.isBlank c = true := List.forall_mem_singleton.2 (by decide)
  exact Lexeme.interpolation?_written false false [] blank (nameForm_of_isName named) blank

theorem ofText_showing {name : String} (named : isName name.toList = true) (tags : List Tag) :
    Token.ofText tags (showing name) = .ok [⟨"variable", 0, false, false, some name, none, 0⟩] := by
  have scanned (names : List (List Char)) :
      Lexeme.scan names '\x7b' ('\x7b' :: ' ' :: (name.toList ++ [' ', '\x7d', '\x7d'])) =
        (.interpolation false false name.toList, []) := by
    change (Lexeme.interpolation? _).getD _ = _
    rw [interpolation?_name named]
    rfl
  change Token.obeyAll false
    (Token.place 0 .start (Lexeme.all (tags.map fun t => t.name.toList) (showing name).toList)) = _
  rw [toList_showing, Lexeme.all, scanned, Lexeme.all, Token.place, Token.place, Token.ofLexeme,
    String.ofList_toList]
  rfl

theorem mapM_echoText_texts (scope : Scope) (name : String) {ls : List (Lexeme × List Char)}
    (texts : ∀ l ∈ ls, l.1.isText = true) :
    ls.mapM (fun l => echoText scope name l.1) =
      .ok ((ls.map fun l => l.1.textChars).map fun cs => .text (String.ofList cs)) := by
  induction ls with
  | nil => rfl
  | cons l ls ih =>
    obtain ⟨first, later⟩ := List.forall_mem_cons.1 texts
    obtain ⟨lexeme, source⟩ := l
    cases lexeme with
    | text cs =>
      rw [List.mapM_cons, ih later]
      rfl
    | interpolation before after name => exact nomatch first
    | tag before after name parameters => exact nomatch first

def textsOf (value : String) : List (List Char) :=
  (Lexeme.all [] value.toList).map fun l => l.1.textChars

theorem flatten_textsOf {value : String} (plain : ¬ Lexeme.braces <:+: value.toList) :
    String.ofList (textsOf value).flatten = value := by
  unfold textsOf
  rw [← List.flatMap_def, (Lexeme.all_nil_texts plain).2, String.ofList_toList]

theorem quietly_echo {name value : String} {s : Session}
    (bound : s.scope.lookup? name = some (.str value))
    (plain : ¬ Lexeme.braces <:+: value.toList) :
    (echo (some name)).Quietly s ((textsOf value).map fun cs => .text (String.ofList cs)) := by
  have texts := mapM_echoText_texts s.scope name (Lexeme.all_nil_texts plain).1
  refine ⟨s, ?_, rfl, rfl⟩
  unfold echo
  simp only [Eval.outcome_scope_bind, Option.getD_some, bound, texts]
  rfl

theorem extension?_variable {entry : String × Dialect}
    (builtin : entry ∈ Registry.builtin.entries) : entry.2.extension? "variable" = none := by
  have shared : ∀ e ∈ Registry.builtin.entries, (e.2.extension? "variable").isNone = true := by
    decide
  exact Option.isNone_iff_eq_none.1 (shared entry builtin)

theorem quietly_showing {settings : Settings} {entry : String × Dialect}
    (builtin : entry ∈ Registry.builtin.entries) (dialect : settings.dialect = entry.2)
    {name value : String} (named : isName name.toList = true) {s : Session}
    (bound : s.scope.lookup? name = some (.str value))
    (plain : ¬ Lexeme.braces <:+: value.toList) :
    (contents settings (showing name)).Quietly s
      ((textsOf value).map fun cs => .text (String.ofList cs)) := by
  have unextended : settings.dialect.extension? "variable" = none := by
    rw [dialect]
    exact extension?_variable builtin
  have flat : ∀ t ∈ [(⟨"variable", 0, false, false, some name, none, 0⟩ : Token)],
      t.effect settings.dialect.tags = (false, false) := by
    rw [dialect, List.forall_mem_singleton]
    exact effect_of_reserved (builtin_writable builtin).1 (by simp)
  have built := Builder.ofTokens_of_takes (Builder.takes_leaves flat .empty)
  refine .bind (quietly_parse (ofText_showing named _) built s) fun t scope => ?_
  have echoed := @quietly_echo name value t (by rw [scope]; exact bound) plain
  change (nodes _ [.leaf "variable" (some name) 0]).Quietly t _
  rw [nodes, node_plainly (d := .echo) unextended rfl]
  refine .bind echoed fun u _ => ?_
  rw [nodes]
  refine .bind (.pure []) fun u _ => ?_
  rw [List.append_nil]
  exact .pure _

end Rendering

theorem FileTree.isFile_of_readText {t : FileTree} {p : Path} {text : String}
    (h : t.readText p = .ok text) : t.isFile p = true := by
  unfold readText at h
  unfold isFile
  split at h
  · rename_i contents found
    rw [found]
  · exact nomatch h
  · exact nomatch h

theorem Registry.mem_of_get {r : Registry} {name : String} {dialect : Dialect}
    (h : r.get name = .ok dialect) : ∃ entry ∈ r.entries, dialect = entry.2 := by
  unfold get at h
  split at h
  · rename_i found
    exact ⟨_, List.mem_of_find?_eq_some found, (Except.ok.inj h).symm⟩
  · exact nomatch h

namespace CommandLine.RenderRequest

open Template Transform

theorem renderFile_showing {t : FileTree} {source path : Path} {config : Config}
    {dialect : Dialect} {name value : String} {s : Session} {frame : Frame}
    (built : Frame.expandAll config.bindings = .ok frame)
    (bound : Mapping.lookup? name frame = some (.str value))
    (named : isName name.toList = true) (plain : ¬ Lexeme.braces <:+: value.toList)
    (known : Registry.builtin.get config.dialect = .ok dialect)
    (text : t.readText source = .ok (showing name)) (resolved : t.resolve source = .ok path) :
    ((renderFile t source config).outcome s).1 = .ok (some value) := by
  obtain ⟨entry, builtin, same⟩ := Registry.mem_of_get known
  have filled : config.bindings.isEmpty = false := by
    cases empty : config.bindings with
    | nil =>
      rw [empty] at built
      obtain rfl := Except.ok.inj built
      exact nomatch bound
    | cons e m => rfl
  let pushed := s.push frame
  have inside : (begun (some path.text) pushed).scope.lookup? name = some (.str value) := by
    change Scope.lookup? name ⟨frame :: s.scope.frames, _⟩ = _
    rw [Scope.lookup?_cons, bound]
    rfl
  obtain ⟨u, run, -, -⟩ := outcome_of_quietly
    (@quietly_showing ⟨dialect, config.extension, t⟩ entry builtin same name value named _ inside
      plain) config.showComments
  rw [renderAll_texts, flatten_textsOf plain] at run
  unfold renderFile
  simp only [FileTree.isFile_of_readText text, filled, known, built, text, resolved]
  change ((Transform.output ⟨dialect, config.extension, t⟩ config.showComments (some path.text)
    (showing name)).outcome pushed).1 = _
  rw [run]

theorem renderFile_unnameable {t : FileTree} {source : Path} {config : Config}
    {dialect : Dialect} {s : Session} {f : Failure}
    (unbuilt : Frame.expandAll config.bindings = .error f) (found : t.isFile source = true)
    (known : Registry.builtin.get config.dialect = .ok dialect) :
    ((renderFile t source config).outcome s).1 = .error (.tooManyDigits none) := by
  have filled : config.bindings.isEmpty = false := by
    cases empty : config.bindings with
    | nil =>
      rw [empty] at unbuilt
      exact nomatch unbuilt
    | cons e m => rfl
  obtain rfl := Frame.expandAll_eq_error unbuilt
  unfold renderFile
  simp only [found, filled, known, unbuilt]
  rfl

/-- The frame of a configuration is built exactly if the parts of all variables can be named, and
else the rendering fails. In the frame, a key that the command line assigns is bound to its last
value exactly if nothing that the entries behind it leave under its name differs; it always is if
neither file binds it. Where it is bound to its value, a template that shows it gives that value.
Files that escape half of a surrogate pair are left out: no configuration comes of them. -/
theorem assigned_value_stays_iff {t : FileTree} {r : RenderRequest} {s s' : Session}
    {config : Config} (configured : (r.configure t).outcome s = (.ok config, s'))
    {name value : String} (given : r.Assigns name value) :
    ∃ base file before after,
      (Config.load t ((nonempty? r.config).map Path.ofString) r.source.parent).outcome s =
        (.ok base, s') ∧
      r.fileVariables t = .ok file ∧
      config.bindings = before ++ (.str name, .str value) :: after ∧
      Mapping.lookup? name before = none ∧
      ((∃ frame, Frame.expandAll config.bindings = .ok frame) ↔
        ∀ e ∈ config.bindings, Frame.nameable e.1 e.2 = true) ∧
      (∀ f, Frame.expandAll config.bindings = .error f →
        ∀ dialect, Registry.builtin.get config.dialect = .ok dialect →
          t.isFile r.source = true →
          ((r.render t).outcome s).1 = .error (.tooManyDigits none)) ∧
      ∀ frame, Frame.expandAll config.bindings = .ok frame →
        (Mapping.lookup? name frame = some (.str value) ↔
          ∀ w, Frame.last? name after = some w → w = .str value) ∧
        (Mapping.lookup? name base.bindings = none → Mapping.lookup? name file = none →
          Mapping.lookup? name frame = some (.str value)) ∧
        (Mapping.lookup? name frame = some (.str value) →
          isName name.toList = true → ¬ Lexeme.braces <:+: value.toList →
          ∀ dialect path, Registry.builtin.get config.dialect = .ok dialect →
            t.readText r.source = .ok (showing name) → t.resolve r.source = .ok path →
            ((r.render t).outcome s).1 = .ok (some value)) := by
  obtain ⟨base, file, assigned, loaded, read, accepted, merged⟩ := exists_of_configure configured
  obtain ⟨once, texts, own⟩ := given.assigned accepted
  have bound : Mapping.lookup? name config.bindings = some (.str value) := by
    rw [merged]
    exact lookup?_bindings (distinct_fileVariables read) once own
  obtain ⟨before, after, split, unbound⟩ := Mapping.exists_split bound
  refine ⟨base, file, before, after, loaded, read, split, unbound, ?_, ?_, ?_⟩
  · exact ⟨fun ⟨frame, built⟩ => (Frame.expandAll_eq_ok_iff.1 built).1,
      fun named => ⟨_, Frame.expandAll_eq_ok_iff.2 ⟨named, rfl⟩⟩⟩
  · intro f unbuilt dialect known found
    unfold render
    rw [Eval.outcome_bind_ok configured]
    exact renderFile_unnameable unbuilt found known
  intro frame built
  obtain ⟨-, rfl⟩ := Frame.expandAll_eq_ok_iff.1 built
  refine ⟨?_, ?_, ?_⟩
  · rw [Frame.lookup?_ofMapping, split, Frame.last?_split]
    cases Frame.last? name after <;> simp
  · intro noBase noFile
    have settled : Mapping.Settled name config.bindings := by
      rw [merged]
      exact Mapping.settled_overlay (Mapping.settled_overlay (once.settled own texts) noFile) noBase
    rw [Frame.lookup?_ofMapping, settled.last?_eq bound]
  · intro stays named plain dialect path known text resolved
    unfold render
    rw [Eval.outcome_bind_ok configured]
    exact renderFile_showing built stays named plain known text resolved

section Example

def variablesText : String :=
  "\x7b\"user.name\": \"a\", \"user\": \x7b\"name\": \"b\"\x7d\x7d"

def site (template : List UInt8) : FileTree where
  files := [(["t.liquid"], template), (["v.json"], variablesText.toUTF8.toList)]
  directories := []
  workingDirectory := []

def request (item : String) : RenderRequest where
  file := "t.liquid"
  dialect := none
  showComments := false
  assignments := [item]
  variablesFile := some "v.json"
  config := none
  output := none
  debug := false

def siteVariables : Mapping :=
  [(.str "user.name", .str "a"), (.str "user", .map [(.str "name", .str "b")])]

theorem read?_variablesText : Json.read? variablesText = some (.map siteVariables) := by
  have b (fuel depth : Nat) : Json.value? .strict (fuel + 1) depth "\"b\"\x7d\x7d".toList =
      some (.str "b", ['\x7d', '\x7d']) := by
    unfold Json.value?
    rfl
  have user (fuel depth : Nat) :
      Json.value? .strict (fuel + 3) (depth + 1) ('\x7b' :: "\"name\": \"b\"\x7d\x7d".toList) =
        some (.map [(.str "name", .str "b")], ['\x7d']) :=
    Json.value?_object rfl (Json.members?_last rfl (b _ _) rfl)
  have a (fuel depth : Nat) :
      Json.value? .strict (fuel + 1) depth "\"a\", \"user\": \x7b\"name\": \"b\"\x7d\x7d".toList =
        some (.str "a", ", \"user\": \x7b\"name\": \"b\"\x7d\x7d".toList) := by
    unfold Json.value?
    rfl
  have others (fuel depth : Nat) :
      Json.members? .strict (fuel + 4) (depth + 1)
          (Json.skipSpace " \"user\": \x7b\"name\": \"b\"\x7d\x7d".toList) =
        some ([(.str "user", .map [(.str "name", .str "b")])], []) := by
    have start : Json.skipSpace " \"user\": \x7b\"name\": \"b\"\x7d\x7d".toList =
        "\"user\": \x7b\"name\": \"b\"\x7d\x7d".toList := by decide
    rw [start]
    exact Json.members?_last rfl (user _ _) rfl
  have comma : Json.skipSpace ", \"user\": \x7b\"name\": \"b\"\x7d\x7d".toList =
      ',' :: " \"user\": \x7b\"name\": \"b\"\x7d\x7d".toList := by decide
  have members (fuel depth : Nat) :
      Json.members? .strict (fuel + 5) (depth + 1)
          ('"' :: "user.name\": \"a\", \"user\": \x7b\"name\": \"b\"\x7d\x7d".toList) =
        some (siteVariables, []) :=
    Json.members?_cons rfl (a _ _) comma (others _ _)
  have whole (fuel depth : Nat) : Json.value? .strict (fuel + 6) (depth + 2) variablesText.toList =
      some (.map siteVariables, []) := by
    have text : variablesText.toList = '\x7b' ::
        "\"user.name\": \"a\", \"user\": \x7b\"name\": \"b\"\x7d\x7d".toList := rfl
    rw [text]
    exact Json.value?_object rfl (members _ _)
  have fuel : 2 * variablesText.toList.length + 2 = 78 + 6 := by decide
  have depth : variablesText.length = 39 + 2 := by decide
  have start : Json.skipSpace variablesText.toList = variablesText.toList := by decide
  unfold Json.read? Json.readNested?
  rw [fuel, depth, start, whole 78 39]
  rfl

theorem fileVariables_request (template : List UInt8) (item : String) :
    (request item).fileVariables (site template) = .ok siteVariables := by
  have isFile : (site template).isFile (Path.ofString "v.json") = true := by cbv
  have isJson : DataFile.isJson (Path.ofString "v.json") = true := by decide +kernel
  have text : (site template).readText (Path.ofString "v.json") = .ok variablesText := by cbv
  change Variables.load (site template) (Path.ofString "v.json") = _
  unfold Variables.load DataFile.readJson
  rw [isFile, isJson, text]
  simp only [read?_variablesText]
  rfl

def siteConfig (assigned : Mapping) : Config :=
  { Config.standard with
    bindings := Mapping.overlay (Mapping.overlay assigned siteVariables) [] }

def unconfigured : Session :=
  Session.empty.record .debug "No liquidish.yaml found, using defaults"

theorem load_request (template : List UInt8) (item : String) :
    (Config.load (site template) none (request item).source.parent).outcome .empty =
      (.ok .standard, unconfigured) := by
  cbv

theorem configure_request (template : List UInt8) {item : String} {assigned : Mapping}
    (accepted : Variables.ofAssignments [item] = .ok assigned) :
    ((request item).configure (site template)).outcome .empty =
      (.ok (siteConfig assigned), unconfigured) := by
  have bound : (request item).bindings (site template) =
      .ok (Mapping.overlay assigned siteVariables) := by
    rw [bindings_eq, fileVariables_request]
    change (Variables.ofAssignments [item] >>= _) = _
    rw [accepted]
    rfl
  unfold configure
  change (Config.load (site template) none (request item).source.parent >>= _).outcome _ = _
  rw [Eval.outcome_bind_ok (load_request template item), bound]
  rfl

theorem title_is_shown :
    (request "title=c").Assigns "title" "c" ∧
      (∃ frame, Frame.expandAll (siteConfig [(.str "title", .str "c")]).bindings = .ok frame ∧
        Mapping.lookup? "title" frame = some (.str "c")) ∧
      (((request "title=c").render (site (showing "title").toUTF8.toList)).outcome .empty).1 =
        .ok (some "c") := by
  have given : (request "title=c").Assigns "title" "c" := ⟨[], "title=c", [], rfl, by cbv, by simp⟩
  have text : (site (showing "title").toUTF8.toList).readText (request "title=c").source =
      .ok (showing "title") := by cbv
  have accepted : Variables.ofAssignments ["title=c"] = .ok [(.str "title", .str "c")] := by cbv
  obtain ⟨base, file, before, after, loaded, read, -, -, -, -, inFrame⟩ :=
    assigned_value_stays_iff (configure_request (showing "title").toUTF8.toList accepted) given
  obtain ⟨-, fresh, shown⟩ := inFrame _ rfl
  have standard : base = .standard := by
    have both := (load_request _ _).symm.trans loaded
    exact (Except.ok.inj (Prod.mk.inj both).1).symm
  have ofFile : file = siteVariables := by
    have both := (fileVariables_request _ _).symm.trans read
    exact (Except.ok.inj both).symm
  rw [standard, ofFile] at fresh
  have stays := fresh rfl rfl
  exact ⟨given, ⟨_, rfl, stays⟩, shown stays (by decide) (by decide) .ispconfig
    ⟨"/", ["t.liquid"]⟩ rfl text rfl⟩

/-- The value that the command line assigns gives way to a part of a variable of the file. -/
theorem part_of_file_variable_wins :
    (request "user.name=c").Assigns "user.name" "c" ∧ isName "user.name".toList = true ∧
      ¬ Lexeme.braces <:+: "c".toList ∧
      (site (showing "user.name").toUTF8.toList).readText (request "user.name=c").source =
        .ok (showing "user.name") ∧
      (((request "user.name=c").render (site (showing "user.name").toUTF8.toList)).outcome
        .empty).1 = .ok (some "b") := by
  have accepted : Variables.ofAssignments ["user.name=c"] =
      .ok [(.str "user.name", .str "c")] := by cbv
  have text : (site (showing "user.name").toUTF8.toList).readText
      (request "user.name=c").source = .ok (showing "user.name") := by cbv
  have given : (request "user.name=c").Assigns "user.name" "c" :=
    ⟨[], "user.name=c", [], rfl, by cbv, by simp⟩
  refine ⟨given, by decide, by decide, text, ?_⟩
  unfold render
  rw [Eval.outcome_bind_ok (configure_request _ accepted)]
  have resolved : (site (showing "user.name").toUTF8.toList).resolve
      (request "user.name=c").source = .ok ⟨"/", ["t.liquid"]⟩ := rfl
  exact renderFile_showing rfl rfl (by decide) (by decide) rfl text resolved

end Example

end CommandLine.RenderRequest

end Stencil
