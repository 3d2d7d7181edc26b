import Stencil.Proofs.Assignments
import Stencil.Proofs.Crashes

set_option autoImplicit false

/-!
# Variables inside of values

A text that a name is bound to is shown with the variables in it replaced, from left to right. The
same comes out where the text is compiled as a template, as long as it holds no tags, its variables
trim nothing and none of them is bound to a text with variables of its own.
-/

namespace Stencil.Template

/-- A stretch of a text: a character by itself, or a variable with its dashes. -/
inductive Stretch
  | char (c : Char)
  | nested (before after : Bool) (name : List Char)
  deriving Repr, DecidableEq

/-- A text that begins with a variable, with certain dashes and a certain name, and goes on with a
rest. -/
inductive BeginsWith (before after : Bool) (name rest : List Char) : List Char → Prop
  | mk {lead trail : List Char} (blankLead : ∀ c ∈ lead, Text.isBlank c = true)
      (named : NameForm name) (blankTrail : ∀ c ∈ trail, Text.isBlank c = true) :
    BeginsWith before after name rest (Lexeme.braces ++
      (dash before ++ (lead ++ (name ++ (trail ++ (dash after ++ variableEnd ++ rest))))))

/-- How a text is cut from left to right: a variable is taken wherever one begins, and a character
where none does. -/
inductive CutInto : List Char → List Stretch → Prop
  | nil : CutInto [] []
  | nested {before after : Bool} {name rest cs : List Char} {ps : List Stretch}
      (begins : BeginsWith before after name rest cs) (others : CutInto rest ps) :
    CutInto cs (.nested before after name :: ps)
  | char {c : Char} {cs : List Char} {ps : List Stretch}
      (plain : ∀ before after name rest, ¬ BeginsWith before after name rest (c :: cs))
      (others : CutInto cs ps) :
    CutInto (c :: cs) (.char c :: ps)

section Cut

variable {before after : Bool} {name rest cs : List Char} {ps qs : List Stretch}

theorem beginsWith_iff :
    BeginsWith before after name rest cs ↔
      ∃ inner, cs = Lexeme.braces ++ inner ∧
        Lexeme.interpolation? inner = some (.interpolation before after name, rest) := by
  constructor
  · rintro ⟨blankLead, named, blankTrail⟩
    exact ⟨_, rfl, Lexeme.interpolation?_written before after rest blankLead named blankTrail⟩
  · rintro ⟨inner, rfl, read⟩
    obtain ⟨b, a, lead, n, trail, same, rfl, blankLead, named, blankTrail⟩ :=
      Lexeme.exists_of_interpolation? read
    obtain ⟨rfl, rfl, rfl⟩ := Lexeme.interpolation.inj same
    exact .mk blankLead named blankTrail

theorem BeginsWith.ne_nil (h : BeginsWith before after name rest cs) : cs ≠ [] := by
  cases h
  exact List.cons_ne_nil _ _

theorem BeginsWith.unique {before' after' : Bool} {name' rest' : List Char}
    (h : BeginsWith before after name rest cs) (h' : BeginsWith before' after' name' rest' cs) :
    before = before' ∧ after = after' ∧ name = name' ∧ rest = rest' := by
  obtain ⟨inner, split, read⟩ := beginsWith_iff.1 h
  obtain ⟨inner', split', read'⟩ := beginsWith_iff.1 h'
  obtain rfl := List.append_cancel_left (split.symm.trans split')
  obtain ⟨same, rests⟩ := Prod.mk.inj (Option.some.inj (read.symm.trans read'))
  obtain ⟨befores, afters, names⟩ := Lexeme.interpolation.inj same
  exact ⟨befores, afters, names, rests⟩

theorem CutInto.unique (h : CutInto cs ps) (h' : CutInto cs qs) : ps = qs := by
  induction h generalizing qs with
  | nil =>
    cases h' with
    | nil => rfl
    | nested begins => exact absurd rfl begins.ne_nil
  | nested begins _ ih =>
    cases h' with
    | nil => exact absurd rfl begins.ne_nil
    | nested begins' others' =>
      obtain ⟨rfl, rfl, rfl, rfl⟩ := begins.unique begins'
      rw [ih others']
    | char plain => exact absurd begins (plain _ _ _ _)
  | char plain _ ih =>
    cases h' with
    | nested begins' => exact absurd begins' (plain _ _ _ _)
    | char _ others' => rw [ih others']

theorem CutInto.chars {front : List Char} (others : CutInto rest ps)
    (plain : ∀ k < front.length, ∀ before after name r,
      ¬ BeginsWith before after name r ((front ++ rest).drop k)) :
    CutInto (front ++ rest) (front.map .char ++ ps) := by
  induction front with
  | nil => exact others
  | cons c front ih =>
    refine .char (plain 0 (Nat.succ_pos _)) (ih fun k lt => ?_)
    exact plain (k + 1) (Nat.succ_lt_succ lt)

end Cut

namespace Lexeme

def stretches : Lexeme → List Stretch
  | text value => value.map .char
  | interpolation before after name => [.nested before after name]
  | tag _ _ _ _ => []

theorem scan_nil_cases (c : Char) (cs : List Char) :
    (∃ before after name, (scan [] c cs).1 = interpolation before after name ∧
        BeginsWith before after name (scan [] c cs).2 (c :: cs)) ∨
      (scan [] c cs).1.isText = true := by
  unfold scan
  split
  · rw [tag?_nil]
    exact .inr rfl
  · rename_i inner
    cases read : interpolation? inner with
    | none => exact .inr rfl
    | some r =>
      obtain ⟨before, after, lead, name, trail, same, -⟩ := exists_of_interpolation? read
      have lexeme : r = (interpolation before after name, r.2) := Prod.ext same rfl
      refine .inl ⟨before, after, name, same, beginsWith_iff.2 ⟨inner, rfl, ?_⟩⟩
      rw [read, lexeme]
      rfl
  · exact .inr rfl

theorem plain_of_text {c : Char} {cs : List Char} (h : (scan [] c cs).1.isText = true) :
    ∀ k < (scan [] c cs).1.textChars.length, ∀ before after name rest,
      ¬ BeginsWith before after name rest
        (((scan [] c cs).1.textChars ++ (scan [] c cs).2).drop k) := by
  intro k lt before after name rest begins
  rw [scan_text_append h] at begins
  obtain ⟨inner, split, read⟩ := beginsWith_iff.1 begins
  cases k with
  | zero =>
    refine (unread_of_isText h).2 split ?_
    exact ⟨rest, variableForm_of_interpolation? read⟩
  | succ k => exact (plain_of_isText h (Nat.succ_pos k) lt).2 ⟨inner, split.symm⟩

theorem cutInto_all (cs : List Char) :
    CutInto cs ((all [] cs).flatMap fun l => l.1.stretches) := by
  induction cs using all.induct [] with
  | case1 =>
    rw [all]
    exact .nil
  | case2 c cs read ih =>
    rw [all, List.flatMap_cons]
    rcases scan_nil_cases c cs with ⟨before, after, name, lexeme, begins⟩ | isText
    · simp only [lexeme, stretches]
      exact .nested begins ih
    · have chars : (scan [] c cs).1.stretches = (scan [] c cs).1.textChars.map .char := by
        generalize (scan [] c cs).1 = l at isText
        cases l with
        | text value => rfl
        | interpolation => cases isText
        | tag => cases isText
      have cut := ih.chars (plain_of_text isText)
      rw [scan_text_append isText] at cut
      simp only [chars]
      exact cut

theorem all_eq_nil (names : List (List Char)) {cs : List Char} (h : ¬ tagStart <:+: cs) :
    all names cs = all [] cs := by
  induction cs using all.induct names with
  | case1 => rw [all, all]
  | case2 c cs read ih =>
    have same : scan names c cs = scan [] c cs := by
      unfold scan
      split
      · rename_i inner
        exact absurd ⟨[], inner, rfl⟩ h
      · rfl
      · rfl
    have rest : ¬ tagStart <:+: read.2 := fun inside =>
      h (inside.trans (scan_suffix names c cs).isInfix)
    rw [all, all, ← same]
    exact congrArg _ (ih rest)

theorem cases_of_mem_all {cs : List Char} {l : Lexeme × List Char} (h : l ∈ all [] cs) :
    (∃ before after name, l.1 = interpolation before after name) ∨ ∃ value, l.1 = text value := by
  induction cs using all.induct [] with
  | case1 =>
    rw [all] at h
    cases h
  | case2 c cs read ih =>
    rw [all] at h
    rcases List.mem_cons.1 h with rfl | later
    · rcases scan_nil_cases c cs with ⟨before, after, name, lexeme, -⟩ | isText
      · exact .inl ⟨before, after, name, lexeme⟩
      · rw [scan_of_isText isText]
        exact .inr ⟨_, rfl⟩
    · exact ih later

end Lexeme

theorem Token.obey_undashed {t : Token} (h : t.trimBefore = false) :
    t.obey false false = .ok t := by
  obtain ⟨kind, indentation, trimBefore, trimAfter, parameters, value, position⟩ := t
  change trimBefore = false at h
  simp [obey, h]

theorem Token.obeyAll_place {ls : List (Lexeme × List Char)}
    (undashed : ∀ l ∈ ls, ∀ position indentation,
      (ofLexeme position indentation l.1).trimBefore = false ∧
        (ofLexeme position indentation l.1).trimAfter = false) (position : Nat) (margin : Margin) :
    obeyAll false (place position margin ls) = .ok (place position margin ls) := by
  induction ls generalizing position margin with
  | nil => rfl
  | cons l ls ih =>
    obtain ⟨lexeme, source⟩ := l
    obtain ⟨first, others⟩ := List.forall_mem_cons.1 undashed
    obtain ⟨before, after⟩ := first position margin.blanks
    have next : ((place (position + source.length) (source.foldl Margin.step margin) ls).head?.map
        trimBefore).getD false = false := by
      cases ls with
      | nil => rfl
      | cons m ms => exact (others m List.mem_cons_self _ _).1
    rw [place, obeyAll, next, obey_undashed before, after, ih others]
    rfl

end Stencil.Template

namespace Stencil

open Template Compile

/-- What stands for a stretch: a character for itself, a variable for the text of its value, or for
itself if its name is not known. -/
def Template.Stretch.write (f : Fragments) (scope : Scope) : Stretch → Except Failure String
  | char c => .ok (String.singleton c)
  | nested _ _ name =>
    match scope.lookup? (String.ofList name) with
    | some v => v.stringify
    | none => .ok (f.echo (String.ofList name))

theorem Template.Stretch.write_known {f : Fragments} {scope : Scope} {before after : Bool}
    {name : List Char} {v : Value} (h : scope.lookup? (String.ofList name) = some v) :
    write f scope (.nested before after name) = v.stringify := by
  simp only [write, h]

theorem Template.Stretch.write_unknown {f : Fragments} {scope : Scope} {before after : Bool}
    {name : List Char} (h : scope.lookup? (String.ofList name) = none) :
    write f scope (.nested before after name) = .ok (f.echo (String.ofList name)) := by
  simp only [write, h]

def writeAll (f : Fragments) (scope : Scope) (ps : List Stretch) : Except Failure String :=
  (ps.mapM (Stretch.write f scope)).map String.join

section Write

variable (f : Fragments) (scope : Scope)

theorem writeAll_append (ps qs : List Stretch) :
    writeAll f scope (ps ++ qs) =
      writeAll f scope ps >>= fun a => writeAll f scope qs >>= fun b => .ok (a ++ b) := by
  unfold writeAll
  rw [List.mapM_append]
  rcases ps.mapM (Stretch.write f scope) with _ | as
  · rfl
  · rcases qs.mapM (Stretch.write f scope) with _ | bs
    · rfl
    · exact congrArg Except.ok String.join_append

theorem writeAll_chars (cs : List Char) :
    writeAll f scope (cs.map .char) = .ok (String.ofList cs) := by
  induction cs with
  | nil => rfl
  | cons c cs ih =>
    rw [List.map_cons, ← List.singleton_append, writeAll_append, ih]
    change Except.ok (String.join [String.singleton c] ++ String.ofList cs) = _
    simp [String.join_cons]

theorem writeAll_nested (before after : Bool) (name : List Char) :
    writeAll f scope [.nested before after name] =
      Stretch.write f scope (.nested before after name) := by
  unfold writeAll
  rw [List.mapM_cons]
  cases Stretch.write f scope (.nested before after name) with
  | error e => rfl
  | ok text => exact congrArg Except.ok (by simp [String.join_cons])

end Write

/-- A lexeme of a value that is shown in the same way on its own: a text, or a variable without
dashes that is not the value itself and does not stand for a text with variables. -/
inductive Settled (scope : Scope) (owner : String) : Lexeme → Prop
  | text (value : List Char) : Settled scope owner (.text value)
  | nested {name : List Char} (foreign : String.ofList name ≠ owner)
      (flat : ∀ text, scope.lookup? (String.ofList name) = some (.str text) →
        ¬ Lexeme.braces <:+: text.toList) :
    Settled scope owner (.interpolation false false name)

section Shown

variable {scope : Scope} {owner : String} (f : Fragments) (shown : Bool)

theorem written_echoText {l : Lexeme} (h : Settled scope owner l) :
    (echoText scope owner l).map (fun r => Residual.renderAll f shown [r]) =
      writeAll f scope l.stretches := by
  cases h with
  | text value =>
    rw [Lexeme.stretches, writeAll_chars]
    simp [echoText, Except.map, Residual.renderAll, Residual.render]
  | @nested name foreign flat =>
    rw [Lexeme.stretches, writeAll_nested, echoText, if_neg foreign]
    cases known : scope.lookup? (String.ofList name) with
    | none =>
      rw [Stretch.write_unknown known]
      simp [Except.map, Residual.renderAll, Residual.render]
    | some v =>
      rw [Stretch.write_known known]
      change (v.stringify.map Residual.text).map _ = _
      cases v.stringify with
      | error e => rfl
      | ok text => simp [Except.map, Residual.renderAll, Residual.render]

theorem written_mapM_echoText {ls : List (Lexeme × List Char)}
    (h : ∀ l ∈ ls, Settled scope owner l.1) :
    (ls.mapM fun l => echoText scope owner l.1).map (Residual.renderAll f shown) =
      writeAll f scope (ls.flatMap fun l => l.1.stretches) := by
  induction ls with
  | nil => rfl
  | cons l ls ih =>
    obtain ⟨first, others⟩ := List.forall_mem_cons.1 h
    rw [List.mapM_cons, List.flatMap_cons, writeAll_append, ← written_echoText f shown first,
      ← ih others]
    cases echoText scope owner l.1 with
    | error e => rfl
    | ok r =>
      cases ls.mapM fun l => echoText scope owner l.1 with
      | error e => rfl
      | ok rs => exact congrArg Except.ok (Residual.renderAll_append f shown [r] rs)

theorem written_echo {name : List Char} {t : Session}
    (flat : ∀ text, t.scope.lookup? (String.ofList name) = some (.str text) →
      ¬ Lexeme.braces <:+: text.toList) (before after : Bool) :
    ((echo (some (String.ofList name))).outcome t).1.map (Residual.renderAll f shown) =
      Stretch.write f t.scope (.nested before after name) := by
  cases known : t.scope.lookup? (String.ofList name) with
  | none =>
    unfold echo
    rw [Eval.outcome_scope_bind, Option.getD_some, known, Stretch.write_unknown known]
    simp [Except.map, Residual.renderAll, Residual.render]
  | some v =>
    have bound : t.scope.lookup? ((some (String.ofList name)).getD "") = some v := known
    rw [Stretch.write_known known]
    by_cases text : ∃ text, v = .str text
    · obtain ⟨text, rfl⟩ := text
      have plain := flat text known
      rw [outcome_echo_text bound, mapM_echoText_texts _ _ (Lexeme.all_nil_texts plain).1]
      change Except.ok (Residual.renderAll f shown
        ((textsOf text).map fun cs => .text (String.ofList cs))) = _
      rw [Transform.renderAll_texts, flatten_textsOf plain]
      rfl
    · rw [outcome_echo_other bound fun other same => text ⟨other, same⟩]
      cases v.stringify with
      | error e => rfl
      | ok other => simp [Except.map, Residual.renderAll, Residual.render]

variable {env : Env} (shared : env.dialect.extension? "variable" = none)
include shared

theorem node_leafOf {l : Lexeme} (h : Settled scope owner l) (position indentation : Nat) :
    node env (Builder.leafOf (Token.ofLexeme position indentation l)) =
      match l with
      | .interpolation _ _ name => echo (some (String.ofList name))
      | l => pure [.text (String.ofList l.textChars)] := by
  cases h with
  | text value =>
    change node env (.text (String.ofList value) indentation) = _
    rw [node]
    rfl
  | @nested name _ _ => exact @node_plainly env _ .echo shared rfl

theorem written_node {l : Lexeme} (h : Settled scope owner l) (position indentation : Nat)
    {t : Session} (same : t.scope = scope) :
    ((node env (Builder.leafOf (Token.ofLexeme position indentation l))).outcome t).1.map
        (Residual.renderAll f shown) = writeAll f scope l.stretches ∧
      ((node env (Builder.leafOf (Token.ofLexeme position indentation l))).outcome t).2 = t := by
  rw [node_leafOf shared h]
  cases h with
  | text value =>
    rw [Lexeme.stretches, writeAll_chars]
    refine ⟨?_, rfl⟩
    simp [Lexeme.textChars, Except.map, Residual.renderAll, Residual.render]
  | @nested name foreign flat =>
    refine ⟨?_, @local_echo _ (Eval.local_keeps id) (some (String.ofList name)) t⟩
    subst same
    rw [Lexeme.stretches, writeAll_nested]
    exact written_echo f shown flat false false

theorem written_nodes {ls : List (Lexeme × List Char)} (h : ∀ l ∈ ls, Settled scope owner l.1)
    (position : Nat) (margin : Margin) {t : Session} (same : t.scope = scope) :
    ((nodes env ((Token.place position margin ls).map Builder.leafOf)).outcome t).1.map
        (Residual.renderAll f shown) = writeAll f scope (ls.flatMap fun l => l.1.stretches) ∧
      ((nodes env ((Token.place position margin ls).map Builder.leafOf)).outcome t).2 = t := by
  induction ls generalizing position margin with
  | nil =>
    rw [Token.place, List.map_nil, nodes]
    exact ⟨rfl, rfl⟩
  | cons l ls ih =>
    obtain ⟨lexeme, source⟩ := l
    obtain ⟨first, others⟩ := List.forall_mem_cons.1 h
    obtain ⟨written, kept⟩ := written_node f shown shared first position margin.blanks same
    obtain ⟨writtenLater, keptLater⟩ :=
      ih others (position + source.length) (source.foldl Margin.step margin)
    rw [Token.place, List.map_cons, nodes, List.flatMap_cons, writeAll_append, ← written,
      ← writtenLater, Eval.outcome_bind]
    rcases here : (node env (Builder.leafOf
      (Token.ofLexeme position margin.blanks lexeme))).outcome t with ⟨_ | rs, u⟩
    · rw [here] at kept
      exact ⟨rfl, kept⟩
    · rw [here] at kept
      obtain rfl : u = t := kept
      simp only [Eval.outcome_bind]
      rcases later : (nodes env ((Token.place (position + source.length)
        (source.foldl Margin.step margin) ls).map Builder.leafOf)).outcome u with ⟨_ | ts, w⟩
      · rw [later] at keptLater
        exact ⟨rfl, keptLater⟩
      · rw [later] at keptLater
        exact ⟨congrArg Except.ok (Residual.renderAll_append f shown rs ts), keptLater⟩

end Shown

namespace Transform

def Holds (cs : List Char) (p : Stretch) : Prop := ∃ ps, CutInto cs ps ∧ p ∈ ps

theorem holds_iff {cs : List Char} {p : Stretch} :
    Holds cs p ↔ p ∈ (Lexeme.all [] cs).flatMap fun l => l.1.stretches := by
  have cut := Lexeme.cutInto_all cs
  constructor
  · rintro ⟨ps, other, mem⟩
    rwa [other.unique cut] at mem
  · exact fun mem => ⟨_, cut, mem⟩

theorem settled_of_holds {scope : Scope} {owner : String} {cs : List Char}
    (undashed : ∀ before after name, Holds cs (.nested before after name) →
      before = false ∧ after = false)
    (foreign : ∀ before after name, Holds cs (.nested before after name) →
      String.ofList name ≠ owner)
    (flat : ∀ before after name text, Holds cs (.nested before after name) →
      scope.lookup? (String.ofList name) = some (.str text) → ¬ Lexeme.braces <:+: text.toList) :
    ∀ l ∈ Lexeme.all [] cs, Settled scope owner l.1 := by
  intro l mem
  rcases Lexeme.cases_of_mem_all mem with ⟨before, after, name, lexeme⟩ | ⟨value, lexeme⟩
  · have held : Holds cs (.nested before after name) := by
      refine holds_iff.2 (List.mem_flatMap.2 ⟨l, mem, ?_⟩)
      rw [lexeme]
      exact List.mem_cons_self
    rw [lexeme]
    obtain ⟨rfl, rfl⟩ := undashed _ _ _ held
    exact .nested (foreign _ _ _ held) fun text => flat _ _ _ text held
  · rw [lexeme]
    exact .text value

section Contents

variable {settings : Settings} {entry : String × Dialect}
  (builtin : entry ∈ Registry.builtin.entries) (dialect : settings.dialect = entry.2)
include builtin dialect

theorem quietly_parse_settled {scope : Scope} {owner v : String}
    (untagged : ¬ Lexeme.tagStart <:+: v.toList)
    (settled : ∀ l ∈ Lexeme.all [] v.toList, Settled scope owner l.1) (s : Session) :
    (parse settings.dialect v).Quietly s
      ((Token.place 0 .start (Lexeme.all [] v.toList)).map Builder.leafOf) := by
  have undashed : ∀ l ∈ Lexeme.all [] v.toList, ∀ position indentation,
      (Token.ofLexeme position indentation l.1).trimBefore = false ∧
        (Token.ofLexeme position indentation l.1).trimAfter = false := by
    rintro ⟨lexeme, source⟩ mem position indentation
    cases settled _ mem <;> exact ⟨rfl, rfl⟩
  have read : Token.ofText settings.dialect.tags v =
      .ok (Token.place 0 .start (Lexeme.all [] v.toList)) := by
    change Token.obeyAll false (Token.place 0 .start (Lexeme.all _ v.toList)) = _
    rw [Lexeme.all_eq_nil _ untagged]
    exact Token.obeyAll_place undashed 0 .start
  have kinds : ∀ t ∈ Token.place 0 .start (Lexeme.all [] v.toList),
      t.kind ∈ ["text", "variable"] := by
    refine @Token.kind_of_mem_place (· ∈ ["text", "variable"]) _ _ _ fun l mem => ?_
    obtain ⟨lexeme, source⟩ := l
    cases settled _ mem <;> simp [Token.ofLexeme]
  have flat : ∀ t ∈ Token.place 0 .start (Lexeme.all [] v.toList),
      t.effect settings.dialect.tags = (false, false) := by
    intro t mem
    rw [dialect]
    exact effect_of_reserved (builtin_writable builtin).1 (kinds t mem)
  exact quietly_parse read (Builder.ofTokens_of_takes (Builder.takes_leaves flat .empty)) s

theorem written_contents {owner v : String} {s : Session}
    (untagged : ¬ Lexeme.tagStart <:+: v.toList)
    (settled : ∀ l ∈ Lexeme.all [] v.toList, Settled s.scope owner l.1) (f : Fragments)
    (shown : Bool) :
    ((contents settings v).outcome s).1.map (Residual.renderAll f shown) =
        writeAll f s.scope ((Lexeme.all [] v.toList).flatMap fun l => l.1.stretches) ∧
      ((contents settings v).outcome s).2.scope = s.scope := by
  obtain ⟨t, parsed, same, -⟩ := quietly_parse_settled builtin dialect untagged settled s
  have shared : (env settings (contentsWithin settings (maxNesting - 1))).dialect.extension?
      "variable" = none := by
    change settings.dialect.extension? "variable" = none
    rw [dialect]
    exact extension?_variable builtin
  obtain ⟨written, kept⟩ := written_nodes f shown shared settled 0 .start same
  change ((contentsWithin settings (maxNesting - 1 + 1) v).outcome s).1.map _ = _ ∧
    ((contentsWithin settings (maxNesting - 1 + 1) v).outcome s).2.scope = _
  rw [contentsWithin_succ, Eval.outcome_bind_ok parsed, kept]
  exact ⟨written, same⟩

end Contents

/-- A name that is bound to a text without tags is shown as that text is compiled in the same
scope: both write the stretches that the text is cut into. Its variables have no dashes, none of
them is the name itself, and none is bound to a text with variables. -/
theorem value_is_shown_as_compiled (entry : String × Dialect)
    (builtin : entry ∈ Registry.builtin.entries) (extension : String) (files : FileTree)
    (shown : Bool) (s : Session) (owner v : String)
    (bound : s.scope.lookup? owner = some (.str v))
    (untagged : ¬ Lexeme.tagStart <:+: v.toList)
    (undashed : ∀ before after name, Holds v.toList (.nested before after name) →
      before = false ∧ after = false)
    (foreign : ∀ before after name, Holds v.toList (.nested before after name) →
      String.ofList name ≠ owner)
    (flat : ∀ before after name text, Holds v.toList (.nested before after name) →
      s.scope.lookup? (String.ofList name) = some (.str text) →
      ¬ Lexeme.braces <:+: text.toList) :
    let echoed := (echo (some owner)).outcome s
    let compiled := (contents ⟨entry.2, extension, files⟩ v).outcome s
    ∃ ps, (∀ qs, CutInto v.toList qs ↔ qs = ps) ∧
      echoed.1.map (Residual.renderAll entry.2.fragments shown) =
        writeAll entry.2.fragments s.scope ps ∧
      compiled.1.map (Residual.renderAll entry.2.fragments shown) =
        writeAll entry.2.fragments s.scope ps ∧
      echoed.2.scope = s.scope ∧ compiled.2.scope = s.scope := by
  intro echoed compiled
  have settled := settled_of_holds undashed foreign flat
  have cut := Lexeme.cutInto_all v.toList
  obtain ⟨written, kept⟩ := @written_contents ⟨entry.2, extension, files⟩ entry builtin rfl owner v
    s untagged settled entry.2.fragments shown
  refine ⟨_, fun qs => ⟨fun h => h.unique cut, ?_⟩, ?_, written, ?_, kept⟩
  · rintro rfl
    exact cut
  · have known : s.scope.lookup? ((some owner).getD "") = some (.str v) := bound
    change ((echo (some owner)).outcome s).1.map _ = _
    rw [outcome_echo_text known]
    exact written_mapM_echoText _ shown settled
  · exact @local_echo _ (Eval.local_keeps Session.scope) (some owner) s

section Example

def greeting : String := "\x7b\x7b\x7bname\x7d\x7d, \x7b\x7b x \x7d\x7d \x7b\x7b 1 +"

def greetingStretches : List Stretch :=
  .char '\x7b' :: .nested false false "name".toList :: ", ".toList.map .char ++
    .nested false false ['x'] :: " \x7b\x7b 1 +".toList.map .char

def greetingSession : Session :=
  ⟨⟨[[(.str "greeting", .str greeting), (.str "name", .str "Bob")]], none⟩, []⟩

theorem stretches_greeting :
    (Lexeme.all [] greeting.toList).flatMap (fun l => l.1.stretches) = greetingStretches := by
  cbv

theorem greeting_is_shown_as_compiled :
    ((echo (some "greeting")).outcome greetingSession).1.map
        (Residual.renderAll Dialect.php.fragments false) =
        .ok "\x7bBob, <?php echo $x; ?> \x7b\x7b 1 +" ∧
      ((contents ⟨.php, ".liquid", ⟨[], [], []⟩⟩ greeting).outcome greetingSession).1.map
        (Residual.renderAll Dialect.php.fragments false) =
        .ok "\x7bBob, <?php echo $x; ?> \x7b\x7b 1 +" := by
  have held {before after : Bool} {name : List Char}
      (h : Holds greeting.toList (.nested before after name)) :
      before = false ∧ after = false ∧ (name = "name".toList ∨ name = ['x']) := by
    rw [holds_iff, stretches_greeting] at h
    have found : (before = false ∧ after = false ∧ name = ['n', 'a', 'm', 'e']) ∨
        before = false ∧ after = false ∧ name = ['x'] := by
      simpa [greetingStretches] using h
    rcases found with ⟨rfl, rfl, rfl⟩ | ⟨rfl, rfl, rfl⟩
    · exact ⟨rfl, rfl, .inl rfl⟩
    · exact ⟨rfl, rfl, .inr rfl⟩
  have written : writeAll Dialect.php.fragments greetingSession.scope greetingStretches =
      .ok "\x7bBob, <?php echo $x; ?> \x7b\x7b 1 +" := by cbv
  have foreign {before after : Bool} {name : List Char}
      (h : Holds greeting.toList (.nested before after name)) :
      String.ofList name ≠ "greeting" := by
    rcases (held h).2.2 with rfl | rfl <;> decide
  have flat {before after : Bool} {name : List Char} {text : String}
      (h : Holds greeting.toList (.nested before after name))
      (bound : greetingSession.scope.lookup? (String.ofList name) = some (.str text)) :
      ¬ Lexeme.braces <:+: text.toList := by
    rcases (held h).2.2 with rfl | rfl
    · have bob : greetingSession.scope.lookup? "name" = some (.str "Bob") := rfl
      obtain ⟨rfl⟩ : Value.str "Bob" = .str text := Option.some.inj (bob.symm.trans bound)
      decide
    · cases bound
  obtain ⟨ps, only, echoed, compiled, -⟩ := value_is_shown_as_compiled ("php", .php)
    (List.mem_cons_of_mem _ List.mem_cons_self) ".liquid" ⟨[], [], []⟩ false greetingSession
    "greeting" greeting rfl (by decide) (fun _ _ _ h => ⟨(held h).1, (held h).2.1⟩)
    (fun _ _ _ => foreign) fun _ _ _ _ => flat
  have cut := Lexeme.cutInto_all greeting.toList
  rw [stretches_greeting] at cut
  rw [← (only _).1 cut, written] at echoed compiled
  exact ⟨echoed, compiled⟩

end Example

end Transform

end Stencil
