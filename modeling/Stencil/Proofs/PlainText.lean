import Stencil.Proofs.Linearisation
import Stencil.Proofs.Presentation
import Stencil.Proofs.Segmentation

set_option autoImplicit false

/-!
# Texts without directives

A text in which no tag of a dialect and no variable begins is its own transformation: it is cut at
every delimiter that begins nothing, and the pieces are put together again as they were.
-/

namespace Stencil.Template

/-- No tag and no variable begins anywhere in the text. -/
structure DirectiveFree (names : List (List Char)) (cs : List Char) : Prop where
  untagged : ∀ inner rest, Lexeme.tagStart ++ inner <:+ cs → ¬ TagForm names inner rest
  unbraced : ∀ inner rest, Lexeme.braces ++ inner <:+ cs → ¬ VariableForm inner rest

namespace Lexeme

def beginsDirective (names : List (List Char)) : List Char → Bool
  | '{' :: '%' :: inner => (tag? names inner).isSome
  | '{' :: '{' :: inner => (interpolation? inner).isSome
  | _ => false

theorem isText_scan (names : List (List Char)) (c : Char) (cs : List Char) :
    (scan names c cs).1.isText = !beginsDirective names (c :: cs) := by
  unfold scan
  split
  · rename_i inner
    change _ = !(tag? names inner).isSome
    cases h : tag? names inner with
    | none => rfl
    | some r => exact isText_tag? h
  · rename_i inner
    change _ = !(interpolation? inner).isSome
    cases h : interpolation? inner with
    | none => rfl
    | some r => exact isText_interpolation? h
  · rename_i noTag noVariable
    have none_begins : beginsDirective names (c :: cs) = false := by
      unfold beginsDirective
      split
      · rename_i same
        obtain ⟨rfl, rfl⟩ := List.cons.inj same
        exact absurd rfl (noTag _ rfl)
      · rename_i same
        obtain ⟨rfl, rfl⟩ := List.cons.inj same
        exact absurd rfl (noVariable _ rfl)
      · rfl
    rw [none_begins]
    rfl

end Lexeme

theorem directiveFree_iff {names : List (List Char)} {cs : List Char} :
    DirectiveFree names cs ↔ ∀ ds ∈ cs.tails, Lexeme.beginsDirective names ds = false := by
  have tagged (inner : List Char) :
      (Lexeme.tag? names inner).isSome = false ↔ ∀ rest, ¬ TagForm names inner rest := by
    rw [← Bool.not_eq_true, Lexeme.isSome_tag?_iff, not_exists]
  have braced (inner : List Char) :
      (Lexeme.interpolation? inner).isSome = false ↔ ∀ rest, ¬ VariableForm inner rest := by
    rw [← Bool.not_eq_true, Lexeme.isSome_interpolation?_iff, not_exists]
  simp only [List.mem_tails]
  constructor
  · intro free ds suffix
    unfold Lexeme.beginsDirective
    split
    · exact (tagged _).2 fun rest => free.untagged _ rest suffix
    · exact (braced _).2 fun rest => free.unbraced _ rest suffix
    · rfl
  · intro nowhere
    exact ⟨fun inner rest here => (tagged inner).1 (nowhere _ here) rest,
      fun inner rest here => (braced inner).1 (nowhere _ here) rest⟩

instance (names : List (List Char)) (cs : List Char) : Decidable (DirectiveFree names cs) :=
  decidable_of_iff _ directiveFree_iff.symm

section Tokens

variable {names : List (List Char)} {text : List Char}

/-- A token that is a text, asks for no trimming and holds certain characters. -/
structure Token.Verbatim (t : Token) (cs : List Char) : Prop where
  kind : t.kind = "text"
  trimBefore : t.trimBefore = false
  trimAfter : t.trimAfter = false
  value : t.value = some (String.ofList cs)

theorem ReadAt.scan_eq_text {previous next : Option Token} {t : Token} {c : Char} {cs : List Char}
    (h : ReadAt names text previous t next c cs) (free : DirectiveFree names text) :
    (Lexeme.scan names c cs).1 = .text (slice text t next) := by
  have here : c :: cs <:+ text := by
    rw [← h.here]
    exact List.drop_suffix _ _
  have isText : (Lexeme.scan names c cs).1.isText = true := by
    have none_begins := directiveFree_iff.1 free _ ((List.mem_tails _ _).2 here)
    rw [Lexeme.isText_scan, none_begins]
    rfl
  have chars := h.textChars isText
  rw [Lexeme.scan_of_isText isText] at chars ⊢
  exact congrArg Lexeme.text chars

theorem ReadAt.unmarked {previous next : Option Token} {t : Token} {c : Char} {cs : List Char}
    (h : ReadAt names text previous t next c cs) (free : DirectiveFree names text) :
    t.trimBefore = false ∧ t.trimAfter = false := by
  have token := h.token
  rw [h.scan_eq_text free] at token
  rw [token]
  exact ⟨rfl, rfl⟩

theorem ReadAt.verbatim {previous next : Option Token} {t : Token} {c : Char} {cs : List Char}
    (h : ReadAt names text previous t next c cs) (free : DirectiveFree names text)
    (before : trimsAfter previous = false) (after : trimsBefore next = false) :
    t.Verbatim (slice text t next) := by
  have token := h.token
  rw [h.scan_eq_text free, before, after] at token
  obtain ⟨trimBefore, trimAfter⟩ := h.unmarked free
  refine ⟨?_, trimBefore, trimAfter, ?_⟩
  · rw [token]
    rfl
  · have value := congrArg Token.value token
    simpa [Token.obeyed, Token.ofLexeme, Token.trimValue, Token.isText] using value

theorem Cut.unmarked_head (free : DirectiveFree names text) {previous : Option Token} {start : Nat}
    {ts : List Token} (h : Cut names text previous start ts) : trimsBefore ts.head? = false := by
  cases h with
  | nil => rfl
  | cons read later => exact (read.unmarked free).1

/-- No token asks its neighbours for trimming, so each text keeps the whole of its slice. -/
theorem Cut.verbatim (free : DirectiveFree names text) {previous : Option Token} {start : Nat}
    {ts : List Token} (h : Cut names text previous start ts)
    (before : trimsAfter previous = false) :
    List.Forall₂ Token.Verbatim ts (slices text ts) := by
  induction h with
  | nil => exact .nil
  | cons read later ih =>
    have first := read.verbatim free before (later.unmarked_head free)
    exact .cons first (ih first.trimAfter)

end Tokens

def Node.Shows (n : Node) (cs : List Char) : Prop :=
  ∃ indentation, n = .text (String.ofList cs) indentation

theorem Token.Verbatim.shows {t : Token} {cs : List Char} (h : t.Verbatim cs) :
    (Builder.leafOf t).Shows cs :=
  ⟨t.indentation, by simp [Builder.leafOf, Token.isText, h.kind, h.value]⟩

theorem Token.Verbatim.effect {t : Token} {cs : List Char} (h : t.Verbatim cs)
    (tags : List Tag) : t.effect tags = (false, false) := by
  simp [Token.effect, Token.isText, h.kind]

theorem exists_texts {tags : List Tag} (noText : ∀ tag ∈ tags, tag.name ≠ "text") {text : String}
    (free : DirectiveFree (tagNames tags) text.toList) :
    ∃ tokens roots pieces, Token.ofText tags text = .ok tokens ∧
      Forest.ofTokens tags tokens = .ok ⟨roots, []⟩ ∧ List.Forall₂ Node.Shows roots pieces ∧
      pieces.flatten = text.toList := by
  obtain ⟨tokens, read, cut⟩ := exists_cut noText text
  have verbatim := cut.verbatim free rfl
  have flat : ∀ t ∈ tokens, t.effect tags = (false, false) := by
    have paired := verbatim.imp fun t cs h => And.intro (h.effect tags) h
    exact ((List.forall₂_and_left _ _).1 paired).1
  have shows : List.Forall₂ Node.Shows (tokens.map Builder.leafOf) (slices text.toList tokens) :=
    List.forall₂_map_left_iff.2 (verbatim.imp fun _ _ => Token.Verbatim.shows)
  exact ⟨tokens, _, _, read, Builder.ofTokens_of_takes (Builder.takes_leaves flat .empty), shows,
    cut.flatten_slices⟩

end Stencil.Template

namespace Stencil

namespace Session

@[simp]
theorem warnings_record_debug (message : String) (s : Session) :
    (s.record .debug message).warnings = s.warnings := by
  simp [warnings, record]

@[simp]
theorem warnings_push (frame : Frame) (s : Session) : (s.push frame).warnings = s.warnings :=
  warnings_record_debug _ { s with scope := s.scope.push frame }

end Session

namespace Eval

variable {α β : Type} {s : Session}

/-- The computation gives a result and leaves scope and warnings as they were. -/
def Quietly (act : Eval α) (s : Session) (a : α) : Prop :=
  ∃ t, act.outcome s = (.ok a, t) ∧ t.scope = s.scope ∧ t.warnings = s.warnings

namespace Quietly

theorem pure (a : α) : Quietly (Pure.pure a) s a := ⟨s, rfl, rfl, rfl⟩

theorem debug (message : String) : Quietly (record .debug message) s () :=
  ⟨_, rfl, rfl, s.warnings_record_debug message⟩

theorem bind {x : Eval α} {f : α → Eval β} {a : α} {b : β} (hx : Quietly x s a)
    (hf : ∀ t, t.scope = s.scope → Quietly (f a) t b) : Quietly (x >>= f) s b := by
  obtain ⟨t, first, scope, warnings⟩ := hx
  obtain ⟨u, second, scope', warnings'⟩ := hf t scope
  refine ⟨u, ?_, scope'.trans scope, warnings'.trans warnings⟩
  rw [outcome_bind_ok first, second]

theorem read {e : Except Failure α} {f : α → Eval β} {a : α} {b : β} (he : e = .ok a)
    (hf : Quietly (f a) s b) : Quietly (ofExcept e >>= f) s b := by
  subst he
  exact hf

theorem withFrame {frame : Frame} {act : Eval α} {a : α} (h : Quietly act (s.push frame) a) :
    Quietly (Eval.withFrame frame act) s a := by
  obtain ⟨t, run, scope, warnings⟩ := h
  refine ⟨{ t with scope := t.scope.truncate s.scope.depth }, ?_, ?_, ?_⟩
  · rw [outcome_withFrame, run]
  · rw [scope]
    exact Scope.Kept.truncate_push (@Scope.Kept.refl (fun _ => True) _)
  · exact warnings.trans (s.warnings_push frame)

end Quietly

end Eval

namespace Transform

open Template Compile

theorem quietly_parse {dialect : Dialect} {text : String} {tokens : List Token}
    {roots : List Node} (read : Token.ofText dialect.tags text = .ok tokens)
    (built : Forest.ofTokens dialect.tags tokens = .ok ⟨roots, []⟩) (s : Session) :
    (parse dialect text).Quietly s roots := by
  unfold parse
  refine .read read (.bind (.debug _) fun t _ => .read built ?_)
  exact .bind (.pure ()) fun u _ => .bind (.debug _) fun v _ => .pure roots

theorem quietly_texts {roots : List Node} {pieces : List (List Char)}
    (h : List.Forall₂ Node.Shows roots pieces) (env : Env) (s : Session) :
    (nodes env roots).Quietly s (pieces.map fun cs => .text (String.ofList cs)) := by
  induction h generalizing s with
  | nil =>
    rw [nodes]
    exact .pure []
  | cons shows others ih =>
    obtain ⟨indentation, rfl⟩ := shows
    rw [nodes, node]
    exact .bind (.pure _) fun t _ => .bind (ih t) fun u _ => .pure _

theorem renderAll_texts (f : Fragments) (shown : Bool) (pieces : List (List Char)) :
    Residual.renderAll f shown (pieces.map fun cs => .text (String.ofList cs)) =
      String.ofList pieces.flatten := by
  induction pieces with
  | nil => rfl
  | cons cs pieces ih =>
    rw [List.map_cons, Residual.renderAll, ih, Residual.render, List.flatten_cons,
      String.ofList_append]

theorem outcome_of_quietly {settings : Settings} {path : Option String} {text : String}
    {s : Session} {rs : List Residual}
    (h : (contents settings text).Quietly (begun path s) rs) (shown : Bool) :
    ∃ t, (output settings shown path text).outcome s =
        (.ok (some (Residual.renderAll settings.dialect.fragments shown rs)), t) ∧
      t.scope = (about path s).scope ∧ t.warnings = s.warnings := by
  have inside : (framed s (contents settings text)).Quietly (about path s) rs := by
    unfold begun at h
    unfold framed
    split
    · rename_i empty
      rw [if_pos empty] at h
      exact h.withFrame
    · rename_i filled
      rw [if_neg filled] at h
      exact h
  obtain ⟨t, run, scope, warnings⟩ := inside
  refine ⟨t, ?_, scope, warnings⟩
  rw [Presentation.outcome_output, outcome_template, outcome_cancellable, run]
  rfl

theorem output_of_directiveFree {settings : Settings}
    (noText : ∀ tag ∈ settings.dialect.tags, tag.name ≠ "text") {text : String}
    (free : DirectiveFree (tagNames settings.dialect.tags) text.toList) (shown : Bool)
    (path : Option String) (s : Session) :
    ∃ t, (output settings shown path text).outcome s = (.ok (some text), t) ∧
      t.scope = (about path s).scope ∧ t.warnings = s.warnings := by
  obtain ⟨tokens, roots, pieces, read, built, shows, whole⟩ := exists_texts noText free
  have quiet : (contents settings text).Quietly (begun path s)
      (pieces.map fun cs => .text (String.ofList cs)) :=
    .bind (quietly_parse read built _) fun t _ => quietly_texts shows _ t
  have run := outcome_of_quietly quiet shown
  rw [renderAll_texts, whole, String.ofList_toList] at run
  exact run

theorem about_eq_self {path base : Option String} {t : Session}
    (h : t.scope.basePath = path.or base) : (about path t).scope = t.scope := by
  obtain ⟨⟨frames, current⟩, log⟩ := t
  change current = path.or base at h
  subst h
  cases path <;> rfl

/-- A text in which no tag of the dialect and no variable begins is unchanged by a transformation,
whatever the scope, of which nothing changes but the file that it is about; so is what a
transformation has given, if none begins in it. -/
theorem plain_text_is_unchanged {entry : String × Dialect}
    (builtin : entry ∈ Registry.builtin.entries) (extension : String) (files : FileTree)
    (shown : Bool) (path : Option String) :
    (∀ text s, DirectiveFree (tagNames entry.2.tags) text.toList →
      ∃ t, (output ⟨entry.2, extension, files⟩ shown path text).outcome s = (.ok (some text), t) ∧
        t.scope = (about path s).scope ∧ t.warnings = s.warnings) ∧
    (∀ text result s t,
      (output ⟨entry.2, extension, files⟩ shown path text).outcome s = (.ok (some result), t) →
      DirectiveFree (tagNames entry.2.tags) result.toList →
      ∃ u, (output ⟨entry.2, extension, files⟩ shown path result).outcome t =
          (.ok (some result), u) ∧
        u.scope = t.scope ∧ u.warnings = t.warnings) := by
  have noText : ∀ e ∈ Registry.builtin.entries, ∀ tag ∈ e.2.tags, tag.name ≠ "text" := by decide
  have unchanged (text : String) (s : Session)
      (free : DirectiveFree (tagNames entry.2.tags) text.toList) :=
    @output_of_directiveFree ⟨entry.2, extension, files⟩ (noText entry builtin) text free shown
      path s
  refine ⟨unchanged, fun text result s t first free => ?_⟩
  have base : t.scope.basePath = path.or s.scope.basePath := by
    have kept := (kept_template ⟨entry.2, extension, files⟩ path text s).basePath
    rw [Presentation.outcome_output] at first
    rw [← (Prod.mk.inj first).2]
    exact kept
  have second := unchanged result t free
  rw [about_eq_self base] at second
  exact second

def nearDirectives : String :=
  "\x7b% unknown %\x7d \x7b\x7b 1 + 2 \x7d\x7d 100% \x7b\x7b\x7b%-\x7d \x7b\x7b "

theorem near_directives_are_unchanged :
    ∃ t u, (output ⟨.php, ".liquid", ⟨[], [], []⟩⟩ false none nearDirectives).outcome
        ⟨⟨[[(.str "unknown", .str "x")]], none⟩, []⟩ = (.ok (some nearDirectives), t) ∧
      t.scope = ⟨[[(.str "unknown", .str "x")]], none⟩ ∧ t.warnings = [] ∧
      (output ⟨.php, ".liquid", ⟨[], [], []⟩⟩ false none nearDirectives).outcome t =
        (.ok (some nearDirectives), u) ∧ u.scope = t.scope ∧ u.warnings = [] := by
  have free : DirectiveFree (tagNames Dialect.php.tags) nearDirectives.toList := by decide +kernel
  have unchanged := @plain_text_is_unchanged ("php", .php)
    (List.mem_cons_of_mem _ List.mem_cons_self) ".liquid" ⟨[], [], []⟩ false none
  obtain ⟨t, first, scope, warnings⟩ :=
    unchanged.1 nearDirectives ⟨⟨[[(.str "unknown", .str "x")]], none⟩, []⟩ free
  obtain ⟨u, second, same, quiet⟩ := unchanged.2 nearDirectives nearDirectives _ t first free
  exact ⟨t, u, first, scope, warnings, second, same, quiet.trans warnings⟩

end Transform

end Stencil
