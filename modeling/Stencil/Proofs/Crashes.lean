import Stencil.Proofs.Origins
import Stencil.Proofs.RenderCommand
import Stencil.Proofs.Reporting

set_option autoImplicit false

/-!
# When a rendering gives up

A transformation gives up, without anything to report, at points that can be told beforehand: where
a value is shown that no text stands for, where a value is compared that cannot be, and where a
component is looked for from a path that is no text. All else ends with an answer.
-/

namespace Stencil

namespace Compile

open Template

/-- A name whose value cannot be shown: no text stands for it, or it is a text that names a variable
of which that is true. -/
inductive Unshowable (scope : Scope) (name : String) : Prop
  | value {v : Value} (known : scope.lookup? name = some v) (textless : v.Textless)
  | inside {text : String} {done later : List (Lexeme × List Char)} {l : Lexeme × List Char}
      {before : List Residual} {leading trailing : Bool} {nested : List Char} {v : Value}
      (known : scope.lookup? name = some (.str text))
      (found : Lexeme.all [] text.toList = done ++ l :: later)
      (shown : (done.mapM fun l => echoText scope name l.1) = .ok before)
      (named : l.1 = .interpolation leading trailing nested) (other : String.ofList nested ≠ name)
      (bound : scope.lookup? (String.ofList nested) = some v) (textless : v.Textless)

theorem echoText_unreported {scope : Scope} {name : String} {l : Lexeme} {f : Failure}
    (h : echoText scope name l = .error f) (unreported : f.reported = false) :
    ∃ leading trailing nested v, l = .interpolation leading trailing nested ∧
      String.ofList nested ≠ name ∧ scope.lookup? (String.ofList nested) = some v ∧ v.Textless ∧
      f = .unprintable := by
  cases l with
  | text value => cases h
  | tag leading trailing kind parameters => cases h
  | interpolation leading trailing nested =>
    simp only [echoText] at h
    split at h
    · cases h
    · rename_i other
      split at h
      · rename_i v bound
        rw [map_eq_error_iff] at h
        obtain ⟨textless, rfl⟩ := Value.textless_iff.1 ⟨h, unreported⟩
        exact ⟨leading, trailing, nested, v, rfl, other, bound, textless, rfl⟩
      · cases h

theorem echoText_textless {scope : Scope} {name : String} {leading trailing : Bool}
    {nested : List Char} {v : Value} (other : String.ofList nested ≠ name)
    (bound : scope.lookup? (String.ofList nested) = some v) (textless : v.Textless) :
    echoText scope name (.interpolation leading trailing nested) = .error .unprintable := by
  simp only [echoText, if_neg other, bound]
  exact map_eq_error_iff.2 textless.stringify

theorem outcome_echo_other {parameters : Option String} {s : Session} {v : Value}
    (known : s.scope.lookup? (parameters.getD "") = some v) (other : ∀ text, v ≠ .str text) :
    ((echo parameters).outcome s).1 = v.stringify.map fun text => [.text text] := by
  unfold echo
  simp only [Eval.outcome_scope_bind, known]
  rw [Eval.outcome_bind, Eval.outcome_ofExcept]
  cases v.stringify with
  | ok text => rfl
  | error f => rfl

theorem outcome_echo_text {parameters : Option String} {s : Session} {text : String}
    (known : s.scope.lookup? (parameters.getD "") = some (.str text)) :
    ((echo parameters).outcome s).1 =
      (Lexeme.all [] text.toList).mapM fun l => echoText s.scope (parameters.getD "") l.1 := by
  unfold echo
  simp only [Eval.outcome_scope_bind, known]
  rfl

theorem fails_echo_unreported_iff {parameters : Option String} {s : Session} {f : Failure} :
    Eval.Fails f (echo parameters) s ∧ f.reported = false ↔
      Unshowable s.scope (parameters.getD "") ∧ f = .unprintable := by
  unfold Eval.Fails
  constructor
  · rintro ⟨failed, unreported⟩
    cases known : s.scope.lookup? (parameters.getD "") with
    | none =>
      simp only [echo, Eval.outcome_scope_bind, known] at failed
      exact nomatch failed
    | some v =>
      by_cases text : ∃ text, v = .str text
      · obtain ⟨text, rfl⟩ := text
        rw [outcome_echo_text known] at failed
        obtain ⟨done, l, later, before, found, shown, failed⟩ := exists_of_mapM_eq_error failed
        obtain ⟨leading, trailing, nested, v, named, other, bound, textless, rfl⟩ :=
          echoText_unreported failed unreported
        exact ⟨.inside known found shown named other bound textless, rfl⟩
      · rw [outcome_echo_other known fun w same => text ⟨w, same⟩, map_eq_error_iff] at failed
        obtain ⟨textless, rfl⟩ := Value.textless_iff.1 ⟨failed, unreported⟩
        exact ⟨.value known textless, rfl⟩
  · rintro ⟨unshowable, rfl⟩
    refine ⟨?_, rfl⟩
    cases unshowable with
    | @value v known textless =>
      have other (text : String) : v ≠ .str text := by
        rintro rfl
        exact nomatch textless.stringify
      rw [outcome_echo_other known other, map_eq_error_iff]
      exact textless.stringify
    | inside known found shown named other bound textless =>
      rw [outcome_echo_text known, found]
      refine mapM_eq_error shown ?_
      rw [named]
      exact echoText_textless other bound textless

/-- A branch whose condition compares a value that cannot be compared so. -/
structure Undecidable (scope : Scope) (n : Node) (f : Failure) : Prop where
  conditional : n.kind ≠ "else"
  compares : ∃ name comparison v,
    Condition.ofParameters n.parameters = .ok ⟨name, some comparison⟩ ∧
    scope.condition? name = some v ∧ v.Incomparable comparison f

theorem standing_unreported_iff {scope : Scope} {n : Node} {f : Failure} :
    n.standing? scope = .error f ∧ f.reported = false ↔ Undecidable scope n f := by
  unfold Node.standing?
  by_cases he : n.kind = "else"
  · rw [if_pos he]
    constructor
    · rintro ⟨failed, -⟩
      exact nomatch failed
    · rintro ⟨conditional, -⟩
      exact absurd he conditional
  · rw [if_neg he]
    have decided (c : Condition) (v : Value) (known : scope.condition? c.name = some v) :
        scope.standing? c = .error f ↔ v.fulfils c.comparison = .error f := by
      simp only [Scope.standing?, known]
      exact map_eq_error_iff
    constructor
    · rintro ⟨failed, unreported⟩
      cases read : Condition.ofParameters n.parameters with
      | error g =>
        rw [read] at failed
        obtain rfl := Except.error.inj failed
        exact ((Condition.failsReading_ofParameters _).reports.elim read unreported).elim
      | ok c =>
        rw [read] at failed
        change scope.standing? c = .error f at failed
        cases known : scope.condition? c.name with
        | none =>
          simp only [Scope.standing?, known] at failed
          exact nomatch failed
        | some v =>
          rw [decided c v known] at failed
          obtain ⟨comparison, compared, incomparable⟩ :=
            Value.fulfils_unreported_iff.1 ⟨failed, unreported⟩
          refine ⟨he, c.name, comparison, v, ?_, known, incomparable⟩
          rw [read, ← compared]
    · rintro ⟨-, name, comparison, v, read, known, incomparable⟩
      obtain ⟨failed, unreported⟩ := Value.fulfils_unreported_iff.2 ⟨comparison, rfl, incomparable⟩
      refine ⟨?_, unreported⟩
      rw [read]
      exact (decided ⟨name, some comparison⟩ v known).2 failed

theorem fails_loopItems {parameters : Option String} {s : Session} {f : Failure}
    (h : Eval.Fails f (loopItems parameters) s) :
    f = .directive (.invalidFor parameters) ∨
      ∃ collection type path, f = .notAnArray collection type path := by
  unfold loopItems at h
  split at h
  · exact .inl (Except.error.inj h).symm
  · rw [Eval.Fails, Eval.outcome_scope_bind] at h
    dsimp only at h
    split at h
    · cases h
    · exact .inr ⟨_, _, _, (Except.error.inj h).symm⟩

theorem reports_loopItems {parameters : Option String} {s : Session} {f : Failure}
    (h : Eval.Fails f (loopItems parameters) s) : f.reported = true := by
  rcases fails_loopItems h with rfl | ⟨collection, type, path, rfl⟩
  · rfl
  · rfl

theorem fails_metadata {parameters : Option String} {s : Session} {f : Failure}
    (h : Eval.Fails f (metadata parameters) s) : f = .cancelled ∨ f.OfReading := by
  rcases h.of_read with failed | ⟨data, read, -⟩
  · exact .inr (Meta.failsReading_ofParameters parameters f failed)
  · rw [Eval.Fails, outcome_metadata read] at h
    split at h
    · exact .inl (Except.error.inj h).symm
    · split at h
      · rename_i g reserved
        rw [← Except.error.inj h]
        exact .inr (Arguments.failsReading_checkReserved _ g reserved)
      · split at h
        · cases h
        · cases h

end Compile

namespace Transform

open Template Compile

/-- The file that components are looked for from is no text. -/
structure Unlocatable (scope : Scope) (parameters : Option String) : Prop where
  called : ∃ call, RenderCall.ofParameters parameters = .ok call ∧
    Arguments.checkReserved call.arguments.bindings = .ok ()
  current : ∃ v, scope.currentPath = some v ∧ ∀ text, v ≠ .str text

theorem outcome_noteDiscarded (arguments : Arguments) (s : Session) :
    ∃ t, (noteDiscarded arguments).outcome s = (.ok (), t) ∧ t.scope = s.scope := by
  unfold noteDiscarded
  split
  · exact ⟨_, rfl, rfl⟩
  · exact ⟨s, rfl, rfl⟩

theorem fails_currentFile_iff {s : Session} {f : Failure} :
    Eval.Fails f currentFile s ↔
      (∃ v, s.scope.currentPath = some v ∧ ∀ text, v ≠ .str text) ∧ f = .notAPath := by
  rw [Eval.Fails, outcome_currentFile]
  constructor
  · intro h
    split at h
    · cases h
    · cases h
    · rename_i v other current
      refine ⟨⟨v, current, ?_⟩, (Except.error.inj h).symm⟩
      rintro text rfl
      exact other text rfl
  · rintro ⟨⟨v, current, other⟩, rfl⟩
    simp only [current]

theorem fails_component {settings : Settings} {parameters : Option String} {indentation : Nat}
    {s : Session} {f : Failure}
    (h : Eval.Fails f (component settings parameters indentation) s) :
    f.OfReading ∨ Unlocatable s.scope parameters ∧ f = .notAPath ∨
      RenderCall.ofParameters parameters = .error .loneSurrogate ∧ f = .loneSurrogate := by
  rcases h.of_read with failed | ⟨call, read, h⟩
  · rcases RenderCall.failsOnly_ofParameters parameters f failed with reading | rfl
    · exact .inl reading
    · exact .inr (.inr ⟨failed, rfl⟩)
  obtain ⟨t, noted, same⟩ := outcome_noteDiscarded call.arguments s
  rw [Eval.Fails, Eval.outcome_bind_ok noted] at h
  rcases Eval.Fails.of_read h with failed | ⟨_, free, h⟩
  · exact .inl (Arguments.failsReading_checkReserved _ f failed)
  rcases h.of_bind with failed | ⟨current, u, -, h⟩
  · obtain ⟨unlocatable, rfl⟩ := fails_currentFile_iff.1 failed
    rw [same] at unlocatable
    exact .inr (.inl ⟨⟨⟨call, read, free⟩, unlocatable⟩, rfl⟩)
  · rcases h.of_read with failed | ⟨found, load, h⟩
    · exact .inl (Component.failsReading_load _ _ _ _ _ f failed)
    · cases h

theorem fails_component_unreported_iff {settings : Settings} {parameters : Option String}
    {indentation : Nat} {s : Session} {f : Failure} :
    Eval.Fails f (component settings parameters indentation) s ∧ f.reported = false ↔
      Unlocatable s.scope parameters ∧ f = .notAPath ∨
        RenderCall.ofParameters parameters = .error .loneSurrogate ∧ f = .loneSurrogate := by
  constructor
  · rintro ⟨h, unreported⟩
    rcases fails_component h with reading | gaveUp
    · rw [reading.reported] at unreported
      cases unreported
    · exact gaveUp
  · rintro (⟨⟨⟨call, read, free⟩, unlocatable⟩, rfl⟩ | ⟨halved, rfl⟩)
    · refine ⟨?_, rfl⟩
      obtain ⟨t, noted, same⟩ := outcome_noteDiscarded call.arguments s
      rw [← same] at unlocatable
      exact .read read (.second noted
        (.read free (.first (fails_currentFile_iff.2 ⟨unlocatable, rfl⟩) _)))
    · exact ⟨Eval.Fails.unread halved _, rfl⟩

/-- A point at which a transformation gives up. -/
inductive GivesUp (settings : Settings) (v : Visit) : Failure → Prop
  | shown {n : Node} (meets : v.Meets settings n .echo)
      (unshowable : Unshowable v.session.scope (n.parameters.getD "")) :
    GivesUp settings v .unprintable
  | compared {n : Node} {f : Failure} (asked : branch? v.part = some n)
      (undecidable : Undecidable v.session.scope n f) : GivesUp settings v f
  | located {n : Node} (meets : v.Meets settings n .render)
      (unlocatable : Unlocatable v.session.scope n.parameters) : GivesUp settings v .notAPath
  | nested {n : Node} {found : Component × Frame} {t : Session}
      (meets : v.Meets settings n .render) (full : v.depth = 0)
      (load : (component settings n.parameters n.indentation).outcome v.session = (.ok found, t)) :
    GivesUp settings v .nestedTooDeeply

/-- A render call whose variables escape half of a pair of surrogates. -/
def Visit.Halved (settings : Settings) (v : Visit) : Prop :=
  ∃ n, v.Meets settings n .render ∧ RenderCall.ofParameters n.parameters = .error .loneSurrogate

section Points

variable {settings : Settings} {f : Failure} {v : Visit}

theorem givesUp_of_raises (coherent : settings.dialect.Coherent) (h : Raises settings f v)
    (unreported : f.reported = false) (uncancelled : f ≠ .cancelled) :
    GivesUp settings v f ∨ v.Halved settings ∧ f = .loneSurrogate := by
  cases h with
  | argument part own failed =>
    exact ((failsReading_argument _ _).reports.elim failed unreported).elim
  | unknown part foreign undirected failed =>
    rw [failed] at unreported
    cases unreported
  | echo meets failed =>
    obtain ⟨unshowable, rfl⟩ := fails_echo_unreported_iff.1 ⟨failed, unreported⟩
    exact .inl (.shown meets unshowable)
  | metadata meets failed =>
    rcases fails_metadata failed with cancelled | reading
    · exact absurd cancelled uncancelled
    · rw [reading.reported] at unreported
      cases unreported
  | ifNot meets failed => exact ((failsReading_unlessName _).reports.elim failed unreported).elim
  | branch asked failed =>
    exact .inl (.compared asked (standing_unreported_iff.1 ⟨failed, unreported⟩))
  | items meets failed =>
    rw [reports_loopItems failed] at unreported
    cases unreported
  | item meets items failed =>
    obtain rfl := Frame.expand_eq_error failed
    cases unreported
  | component meets failed =>
    rcases fails_component_unreported_iff.1 ⟨failed, unreported⟩ with
      ⟨unlocatable, rfl⟩ | ⟨halved, rfl⟩
    · exact .inl (.located meets unlocatable)
    · exact .inr ⟨⟨_, meets, halved⟩, rfl⟩
  | nested meets full load failed =>
    subst failed
    exact .inl (.nested meets full load)
  | @parse n depth found frame t meets room load failed =>
    obtain ⟨-, t, -, -, rfl⟩ := fails_parse coherent failed
    cases unreported

theorem GivesUp.cause (h : GivesUp settings v f) :
    f ∈ [.unprintable, .tooLarge, .notAPath, .nestedTooDeeply] := by
  cases h with
  | shown => decide
  | compared asked undecidable =>
    obtain ⟨-, name, comparison, value, -, -, incomparable⟩ := undecidable
    cases incomparable with
    | tooLarge => decide
    | textless => decide
  | located => decide
  | nested => decide

theorem GivesUp.unreported (h : GivesUp settings v f) : f.reported = false := by
  have causes : ∀ f ∈ [Failure.unprintable, .tooLarge, .notAPath, .nestedTooDeeply],
      f.reported = false := by decide
  exact causes f h.cause

theorem GivesUp.uncancelled (h : GivesUp settings v f) : f ≠ .cancelled := by
  rintro rfl
  exact absurd h.cause (by decide)

theorem GivesUp.fails (h : GivesUp settings v f) : v.Fails settings f := by
  obtain ⟨depth, file, top, loops, part, session⟩ := v
  cases h with
  | shown meets unshowable =>
    obtain rfl := meets.part
    rw [Visit.Fails, Part.Fails, node_plainly meets.shared meets.directive]
    exact (fails_echo_unreported_iff.2 ⟨unshowable, rfl⟩).1
  | @compared n f asked undecidable =>
    have failed := (standing_unreported_iff.2 undecidable).1
    cases part with
    | chain m =>
      obtain rfl := Option.some.inj asked
      rw [Visit.Fails, Part.Fails, Eval.Fails, outcome_chain]
      exact Eval.Fails.unread failed _
    | branches m =>
      rw [Visit.Fails, Part.Fails, Eval.Fails, outcome_branches _ asked]
      exact Eval.Fails.unread failed _
    | node | nodes | following => cases asked
  | located meets unlocatable =>
    obtain rfl := meets.part
    rw [Visit.Fails, Part.Fails, node_plainly meets.shared meets.directive]
    exact .first (fails_component_unreported_iff.2 (.inl ⟨unlocatable, rfl⟩)).1 _
  | nested meets full load =>
    obtain rfl := meets.part
    obtain rfl : depth = 0 := full
    rw [Visit.Fails, Part.Fails, node_plainly meets.shared meets.directive]
    exact .second load rfl

theorem Visit.Halved.fails (h : v.Halved settings) : v.Fails settings .loneSurrogate := by
  obtain ⟨n, meets, halved⟩ := h
  unfold Visit.Fails
  rw [meets.part, Part.Fails, node_plainly meets.shared meets.directive]
  exact .first (fails_component_unreported_iff.2 (.inr ⟨halved, rfl⟩)).1 _

end Points

theorem fails_cancellable_iff {α : Type} {path : Option String} {act : Eval α} {s : Session}
    {f : Failure} :
    Eval.Fails f (cancellable path act) s ↔ Eval.Fails f act s ∧ f ≠ .cancelled := by
  unfold Eval.Fails
  rw [outcome_cancellable]
  rcases act.outcome s with ⟨g | a, t⟩
  · by_cases cancelled : g = .cancelled
    · subst cancelled
      constructor
      · exact nofun
      · rintro ⟨same, uncancelled⟩
        exact absurd (Except.error.inj same).symm uncancelled
    · split
      · rename_i done
        exact nomatch done
      · rename_i same
        exact absurd (Except.error.inj (Prod.mk.inj same).1) cancelled
      · rename_i g' t' _ same
        obtain ⟨same, -⟩ := Prod.mk.inj same
        obtain rfl := Except.error.inj same
        constructor
        · intro h
          obtain rfl := Except.error.inj h
          exact ⟨rfl, cancelled⟩
        · rintro ⟨h, -⟩
          exact congrArg Except.error (Except.error.inj h)
  · constructor
    · exact nofun
    · rintro ⟨done, -⟩
      exact nomatch done

theorem fails_output_iff {settings : Settings} {shown : Bool} {path : Option String} {text : String}
    {s : Session} {f : Failure} :
    Eval.Fails f (output settings shown path text) s ↔
      Eval.Fails f (contents settings text) (begun path s) ∧ f ≠ .cancelled := by
  have whole : Eval.Fails f (output settings shown path text) s ↔
      Eval.Fails f (template settings path text) s :=
    ⟨fun h => Eval.Fails.of_bind_pure h, fun h => h.first _⟩
  rw [whole, Eval.Fails, outcome_template]
  change Eval.Fails f (cancellable path _) _ ↔ _
  rw [fails_cancellable_iff, Eval.Fails, outcome_framed]
  rfl

/-- A transformation ends with a failure that is not reported exactly if it comes to a point at
which it gives up, or to a call that escapes half of a pair of surrogates. -/
theorem output_unreported_iff {settings : Settings} (coherent : settings.dialect.Coherent)
    (shown : Bool) {path : Option String} {text : String} {s : Session} {f : Failure} :
    Eval.Fails f (output settings shown path text) s ∧ f.reported = false ↔
      ∃ v, Visited settings path text s v ∧
        (GivesUp settings v f ∨ v.Halved settings ∧ f = .loneSurrogate) := by
  rw [fails_output_iff]
  constructor
  · rintro ⟨⟨failed, uncancelled⟩, unreported⟩
    rcases fails_contents coherent failed with unread | ⟨v, visited, raises⟩
    · obtain ⟨-, t, -, -, rfl⟩ := fails_parse coherent unread
      exact nomatch unreported
    · exact ⟨v, visited, givesUp_of_raises coherent raises unreported uncancelled⟩
  · rintro ⟨v, visited, givesUp | ⟨halved, rfl⟩⟩
    · exact ⟨⟨visited.fails givesUp.fails, givesUp.uncancelled⟩, givesUp.unreported⟩
    · exact ⟨⟨visited.fails halved.fails, nofun⟩, rfl⟩

end Transform

namespace CommandLine

open Transform

namespace RenderRequest

variable {t : FileTree} {r : RenderRequest}

theorem reports_loadTemplate {source : Path} (found : t.isFile source = true) :
    Reports (loadTemplate t source) :=
  .bind (FileTree.failsReading_readText found).reports fun _ _ =>
    .bind (t.failsReading_resolve source).reports fun _ _ => .ok _

theorem reports_bindings (accepted : ∀ file, nonempty? r.variablesFile = some file →
    ∃ m, Variables.load t (Path.ofString file) = .ok m) : Reports (r.bindings t) := by
  have assigned : Reports (Variables.ofAssignments r.assignments) := by
    refine .bind (.mapM fun item _ => ?_) fun bindings _ => .ok _
    unfold Variables.assignment
    simp only
    split
    · exact .error rfl
    · split
      · exact .error rfl
      · exact .ok _
  unfold bindings
  simp only
  split
  · rename_i file named
    obtain ⟨m, loaded⟩ := accepted file named
    rw [loaded]
    exact .bind (.ok m) fun fromFile _ => .bind assigned fun own _ => .ok _
  · exact .bind (.ok []) fun fromFile _ => .bind assigned fun own _ => .ok _

/-- The command ends with the status `0` or `2`. -/
def Answers (t : FileTree) (r : RenderRequest) : Prop :=
  ∃ report, (Command.render r).run t = .ok report ∧ (report.status = 0 ∨ report.status = 2)

theorem answers_of_yields (printed : nonempty? r.output = none) {result : Option String}
    (h : Yields t r result) : r.Answers t := by
  have done := outcome_of_yields h
  cases result with
  | none =>
    obtain ⟨log, run⟩ := run_eq_silent done
    exact ⟨_, run, .inl rfl⟩
  | some text =>
    obtain ⟨log, run⟩ := run_eq_deliver done
    rw [deliver_none printed] at run
    exact ⟨_, run, .inl rfl⟩

theorem answers_iff_of_raises (registered : r.Registered) {f : Failure} (h : Raises t r f) :
    r.Answers t ↔ f.reported = true := by
  obtain ⟨log, run⟩ := run_eq_report (outcome_of_raises registered h)
  constructor
  · rintro ⟨report, returned, -⟩
    exact (run_of_error (outcome_of_raises registered h) returned).2.2
  · intro reported
    rw [RenderRequest.report, if_pos reported] at run
    exact ⟨_, run, .inr rfl⟩

theorem Loads.coherent {j : Job} (h : r.Loads t j) : j.settings.dialect.Coherent := by
  obtain ⟨-, known, -, -, -⟩ := h
  exact Registry.coherent_builtin known

/-- A command that answers has come to no point at which it would not. -/
theorem Answers.not_unreported (answers : r.Answers t) (registered : r.Registered) {j : Job}
    (loaded : r.Loads t j) {v : Visit} {f : Failure}
    (visited : Visited j.settings (some j.path.text) j.contents j.session v) :
    ¬ (GivesUp j.settings v f ∨ v.Halved j.settings ∧ f = .loneSurrogate) := by
  intro ends
  obtain ⟨failed, unreported⟩ :=
    (output_unreported_iff loaded.coherent j.shown).2 ⟨v, visited, ends⟩
  obtain ⟨u, ended⟩ := failed.outcome
  rw [answers_iff_of_raises registered (.transform loaded ended)] at answers
  exact nomatch unreported.symm.trans answers

end RenderRequest

/-- The render command ends with an answer exactly if its transformation comes to no point at which
it gives up. Files and render calls that escape half of a pair of surrogates are left out. -/
theorem render_answers_unless_given_up (t : FileTree) (words : List String) (r : RenderRequest)
    (config : Config) (s : Session) (asked : Command.ofWords words = .ok (.render r))
    (printed : nonempty? r.output = none)
    (configured : (r.loadConfig t).outcome .empty = (.ok config, s))
    (accepted : ∀ file, nonempty? r.variablesFile = some file →
      ∃ m, Variables.load t (Path.ofString file) = .ok m)
    (whole : ∀ j v, r.Loads t j →
      Visited j.settings (some j.path.text) j.contents j.session v → ¬ v.Halved j.settings) :
    r.Answers t ↔ ∀ j v f, r.Loads t j →
      Visited j.settings (some j.path.text) j.contents j.session v → ¬ GivesUp j.settings v f := by
  have registered := registered_ofWords asked
  constructor
  · intro answers j v f loaded visited givesUp
    exact answers.not_unreported registered loaded visited (.inl givesUp)
  · intro never
    rcases RenderRequest.raises_or_yields registered (t := t) with ⟨f, raised⟩ | ⟨result, yields⟩
    · rw [RenderRequest.answers_iff_of_raises registered raised]
      cases raised with
      | config failed => exact nomatch configured.symm.trans failed
      | bindings loaded failed => exact RenderRequest.reports_bindings accepted f failed
      | missing => rfl
      | frame configured found failed =>
        rw [RenderRequest.opening_eq_error failed]
        rfl
      | template configured found built failed =>
        exact RenderRequest.reports_loadTemplate found _ failed
      | @transform f j u loaded failed =>
        cases reported : f.reported with
        | true => rfl
        | false =>
          have raised : j.outcome.1 = .error f := congrArg Prod.fst failed
          obtain ⟨v, visited, givesUp | ⟨halved, -⟩⟩ :=
            (output_unreported_iff loaded.coherent j.shown).1 ⟨raised, reported⟩
          · exact absurd givesUp (never j v _ loaded visited)
          · exact absurd halved (whole j v loaded visited)
    · exact RenderRequest.answers_of_yields printed yields

section Example

def pathSite (template : String) : FileTree where
  files := [(["t.liquid"], template.toUTF8.toList), (["c.liquid"], "x".toUTF8.toList),
    (["v.json"], "\x7b\"path\": 1\x7d".toUTF8.toList)]
  directories := []
  workingDirectory := []

def pathRequest : RenderRequest :=
  { RenderRequest.ofFile "t.liquid" with variablesFile := some "v.json" }

def pathBindings : Mapping := [(.str "path", .int 1)]

theorem asked_pathRequest : Command.ofWords ["render", "t.liquid", "--vars-file", "v.json"] =
    .ok (.render pathRequest) := by decide +kernel

variable {template : String}

theorem loadConfig_pathSite : (pathRequest.loadConfig (pathSite template)).outcome .empty =
    (.ok .standard, Session.empty.record .debug "No liquidish.yaml found, using defaults") := by
  change (Config.load (pathSite template) none pathRequest.source.parent).outcome .empty = _
  unfold pathSite
  generalize template.toUTF8.toList = bytes
  cbv

theorem load_pathSite :
    Variables.load (pathSite template) (Path.ofString "v.json") = .ok pathBindings := by
  have isJson : DataFile.isJson (Path.ofString "v.json") = true := by decide +kernel
  have read : Json.read? "\x7b\"path\": 1\x7d" = some (.map pathBindings) := by cbv
  have held : (pathSite template).isFile (Path.ofString "v.json") = true ∧
      (pathSite template).readText (Path.ofString "v.json") = .ok "\x7b\"path\": 1\x7d" := by
    unfold pathSite
    generalize template.toUTF8.toList = bytes
    constructor
    · cbv
    · cbv
  unfold Variables.load DataFile.readJson
  rw [held.1, held.2, isJson]
  simp only [read]
  rfl

def pathJob (template : String) : RenderRequest.Job where
  settings := ⟨.ispconfig, ".liquid", pathSite template⟩
  shown := false
  path := ⟨"/", ["t.liquid"]⟩
  contents := template
  session :=
    (Session.empty.record .debug "No liquidish.yaml found, using defaults").push pathBindings

theorem loads_pathSite
    (text : (pathSite template).readText (Path.ofString "t.liquid") = .ok template) :
    pathRequest.Loads (pathSite template) (pathJob template) := by
  have bound : pathRequest.bindings (pathSite template) = .ok pathBindings := by
    rw [RenderRequest.bindings_eq]
    change (Variables.load (pathSite template) (Path.ofString "v.json") >>= _) = _
    rw [load_pathSite]
    rfl
  have configured : (pathRequest.configure (pathSite template)).outcome .empty =
      (.ok { Config.standard with bindings := pathBindings },
        Session.empty.record .debug "No liquidish.yaml found, using defaults") := by
    rw [RenderRequest.configure_eq, Eval.outcome_bind_ok loadConfig_pathSite, bound]
    rfl
  have isFile : (pathSite template).isFile pathRequest.source = true := by
    unfold pathSite
    generalize template.toUTF8.toList = bytes
    cbv
  have loaded : RenderRequest.loadTemplate (pathSite template) pathRequest.source =
      .ok (template, ⟨"/", ["t.liquid"]⟩) := by
    have text : (pathSite template).readText pathRequest.source = .ok template := text
    have resolved : (pathSite template).resolve pathRequest.source = .ok ⟨"/", ["t.liquid"]⟩ := rfl
    unfold RenderRequest.loadTemplate
    rw [text, resolved]
    rfl
  exact .mk configured rfl isFile rfl loaded

theorem letter_is_answered :
    pathRequest.Answers (pathSite "x") ∧
      ∀ v f, Visited (pathJob "x").settings (some "/t.liquid") "x" (pathJob "x").session v →
        ¬ GivesUp (pathJob "x").settings v f := by
  have text : (pathSite "x").readText (Path.ofString "t.liquid") = .ok "x" := by cbv
  have loaded := loads_pathSite text
  have noText : ∀ tag ∈ Dialect.ispconfig.tags, tag.name ≠ "text" := by decide
  have free : Template.DirectiveFree (Template.tagNames Dialect.ispconfig.tags) "x".toList := by
    decide +kernel
  obtain ⟨u, done, -, -⟩ := @output_of_directiveFree (pathJob "x").settings noText "x" free false
    (some "/t.liquid") (pathJob "x").session
  have answers : pathRequest.Answers (pathSite "x") :=
    RenderRequest.answers_of_yields rfl (.mk loaded done)
  refine ⟨answers, fun v f visited => ?_⟩
  have accepted (file : String) (named : nonempty? pathRequest.variablesFile = some file) :
      ∃ m, Variables.load (pathSite "x") (Path.ofString file) = .ok m := by
    obtain rfl : "v.json" = file := Option.some.inj named
    exact ⟨_, load_pathSite⟩
  have whole (j : RenderRequest.Job) (v : Visit) (loaded : pathRequest.Loads (pathSite "x") j)
      (visited : Visited j.settings (some j.path.text) j.contents j.session v) :
      ¬ v.Halved j.settings := fun halved =>
    answers.not_unreported (registered_ofWords asked_pathRequest) loaded visited
      (.inr ⟨halved, rfl⟩)
  exact (render_answers_unless_given_up _ _ _ _ _ asked_pathRequest rfl loadConfig_pathSite
    accepted whole).1 answers _ v f loaded visited

/-- A number under the name `path` is taken for the file that components are named from. -/
theorem number_as_path_gives_up :
    Command.ofWords ["render", "t.liquid", "--vars-file", "v.json"] = .ok (.render pathRequest) ∧
      nonempty? pathRequest.output = none ∧
      (∃ config s, (pathRequest.loadConfig (pathSite "\x7b% render 'c' %\x7d")).outcome .empty =
        (.ok config, s)) ∧
      Variables.load (pathSite "\x7b% render 'c' %\x7d") (Path.ofString "v.json") =
        .ok pathBindings ∧
      ¬ pathRequest.Answers (pathSite "\x7b% render 'c' %\x7d") := by
  have text : (pathSite "\x7b% render 'c' %\x7d").readText (Path.ofString "t.liquid") =
      .ok "\x7b% render 'c' %\x7d" := by cbv
  have failed : (pathJob "\x7b% render 'c' %\x7d").outcome.1 = .error .notAPath := by cbv
  refine ⟨asked_pathRequest, rfl, ⟨_, _, loadConfig_pathSite⟩, load_pathSite, ?_⟩
  rw [RenderRequest.answers_iff_of_raises (registered_ofWords asked_pathRequest)
    (.transform (loads_pathSite text) (Prod.ext failed rfl))]
  exact Bool.false_ne_true

end Example

end CommandLine

end Stencil
