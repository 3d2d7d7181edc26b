import Stencil.Proofs.Assignments

set_option autoImplicit false

/-!
# The render command

A rendering loads the configuration, the variables and the template, transforms the template and
delivers the result. Nothing is printed or written before the result is complete, so whatever
fails on the way leaves no trace but its message.
-/

namespace Stencil

namespace FileTree

end FileTree

theorem Registry.exists_get {r : Registry} {name : String} (h : r.contains name = true) :
    ∃ dialect, r.get name = .ok dialect := by
  obtain ⟨entry, mem, same⟩ := List.any_eq_true.1 h
  obtain ⟨found, first⟩ := Option.isSome_iff_exists.1
    (List.find?_isSome.2 ⟨entry, mem, same⟩ : (r.entries.find? fun e => e.1 == name).isSome = true)
  unfold get
  rw [first]
  exact ⟨found.2, rfl⟩

theorem Schema.of_readField {entries : Mapping} {f : Field} {k : Key} {v : Value}
    (h : readField entries f = .ok (k, v)) :
    k = .str f.name ∧ ((∃ path w, f.shape.fit path w = .ok v) ∨ f.default? = some v) := by
  unfold readField at h
  split at h
  · obtain ⟨w, fitted, made⟩ := map_eq_ok_iff.1 h
    obtain ⟨key, rfl⟩ := Prod.mk.inj made
    exact ⟨key.symm, .inl ⟨_, _, fitted⟩⟩
  · split at h
    · rename_i default
      obtain ⟨key, rfl⟩ := Prod.mk.inj (Except.ok.inj h)
      exact ⟨key.symm, .inr default⟩
    · cases h

namespace Config

theorem contains_of_fit {path : List String} {v : Value} {name : String}
    (h : (Shape.oneOf (Registry.builtin.entries.map fun e => .str e.1)).fit path v =
      .ok (.str name)) : Registry.builtin.contains name = true := by
  cases v with
  | atom a =>
    rw [Shape.fit, Shape.fitAtom] at h
    · split at h
      · rename_i chosen
        obtain rfl : a = .str name := Value.atom.inj (Except.ok.inj h)
        obtain ⟨choice, mem, same⟩ := List.any_eq_true.1 chosen
        obtain ⟨entry, known, rfl⟩ := List.mem_map.1 mem
        have named : (name == entry.1) = true := same
        exact List.any_eq_true.2 ⟨entry, known, beq_iff_eq.2 (eq_of_beq named).symm⟩
      · exact nomatch h
    all_goals exact nofun
  | list items => exact nomatch h
  | pair a b => exact nomatch h
  | map entries => exact nomatch h
  | ordered entries => exact nomatch h
  | set members => exact nomatch h

theorem contains_of_readField {entries : Mapping} {f : Field} {name : String}
    (known : f ∈ schema.fields)
    (h : Schema.readField entries f = .ok (.str "strategy", .str name)) :
    Registry.builtin.contains name = true := by
  obtain ⟨named, given⟩ := Schema.of_readField h
  have first : f = ⟨"strategy", .oneOf (Registry.builtin.entries.map fun e => .str e.1),
      some (.str standard.dialect)⟩ := by
    simp only [schema, List.mem_cons, List.not_mem_nil, or_false] at known
    rcases known with rfl | rfl | rfl | rfl
    · rfl
    all_goals exact absurd (Key.str_inj.1 named) (by decide)
  subst first
  rcases given with ⟨path, v, fitted⟩ | default
  · exact contains_of_fit fitted
  · rw [← Atom.str.inj (Value.atom.inj (Option.some.inj default))]
    decide

theorem contains_ofFields {entries fields : Mapping}
    (h : (schema.fields.mapM (Schema.readField entries)).mapError schema.asCoercion = .ok fields) :
    Registry.builtin.contains (ofFields fields).dialect = true := by
  simp only [ofFields]
  split
  · rename_i name found
    cases made : schema.fields.mapM (Schema.readField entries) with
    | error f =>
      rw [made] at h
      cases h
    | ok read =>
      rw [made] at h
      obtain rfl := Except.ok.inj h
      obtain ⟨f, known, own⟩ := exists_of_mem_mapM made _ (Mapping.mem_of_lookup? found)
      exact contains_of_readField known own
  · decide

theorem contains_ofValue {v : Value} {config : Config} (h : ofValue v = .ok config) :
    Registry.builtin.contains config.dialect = true := by
  obtain ⟨fields, read, rfl⟩ := map_eq_ok_iff.1 h
  have taken {entries : Mapping} (read : schema.read (.map entries) = .ok fields) :
      Registry.builtin.contains (ofFields fields).dialect = true := by
    unfold Schema.read at read
    simp only at read
    split at read
    · exact contains_ofFields read
    · split at read
      · exact nomatch read
      · exact nomatch read
  cases v with
  | map entries => exact taken read
  | ordered entries => exact taken read
  | atom a => exact nomatch read
  | list items => exact nomatch read
  | pair a b => exact nomatch read
  | set members => exact nomatch read

theorem contains_load {t : FileTree} {named : Option Path} {start : Path} {s s' : Session}
    {config : Config} (h : (load t named start).outcome s = (.ok config, s')) :
    Registry.builtin.contains config.dialect = true := by
  obtain ⟨found, u, -, h⟩ := Eval.outcome_bind_eq_ok.1 h
  cases found with
  | none =>
    rw [← Except.ok.inj (Prod.mk.inj h).1]
    decide
  | some p =>
    obtain ⟨base, w, read, h⟩ := Eval.outcome_bind_eq_ok.1 h
    obtain ⟨accepted, -⟩ := Prod.mk.inj read
    rw [← Except.ok.inj (Prod.mk.inj h).1]
    obtain ⟨entries, -, accepted⟩ := exists_of_bind_eq_ok accepted
    obtain ⟨value, made, accepted⟩ := exists_of_bind_eq_ok accepted
    split at accepted
    · rw [← Except.ok.inj accepted]
      exact contains_ofValue made
    · exact nomatch accepted

end Config

namespace CommandLine

namespace RenderRequest

/-- The dialect that the command line names, if it does, is a known one. -/
def Registered (r : RenderRequest) : Prop :=
  ∀ name, r.dialect = some name → Registry.builtin.contains name = true

theorem Registered.set {r r' : RenderRequest} (h : r.Registered) {setting : RenderSetting}
    (given : r.set setting = .ok r') : r'.Registered := by
  cases setting with
  | help => exact nomatch given
  | dialect name =>
    simp only [RenderRequest.set] at given
    split at given
    · rename_i known
      obtain rfl := Except.ok.inj given
      rintro other ⟨⟩
      exact known
    · exact nomatch given
  | showComments | assign | variablesFile | config | output | debug =>
    obtain rfl := Except.ok.inj given
    exact h

end RenderRequest

/-- What each setting and each operand keeps, all words keep. -/
theorem Progress.of_foldlM {σ α : Type} {P : σ → Prop} {set : σ → α → Except Exit σ}
    {operand : σ → String → Except Exit σ} (hset : ∀ s a s', P s → set s a = .ok s' → P s')
    (hoperand : ∀ s w s', P s → operand s w = .ok s' → P s') {events : List (Event α)}
    {p p' : Progress σ} (start : P p.state)
    (read : events.foldlM (Progress.advance set operand) p = .ok p') : P p'.state := by
  induction events generalizing p with
  | nil =>
    obtain rfl := Except.ok.inj read
    exact start
  | cons event events ih =>
    rw [List.foldlM_cons] at read
    obtain ⟨q, first, others⟩ := exists_of_bind_eq_ok read
    refine ih ?_ others
    cases event with
    | setting a =>
      obtain ⟨s, given, rfl⟩ := map_eq_ok_iff.1 first
      exact hset _ a s start given
    | operand w =>
      obtain ⟨s, given, rfl⟩ := map_eq_ok_iff.1 first
      exact hoperand _ w s start given
    | stray =>
      obtain rfl := Except.ok.inj first
      exact start
    | misuse => exact nomatch first

theorem registered_readRender {words : List String} {r : RenderRequest}
    (h : readRender words = .ok r) : r.Registered := by
  obtain ⟨p, read, finished⟩ := exists_of_bind_eq_ok h
  have start : (RenderRequest.ofFile "").Registered := fun _ same => nomatch same
  have kept : p.state.Registered := by
    refine Progress.of_foldlM (fun s a s' registered => registered.set) ?_ start read
    intro s w s' registered given
    obtain rfl := Except.ok.inj given
    exact registered
  unfold Progress.finish at finished
  split at finished
  · rwa [← Except.ok.inj finished]
  · exact nomatch finished

theorem registered_ofWords {words : List String} {r : RenderRequest}
    (h : Command.ofWords words = .ok (.render r)) : r.Registered := by
  have named {name : String} {rest : List String} (h : Command.read name rest = .ok (.render r)) :
      r.Registered := by
    unfold Command.read at h
    split at h
    · obtain ⟨r', read, same⟩ := map_eq_ok_iff.1 h
      rw [← Command.render.inj same]
      exact registered_readRender read
    · obtain ⟨_, _, same⟩ := map_eq_ok_iff.1 h
      exact nomatch same
    · exact nomatch h
  have finished {stray : Bool} {name : String} {rest : List String}
      (h : Command.ofWords.finish stray name rest = .ok (.render r)) : r.Registered := by
    obtain ⟨command, read, h⟩ := exists_of_bind_eq_ok h
    split at h
    · exact nomatch h
    · obtain rfl := Except.ok.inj h
      exact named read
  have read {stray : Bool} {words : List String}
      (h : Command.ofWords.go stray words = .ok (.render r)) : r.Registered := by
    induction words generalizing stray with
    | nil => exact nomatch h
    | cons w rest ih =>
      rw [Command.ofWords.go] at h
      split at h
      · exact nomatch h
      · split at h
        · exact finished h
        · exact nomatch h
        · exact ih h
        · exact ih h
        · exact nomatch h
  unfold Command.ofWords at h
  split at h
  · exact nomatch h
  · exact read h

namespace RenderRequest

def loadConfig (t : FileTree) (r : RenderRequest) : Eval Config :=
  Config.load t ((nonempty? r.config).map Path.ofString) r.source.parent

def loadTemplate (t : FileTree) (source : Path) : Except Failure (String × Path) := do
  let contents ← t.readText source
  let path ← t.resolve source
  return (contents, path)

/-- All that a transform needs, and the session that it starts from. -/
structure Job where
  settings : Settings
  shown : Bool
  path : Path
  contents : String
  session : Session

def Job.outcome (j : Job) : Except Failure (Option String) × Session :=
  (Transform.output j.settings j.shown (some j.path.text) j.contents).outcome j.session

/-- The variables of a configuration stand in a frame, if there are any. -/
def opening (config : Config) (s : Session) : Except Failure Session :=
  if config.bindings.isEmpty then .ok s else (Frame.expandAll config.bindings).map s.push

/-- The job of a rendering whose configuration, variables and template have been loaded. -/
inductive Loads (t : FileTree) (r : RenderRequest) : Job → Prop
  | mk {config : Config} {s opened : Session} {dialect : Dialect} {contents : String} {path : Path}
      (configured : (r.configure t).outcome .empty = (.ok config, s))
      (known : Registry.builtin.get config.dialect = .ok dialect)
      (found : t.isFile r.source = true) (built : opening config s = .ok opened)
      (read : loadTemplate t r.source = .ok (contents, path)) :
    Loads t r ⟨⟨dialect, config.extension, t⟩, config.showComments, path, contents, opened⟩

/-- What is raised while the configuration, the variables or the template are loaded, while the
variables are put in a frame, or by the transform. -/
inductive Raises (t : FileTree) (r : RenderRequest) : Failure → Prop
  | config {f : Failure} {s : Session} (failed : (r.loadConfig t).outcome .empty = (.error f, s)) :
    Raises t r f
  | bindings {f : Failure} {config : Config} {s : Session}
      (loaded : (r.loadConfig t).outcome .empty = (.ok config, s))
      (failed : r.bindings t = .error f) : Raises t r f
  | missing {config : Config} {s : Session}
      (configured : (r.configure t).outcome .empty = (.ok config, s))
      (absent : t.isFile r.source = false) : Raises t r (.templateNotFound r.source.text)
  | frame {f : Failure} {config : Config} {s : Session}
      (configured : (r.configure t).outcome .empty = (.ok config, s))
      (found : t.isFile r.source = true) (failed : opening config s = .error f) : Raises t r f
  | template {f : Failure} {config : Config} {s opened : Session}
      (configured : (r.configure t).outcome .empty = (.ok config, s))
      (found : t.isFile r.source = true) (built : opening config s = .ok opened)
      (failed : loadTemplate t r.source = .error f) : Raises t r f
  | transform {f : Failure} {j : Job} {s : Session} (loaded : Loads t r j)
      (failed : j.outcome = (.error f, s)) : Raises t r f

/-- What the transform gives: a text, or nothing for a file that may only be used as a
component. -/
inductive Yields (t : FileTree) (r : RenderRequest) : Option String → Prop
  | mk {result : Option String} {j : Job} {s : Session} (loaded : Loads t r j)
      (done : j.outcome = (.ok result, s)) : Yields t r result

section Stages

variable {t : FileTree} {r : RenderRequest} {config : Config} {dialect : Dialect} {s : Session}

theorem opening_eq_error {f : Failure} (h : opening config s = .error f) :
    f = .tooManyDigits none := by
  unfold opening at h
  split at h
  · exact nomatch h
  · exact Frame.expandAll_eq_error (map_eq_error_iff.1 h)

theorem outcome_renderFile (source : Path)
    (known : Registry.builtin.get config.dialect = .ok dialect) :
    ((renderFile t source config).outcome s).1 =
      if t.isFile source then
        (opening config s).bind fun opened => (loadTemplate t source).bind fun (contents, path) =>
          (Job.outcome ⟨⟨dialect, config.extension, t⟩, config.showComments, path, contents,
            opened⟩).1
      else .error (.templateNotFound source.text) := by
  have loading (opened : Session) :
      ((Eval.ofExcept (t.readText source) >>= fun contents =>
        Eval.ofExcept (t.resolve source) >>= fun path =>
          Transform.output ⟨dialect, config.extension, t⟩ config.showComments (some path.text)
            contents).outcome opened).1 =
      (loadTemplate t source).bind fun (contents, path) =>
        (Job.outcome ⟨⟨dialect, config.extension, t⟩, config.showComments, path, contents,
          opened⟩).1 := by
    unfold loadTemplate
    cases t.readText source with
    | error f => rfl
    | ok contents => cases t.resolve source <;> rfl
  unfold renderFile opening
  rw [known]
  cases t.isFile source with
  | false => rfl
  | true =>
    cases config.bindings.isEmpty with
    | true => exact loading s
    | false =>
      cases Frame.expandAll config.bindings with
      | error f => rfl
      | ok frame => exact loading (s.push frame)

theorem exists_dialect (registered : r.Registered)
    (configured : (r.configure t).outcome .empty = (.ok config, s)) :
    ∃ dialect, Registry.builtin.get config.dialect = .ok dialect := by
  obtain ⟨base, u, loaded, h⟩ := Eval.outcome_bind_eq_ok.1 configured
  obtain ⟨own, v, -, h⟩ := Eval.outcome_bind_eq_ok.1 h
  rw [← Except.ok.inj (Prod.mk.inj h).1]
  refine Registry.exists_get ?_
  change Registry.builtin.contains (r.dialect.getD base.dialect) = true
  cases named : r.dialect with
  | some name => exact registered name named
  | none => exact Config.contains_load loaded

theorem configure_eq (t : FileTree) (r : RenderRequest) :
    r.configure t = r.loadConfig t >>= fun config =>
      Eval.ofExcept (r.bindings t) >>= fun bindings =>
        pure (config.override
          ⟨r.dialect, if r.showComments then some true else none, bindings⟩) := rfl

theorem outcome_of_yields {result : Option String} (h : Yields t r result) :
    ((r.render t).outcome .empty).1 = .ok result := by
  obtain ⟨⟨configured, known, found, built, read⟩, done⟩ := h
  unfold render
  rw [Eval.outcome_bind_ok configured, outcome_renderFile _ known, if_pos found, built, read]
  exact (Prod.mk.inj done).1

theorem outcome_of_raises (registered : r.Registered) {f : Failure} (h : Raises t r f) :
    ((r.render t).outcome .empty).1 = .error f := by
  cases h with
  | config failed =>
    unfold render
    rw [configure_eq, Eval.outcome_bind_error (Eval.outcome_bind_error failed _)]
  | @bindings f _ s loaded failed =>
    have unbound : (r.configure t).outcome .empty = (.error f, s) := by
      rw [configure_eq, Eval.outcome_bind_ok loaded, failed]
      rfl
    unfold render
    rw [Eval.outcome_bind_error unbound]
  | missing configured absent =>
    obtain ⟨dialect, known⟩ := exists_dialect registered configured
    unfold render
    rw [Eval.outcome_bind_ok configured, outcome_renderFile _ known, absent]
    rfl
  | frame configured found failed =>
    obtain ⟨dialect, known⟩ := exists_dialect registered configured
    unfold render
    rw [Eval.outcome_bind_ok configured, outcome_renderFile _ known, if_pos found, failed]
    rfl
  | template configured found built failed =>
    obtain ⟨dialect, known⟩ := exists_dialect registered configured
    unfold render
    rw [Eval.outcome_bind_ok configured, outcome_renderFile _ known, if_pos found, built, failed]
    rfl
  | transform loaded failed =>
    obtain ⟨configured, known, found, built, read⟩ := loaded
    unfold render
    rw [Eval.outcome_bind_ok configured, outcome_renderFile _ known, if_pos found, built, read]
    exact (Prod.mk.inj failed).1

theorem raises_or_yields_of_configure (registered : r.Registered)
    (configured : (r.configure t).outcome .empty = (.ok config, s)) :
    (∃ f, Raises t r f) ∨ ∃ result, Yields t r result := by
  cases found : t.isFile r.source with
  | false => exact .inl ⟨_, .missing configured found⟩
  | true =>
    cases built : opening config s with
    | error f => exact .inl ⟨f, .frame configured found built⟩
    | ok opened =>
      cases read : loadTemplate t r.source with
      | error f => exact .inl ⟨f, .template configured found built read⟩
      | ok template =>
        obtain ⟨dialect, known⟩ := exists_dialect registered configured
        have loads := Loads.mk configured known found built read
        cases done : Job.outcome ⟨⟨dialect, config.extension, t⟩, config.showComments, template.2,
            template.1, opened⟩ with
        | mk result v =>
          cases result with
          | error f => exact .inl ⟨f, .transform loads done⟩
          | ok result => exact .inr ⟨result, .mk loads done⟩

theorem raises_or_yields (registered : r.Registered) :
    (∃ f, Raises t r f) ∨ ∃ result, Yields t r result := by
  cases loaded : (r.loadConfig t).outcome .empty with
  | mk result s =>
    cases result with
    | error f => exact .inl ⟨f, .config loaded⟩
    | ok base =>
      cases bound : r.bindings t with
      | error f => exact .inl ⟨f, .bindings loaded bound⟩
      | ok bindings =>
        have configured : (r.configure t).outcome .empty = (.ok (base.override
            ⟨r.dialect, if r.showComments then some true else none, bindings⟩), s) := by
          rw [configure_eq, Eval.outcome_bind_ok loaded, bound]
          rfl
        exact raises_or_yields_of_configure registered configured

end Stages

end RenderRequest

/-- Nothing is printed, and no file is touched. -/
structure Report.Silent (t : FileTree) (report : Report) : Prop where
  output : report.output = ""
  files : report.files = t

namespace RenderRequest

variable {t : FileTree} {r : RenderRequest} {report : Report}

/-- A failure is reported or raised on, and a text is delivered, whatever the log holds. -/
theorem run_eq (t : FileTree) (r : RenderRequest) :
    ∃ log, r.run t =
      match ((r.render t).outcome .empty).1 with
      | .error f => RenderRequest.report t log f
      | .ok none => .ok ⟨0, "", log, none, t⟩
      | .ok (some text) =>
        match r.deliver t text log with
        | .error f => RenderRequest.report t log f
        | ok => ok := by
  unfold run
  rcases (r.render t).outcome .empty with ⟨f | _ | text, s⟩
  · exact ⟨s.log.reverse, rfl⟩
  · exact ⟨_, rfl⟩
  · exact ⟨s.log.reverse, rfl⟩

theorem run_eq_report {f : Failure} (failed : ((r.render t).outcome .empty).1 = .error f) :
    ∃ log, r.run t = RenderRequest.report t log f := by
  obtain ⟨log, run⟩ := run_eq t r
  rw [failed] at run
  exact ⟨log, run⟩

theorem run_eq_silent (done : ((r.render t).outcome .empty).1 = .ok none) :
    ∃ log, r.run t = .ok ⟨0, "", log, none, t⟩ := by
  obtain ⟨log, run⟩ := run_eq t r
  rw [done] at run
  exact ⟨log, run⟩

theorem run_eq_deliver {text : String} (done : ((r.render t).outcome .empty).1 = .ok (some text)) :
    ∃ log, r.run t =
      match r.deliver t text log with
      | .error f => RenderRequest.report t log f
      | ok => ok := by
  obtain ⟨log, run⟩ := run_eq t r
  rw [done] at run
  exact ⟨log, run⟩

theorem run_of_error {f : Failure} (failed : ((r.render t).outcome .empty).1 = .error f)
    (returned : r.run t = .ok report) :
    report.status = 2 ∧ report.Silent t ∧ f.reported = true := by
  obtain ⟨log, run⟩ := run_eq_report failed
  rw [returned] at run
  unfold RenderRequest.report at run
  split at run
  · rename_i reported
    obtain rfl := Except.ok.inj run
    exact ⟨rfl, ⟨rfl, rfl⟩, reported⟩
  · exact nomatch run

theorem deliver_none (absent : nonempty? r.output = none) (t : FileTree) (text : String)
    (log : List LogEntry) : r.deliver t text log = .ok ⟨0, text, log, none, t⟩ := by
  unfold deliver
  rw [absent]

end RenderRequest

section Example

end Example

end CommandLine

end Stencil
