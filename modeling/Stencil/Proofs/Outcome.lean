import Stencil.Session

set_option autoImplicit false

/-!
# Outcomes

What a computation does to a session, read off its parts: one equation for each primitive, and for
a sequence of two computations the cases that its outcome can have come from.
-/

namespace Stencil

theorem exists_of_bind_eq_ok {ε α β : Type} {x : Except ε α} {f : α → Except ε β} {b : β}
    (h : x >>= f = .ok b) : ∃ a, x = .ok a ∧ f a = .ok b := by
  cases x with
  | error e => exact nomatch h
  | ok a => exact ⟨a, rfl, h⟩

theorem map_eq_ok_iff {ε α β : Type} {f : α → β} {x : Except ε α} {b : β} :
    x.map f = .ok b ↔ ∃ a, x = .ok a ∧ f a = b := by
  constructor
  · intro h
    cases x with
    | error e => exact nomatch h
    | ok a => exact ⟨a, rfl, Except.ok.inj h⟩
  · rintro ⟨a, rfl, rfl⟩
    rfl

theorem map_eq_error_iff {ε α β : Type} {f : α → β} {x : Except ε α} {e : ε} :
    x.map f = .error e ↔ x = .error e := by
  cases x with
  | error e' =>
    constructor
    · exact fun h => congrArg Except.error (Except.error.inj h)
    · exact fun h => congrArg Except.error (Except.error.inj h)
  | ok a => exact ⟨nofun, nofun⟩

theorem exists_of_mem_mapM {ε α β : Type} {f : α → Except ε β} {as : List α} {bs : List β}
    (h : as.mapM f = .ok bs) : ∀ b ∈ bs, ∃ a ∈ as, f a = .ok b := by
  induction as generalizing bs with
  | nil =>
    rw [← Except.ok.inj h]
    exact nofun
  | cons a as ih =>
    rw [List.mapM_cons] at h
    obtain ⟨b, first, h⟩ := exists_of_bind_eq_ok h
    obtain ⟨others, later, h⟩ := exists_of_bind_eq_ok h
    rw [← Except.ok.inj h]
    refine List.forall_mem_cons.2 ⟨⟨a, List.mem_cons_self, first⟩, fun c hc => ?_⟩
    obtain ⟨a', mem, read⟩ := ih later c hc
    exact ⟨a', List.mem_cons_of_mem _ mem, read⟩

theorem exists_of_mapM_eq_error {ε α β : Type} {g : α → Except ε β} {as : List α} {e : ε}
    (h : as.mapM g = .error e) :
    ∃ done a later bs, as = done ++ a :: later ∧ done.mapM g = .ok bs ∧ g a = .error e := by
  induction as with
  | nil => exact nomatch h
  | cons a as ih =>
    rw [List.mapM_cons] at h
    cases first : g a with
    | error e' =>
      rw [first] at h
      obtain rfl := Except.error.inj h
      exact ⟨[], a, as, [], rfl, rfl, first⟩
    | ok b =>
      cases others : as.mapM g with
      | ok bs =>
        rw [first, others] at h
        exact nomatch h
      | error e' =>
        rw [first, others] at h
        obtain rfl := Except.error.inj h
        obtain ⟨done, c, later, bs, rfl, before, failed⟩ := ih others
        refine ⟨a :: done, c, later, b :: bs, rfl, ?_, failed⟩
        rw [List.mapM_cons, first, before]
        rfl

theorem mapM_eq_error {ε α β : Type} {g : α → Except ε β} {done later : List α} {a : α}
    {bs : List β} {e : ε} (before : done.mapM g = .ok bs) (failed : g a = .error e) :
    (done ++ a :: later).mapM g = .error e := by
  rw [List.mapM_append, before, List.mapM_cons, failed]
  rfl

namespace Eval

variable {α β : Type}

@[simp]
theorem outcome_pure (a : α) (s : Session) : (pure a : Eval α).outcome s = (.ok a, s) := rfl

@[simp]
theorem outcome_throw (f : Failure) (s : Session) :
    (throw f : Eval α).outcome s = (.error f, s) := rfl

@[simp]
theorem outcome_ofExcept (e : Except Failure α) (s : Session) :
    (ofExcept e).outcome s = (e, s) := rfl

theorem ofExcept_ok (a : α) : ofExcept (.ok a) = pure a := rfl

@[simp]
theorem outcome_scope (s : Session) : scope.outcome s = (.ok s.scope, s) := rfl

@[simp]
theorem outcome_record (level : Level) (message : String) (s : Session) :
    (record level message).outcome s = (.ok (), s.record level message) := rfl

@[simp]
theorem outcome_modify (f : Session → Session) (s : Session) :
    (modify f : Eval PUnit).outcome s = (.ok (), f s) := rfl

theorem outcome_withFrame (frame : Frame) (act : Eval α) (s : Session) :
    (withFrame frame act).outcome s =
      ((act.outcome (s.push frame)).1,
        { (act.outcome (s.push frame)).2 with
          scope := (act.outcome (s.push frame)).2.scope.truncate s.scope.depth }) := rfl

theorem outcome_bind (x : Eval α) (f : α → Eval β) (s : Session) :
    (x >>= f).outcome s =
      match x.outcome s with
      | (.ok a, s') => (f a).outcome s'
      | (.error e, s') => (.error e, s') := by
  unfold outcome
  rw [ExceptT.run_bind, StateT.run_bind]
  change (StateT.run _ (x.run.run s).2 : Id _) = _
  rcases x.run.run s with ⟨_ | _, _⟩ <;> rfl

theorem outcome_tryCatch (x : Eval α) (handle : Failure → Eval α) (s : Session) :
    (tryCatch x handle).outcome s =
      match x.outcome s with
      | (.ok a, s') => (.ok a, s')
      | (.error e, s') => (handle e).outcome s' := by
  unfold outcome
  rw [ExceptT.run_tryCatch, StateT.run_bind]
  change (StateT.run _ (x.run.run s).2 : Id _) = _
  rcases x.run.run s with ⟨_ | _, _⟩ <;> rfl

theorem outcome_map (f : α → β) (x : Eval α) (s : Session) :
    (f <$> x).outcome s = ((x.outcome s).1.map f, (x.outcome s).2) := by
  rw [map_eq_pure_bind, outcome_bind]
  rcases x.outcome s with ⟨_ | _, _⟩ <;> rfl

theorem outcome_map_congr {x y : Eval α} {s : Session} (h : x.outcome s = y.outcome s) (f : α → β) :
    (f <$> x).outcome s = (f <$> y).outcome s := by
  rw [outcome_map, outcome_map, h]

theorem outcome_bind_ok {x : Eval α} {a : α} {s s' : Session} (h : x.outcome s = (.ok a, s'))
    (f : α → Eval β) : (x >>= f).outcome s = (f a).outcome s' := by
  rw [outcome_bind, h]

theorem outcome_bind_error {x : Eval α} {e : Failure} {s s' : Session}
    (h : x.outcome s = (.error e, s')) (f : α → Eval β) :
    (x >>= f).outcome s = (.error e, s') := by
  rw [outcome_bind, h]

@[simp]
theorem outcome_pure_bind (a : α) (f : α → Eval β) (s : Session) :
    ((pure a : Eval α) >>= f).outcome s = (f a).outcome s := rfl

@[simp]
theorem outcome_scope_bind (f : Scope → Eval β) (s : Session) :
    (scope >>= f).outcome s = (f s.scope).outcome s := rfl

theorem outcome_bind_eq_ok {x : Eval α} {f : α → Eval β} {b : β} {s s' : Session} :
    (x >>= f).outcome s = (.ok b, s') ↔
      ∃ a t, x.outcome s = (.ok a, t) ∧ (f a).outcome t = (.ok b, s') := by
  rw [outcome_bind]
  constructor
  · intro h
    split at h
    · rename_i a t ha
      exact ⟨a, t, ha, h⟩
    · simp at h
  · rintro ⟨a, t, ha, hb⟩
    rw [ha]
    exact hb

/-- A relation of two computations that sequences of them share: what comes second is compared
where the first of the two has come to. -/
structure Sequential (P : ∀ {α : Type}, Eval α → Eval α → Session → Prop) : Prop where
  ofExcept : ∀ {α : Type} (e : Except Failure α) (s : Session), P (ofExcept e) (ofExcept e) s
  bind : ∀ {α β : Type} {x y : Eval α} {f g : α → Eval β} {s : Session}, P x y s →
    (∀ a t, x.outcome s = (.ok a, t) → P (f a) (g a) t) → P (x >>= f) (y >>= g) s

/-- Such a relation of computations that are run from one session, and so find one scope. -/
structure Local (P : ∀ {α : Type}, Eval α → Eval α → Session → Prop) : Prop extends
    Sequential P where
  scope : ∀ s : Session, P scope scope s

namespace Sequential

variable {P : ∀ {α : Type}, Eval α → Eval α → Session → Prop} {s : Session}

theorem pure (hP : Sequential P) (a : α) : P (Pure.pure a : Eval α) (Pure.pure a) s :=
  hP.ofExcept (.ok a) s

theorem throw (hP : Sequential P) (f : Failure) :
    P (MonadExcept.throw f : Eval α) (MonadExcept.throw f) s :=
  hP.ofExcept (.error f) s

theorem read (hP : Sequential P) {e : Except Failure α} {f g : α → Eval β}
    (h : ∀ a, e = .ok a → P (f a) (g a) s) :
    P (Eval.ofExcept e >>= f) (Eval.ofExcept e >>= g) s := by
  refine hP.bind (hP.ofExcept e s) fun a t ha => ?_
  obtain ⟨he, rfl⟩ := Prod.mk.inj ha
  exact h a he

theorem mapM (hP : Sequential P) {f g : α → Eval β} {as : List α}
    (h : ∀ done a later bs t, as = done ++ a :: later → (done.mapM f).outcome s = (.ok bs, t) →
      P (f a) (g a) t) : P (as.mapM f) (as.mapM g) s := by
  induction as generalizing s with
  | nil =>
    rw [List.mapM_nil, List.mapM_nil]
    exact hP.pure _
  | cons a as ih =>
    rw [List.mapM_cons, List.mapM_cons]
    refine hP.bind (h [] a as [] s rfl rfl) fun b t hb => hP.bind (ih ?_) fun _ _ _ => hP.pure _
    intro done c later bs u split hdone
    refine h (a :: done) c later (b :: bs) u (congrArg _ split) ?_
    rw [List.mapM_cons, outcome_bind_ok hb, outcome_bind_ok hdone]
    rfl

end Sequential

theorem Local.look {P : ∀ {α : Type}, Eval α → Eval α → Session → Prop} {s : Session}
    (hP : Local P) {f g : Scope → Eval β} (h : P (f s.scope) (g s.scope) s) :
    P (Eval.scope >>= f) (Eval.scope >>= g) s := by
  refine hP.bind (hP.scope s) fun a t ha => ?_
  obtain ⟨he, rfl⟩ := Prod.mk.inj ha
  rw [← Except.ok.inj he]
  exact h

theorem local_keeps {γ : Type} (view : Session → γ) :
    Local fun x _ s => view (x.outcome s).2 = view s where
  ofExcept _ _ := rfl
  scope _ := rfl
  bind := by
    intro α β x y f g s hx hf
    rw [outcome_bind]
    split
    · rename_i a t ha
      rw [hf a t ha, ← hx, ha]
    · rename_i e t he
      rw [← hx, he]

/-- A computation that leaves a view of the session as it was, however it ends. -/
def Keeps {γ : Type} (view : Session → γ) (act : Eval α) : Prop :=
  ∀ s, view (act.outcome s).2 = view s

theorem keeps_ofExcept {γ : Type} (view : Session → γ) (e : Except Failure α) :
    Keeps view (ofExcept e) := fun _ => rfl

theorem keeps_scope_record (level : Level) (message : String) :
    Keeps Session.scope (record level message) := fun _ => rfl

theorem Keeps.bind {γ : Type} {view : Session → γ} {x : Eval α} {f : α → Eval β}
    (hx : Keeps view x) (hf : ∀ a, Keeps view (f a)) : Keeps view (x >>= f) := by
  intro s
  exact @(local_keeps view).bind _ _ x x f f s (hx s) fun a t _ => hf a t

theorem Keeps.mapM {γ : Type} {view : Session → γ} {f : α → Eval β} (hf : ∀ a, Keeps view (f a))
    (as : List α) : Keeps view (as.mapM f) := by
  intro s
  exact @(local_keeps view).mapM _ _ _ s f f as fun _ a _ _ t _ _ => hf a t

theorem Keeps.ok {γ : Type} {view : Session → γ} {act : Eval α} (h : Keeps view act)
    {s t : Session} {a : α} (ha : act.outcome s = (.ok a, t)) : view t = view s := by
  rw [← h s, ha]

def Gives (good : α → Prop) (act : Eval α) : Prop :=
  ∀ s a t, act.outcome s = (.ok a, t) → good a

namespace Gives

variable {good : α → Prop} {fine : β → Prop}

theorem pure {a : α} (h : good a) : Gives good (Pure.pure a : Eval α) := by
  intro s b t hb
  rw [← Except.ok.inj (Prod.mk.inj hb).1]
  exact h

theorem throw (f : Failure) : Gives good (MonadExcept.throw f : Eval α) :=
  fun _ _ _ h => nomatch h

theorem ofExcept {e : Except Failure α} (h : ∀ a, e = .ok a → good a) :
    Gives good (Eval.ofExcept e) :=
  fun _ a _ ha => h a (Prod.mk.inj ha).1

theorem anything (act : Eval α) : Gives (fun _ => True) act := fun _ _ _ _ => trivial

theorem bind {x : Eval α} {f : α → Eval β} (hx : Gives good x)
    (hf : ∀ a, good a → Gives fine (f a)) : Gives fine (x >>= f) := by
  intro s b t hb
  obtain ⟨a, u, ha, hb⟩ := outcome_bind_eq_ok.1 hb
  exact hf a (hx s a u ha) u b t hb

theorem after (x : Eval α) {f : α → Eval β} (hf : ∀ a, Gives fine (f a)) :
    Gives fine (x >>= f) :=
  bind (anything x) fun a _ => hf a

theorem withFrame {act : Eval α} (h : Gives good act) (frame : Frame) :
    Gives good (Eval.withFrame frame act) := by
  intro s a t ha
  rw [outcome_withFrame] at ha
  exact h (s.push frame) a _ (Prod.ext (Prod.mk.inj ha).1 rfl)

theorem mapM {f : α → Eval β} (hf : ∀ a, Gives fine (f a)) (as : List α) :
    Gives (fun bs => ∀ b ∈ bs, fine b) (as.mapM f) := by
  induction as with
  | nil =>
    rw [List.mapM_nil]
    exact pure nofun
  | cons a as ih =>
    rw [List.mapM_cons]
    refine bind (hf a) fun b hb => bind ih fun bs hbs => pure fun c hc => ?_
    rcases List.mem_cons.1 hc with rfl | hc
    · exact hb
    · exact hbs c hc

end Gives

def GivesAt (s : Session) (good : α → Prop) (act : Eval α) : Prop :=
  ∀ a t, act.outcome s = (.ok a, t) → good a

namespace GivesAt

variable {s : Session} {good : α → Prop} {fine : β → Prop}

theorem pure {a : α} (h : good a) : GivesAt s good (Pure.pure a : Eval α) :=
  Gives.pure h s

theorem throw (f : Failure) : GivesAt s good (MonadExcept.throw f : Eval α) :=
  Gives.throw f s

theorem bind {x : Eval α} {f : α → Eval β} (hx : GivesAt s good x)
    (hf : ∀ a t, x.outcome s = (.ok a, t) → good a → GivesAt t fine (f a)) :
    GivesAt s fine (x >>= f) := by
  intro b u hb
  obtain ⟨a, t, ha, hb⟩ := outcome_bind_eq_ok.1 hb
  exact hf a t ha (hx a t ha) b u hb

theorem read {e : Except Failure α} {f : α → Eval β}
    (h : ∀ a, e = .ok a → GivesAt s fine (f a)) : GivesAt s fine (Eval.ofExcept e >>= f) := by
  intro b u hb
  obtain ⟨a, t, ha, hb⟩ := outcome_bind_eq_ok.1 hb
  obtain ⟨he, rfl⟩ := Prod.mk.inj ha
  exact h a he b u hb

theorem look {f : Scope → Eval β} (h : GivesAt s fine (f s.scope)) :
    GivesAt s fine (Eval.scope >>= f) :=
  h

theorem withFrame {frame : Frame} {act : Eval α} (h : GivesAt (s.push frame) good act) :
    GivesAt s good (Eval.withFrame frame act) := by
  intro a t ha
  rw [outcome_withFrame] at ha
  exact h a _ (Prod.ext (Prod.mk.inj ha).1 rfl)

theorem mapM {f : α → Eval β} {as : List α}
    (h : ∀ done a later bs t, as = done ++ a :: later → (done.mapM f).outcome s = (.ok bs, t) →
      GivesAt t fine (f a)) : GivesAt s (fun bs => ∀ b ∈ bs, fine b) (as.mapM f) := by
  induction as generalizing s with
  | nil =>
    rw [List.mapM_nil]
    exact pure nofun
  | cons a as ih =>
    rw [List.mapM_cons]
    refine bind (h [] a as [] s rfl rfl) fun b t hb good => bind (ih ?_) fun bs _ _ others =>
      pure (List.forall_mem_cons.2 ⟨good, others⟩)
    intro done c later bs u split hdone
    refine h (a :: done) c later (b :: bs) u (congrArg _ split) ?_
    rw [List.mapM_cons, outcome_bind_ok hb, outcome_bind_ok hdone]
    rfl

end GivesAt

end Eval

theorem local_outcome : Eval.Local fun x y s => x.outcome s = y.outcome s where
  ofExcept _ _ := rfl
  scope _ := rfl
  bind := by
    intro α β x y f g s hx hf
    rw [Eval.outcome_bind, Eval.outcome_bind, ← hx]
    split
    · rename_i a t ha
      exact hf a t ha
    · rfl

end Stencil
