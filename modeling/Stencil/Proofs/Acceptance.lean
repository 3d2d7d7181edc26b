import Stencil.Proofs.Linearisation
import Stencil.Proofs.Preorder
import Stencil.Transform

set_option autoImplicit false

/-!
# Which tokens make a tree

The scopes that are open can be counted from the tokens alone. Building fails at the first token
that closes where the count is zero, and nowhere else; at the end the count says how many scopes are
left open, and each of them is named after the last branch of its chain.
-/

namespace Stencil.Template

variable {tags : List Tag}

/-- How a token changes the number of open scopes. -/
def Token.rise (tags : List Tag) (t : Token) : Int :=
  match t.effect tags with
  | (true, false) => 1
  | (false, true) => -1
  | _ => 0

/-- The number of scopes that are open behind some tokens. -/
def depth (tags : List Tag) (ts : List Token) : Int :=
  (ts.map (Token.rise tags)).sum

@[simp]
theorem depth_nil : depth tags [] = 0 := rfl

@[simp]
theorem depth_append (ts us : List Token) :
    depth tags (ts ++ us) = depth tags ts + depth tags us := by
  simp [depth]

@[simp]
theorem depth_cons (t : Token) (ts : List Token) :
    depth tags (t :: ts) = t.rise tags + depth tags ts := by
  simp [depth]

def Token.opens (tags : List Tag) (t : Token) : Bool :=
  (t.effect tags).1

def Token.closes (tags : List Tag) (t : Token) : Bool :=
  (t.effect tags).2

/-- A token that closes, behind tokens that leave nothing open. -/
def Stray (tags : List Tag) (before : List Token) (t : Token) : Prop :=
  t.closes tags = true ∧ depth tags before = 0

/-- The first token of a sequence that closes where nothing is open. -/
def FirstStray (tags : List Tag) (tokens : List Token) (t : Token) : Prop :=
  ∃ before, before ++ [t] <+: tokens ∧ Stray tags before t ∧
    ∀ earlier u, earlier ++ [u] <+: before → ¬ Stray tags earlier u

/-- The token that opens the last branch of the chain that is still open at some level: no token
behind it closes that chain or goes on with it. -/
def LastBranch (tags : List Tag) (tokens : List Token) (level : Nat) (t : Token) : Prop :=
  ∃ before after, tokens = before ++ t :: after ∧ t.opens tags = true ∧
    depth tags (before ++ [t]) = level + 1 ∧
    ∀ between u, between ++ [u] <+: after → u.closes tags = true →
      depth tags (before ++ t :: between) ≠ level + 1

theorem LastBranch.concat {ts : List Token} {level : Nat} {t u : Token}
    (h : LastBranch tags ts level t) (still : u.closes tags = true → depth tags ts ≠ level + 1) :
    LastBranch tags (ts ++ [u]) level t := by
  obtain ⟨before, after, rfl, opens, here, others⟩ := h
  refine ⟨before, after ++ [u], by simp, opens, here, ?_⟩
  intro between v within closes
  rcases List.prefix_concat_iff.1 within with same | earlier
  · obtain ⟨rfl, rfl⟩ := List.append_singleton_inj.1 same
    exact still closes
  · exact others between v earlier closes

namespace Builder

/-- The kinds of the scopes that are open, outermost first. -/
def openKinds (b : Builder) : List String :=
  b.finish.unclosed

theorem openKinds_add (b : Builder) (n : Node) : (b.add n).openKinds = b.openKinds := by
  obtain ⟨roots, scopes⟩ := b
  cases scopes <;> simp [openKinds, finish, add, OpenBlock.add]

theorem openKinds_eq_nil_iff (b : Builder) : b.openKinds = [] ↔ b.scopes = [] := by
  simp [openKinds, finish]

theorem openKinds_step {b b' : Builder} {t : Token} (h : step tags b t = .ok b') :
    t.effect tags = (false, false) ∧ b'.openKinds = b.openKinds ∨
    t.effect tags = (true, false) ∧ b'.openKinds = b.openKinds ++ [t.kind] ∨
    t.effect tags = (false, true) ∧ (∃ kind, b.openKinds = b'.openKinds ++ [kind]) ∨
    t.effect tags = (true, true) ∧
      ∃ outer kind, b.openKinds = outer ++ [kind] ∧ b'.openKinds = outer ++ [t.kind] := by
  obtain ⟨roots, scopes⟩ := b
  rcases effect : t.effect tags with ⟨_ | _, _ | _⟩
  · rw [step_leaf _ effect] at h
    refine .inl ⟨rfl, ?_⟩
    rw [← Except.ok.inj h, openKinds_add]
  · cases scopes with
    | nil => simp [step_stray (show (t.effect tags).2 = true by rw [effect])] at h
    | cons s outer =>
      rw [step_close effect] at h
      refine .inr (.inr (.inl ⟨rfl, s.current.kind, ?_⟩))
      rw [← Except.ok.inj h, openKinds_add]
      simp [openKinds, finish]
  · rw [step_open _ effect] at h
    refine .inr (.inl ⟨rfl, ?_⟩)
    rw [← Except.ok.inj h]
    simp [openKinds, finish, OpenBlock.ofToken]
  · cases scopes with
    | nil => simp [step_stray (show (t.effect tags).2 = true by rw [effect])] at h
    | cons s outer =>
      rw [step_branch effect] at h
      refine .inr (.inr (.inr ⟨rfl, openKinds ⟨roots, outer⟩, s.current.kind, ?_⟩))
      rw [← Except.ok.inj h]
      simp [openKinds, finish, OpenBlock.ofToken]

theorem length_openKinds_step {b b' : Builder} {t : Token} (h : step tags b t = .ok b') :
    (b'.openKinds.length : Int) = b.openKinds.length + t.rise tags := by
  rcases openKinds_step h with ⟨effect, same⟩ | ⟨effect, more⟩ | ⟨effect, kind, less⟩ |
    ⟨effect, outer, kind, before, after⟩
  · simp [Token.rise, effect, same]
  · simp [Token.rise, effect, more]
  · simp [Token.rise, effect, less]
  · simp [Token.rise, effect, before, after]

theorem step_fails_iff {b : Builder} {t : Token} {f : Failure} :
    step tags b t = .error f ↔
      t.closes tags = true ∧ b.openKinds = [] ∧ f = .unexpectedClose t.kind := by
  obtain ⟨roots, scopes⟩ := b
  rw [openKinds_eq_nil_iff]
  cases scopes with
  | nil =>
    by_cases closes : t.closes tags = true
    · rw [step_stray closes]
      simp [closes, eq_comm]
    · rcases effect : t.effect tags with ⟨_ | _, _ | _⟩
      · simp [step_leaf _ effect, closes]
      · simp [Token.closes, effect] at closes
      · simp [step_open _ effect, closes]
      · simp [Token.closes, effect] at closes
  | cons s outer =>
    rcases effect : t.effect tags with ⟨_ | _, _ | _⟩
    · simp [step_leaf _ effect]
    · simp [step_close effect]
    · simp [step_open _ effect]
    · simp [step_branch effect]

theorem Takes.head {t : Token} {ts : List Token} {b b' : Builder} (h : Takes tags b (t :: ts) b') :
    ∃ c, Builder.step tags b t = .ok c ∧ Takes tags c ts b' := by
  unfold Takes at h
  rw [List.foldlM_cons] at h
  exact exists_of_bind_eq_ok h

theorem Takes.split {ts us : List Token} {b b' : Builder} (h : Takes tags b (ts ++ us) b') :
    ∃ c, Takes tags b ts c ∧ Takes tags c us b' := by
  unfold Takes at h
  rw [List.foldlM_append] at h
  exact exists_of_bind_eq_ok h

theorem Takes.last {ts : List Token} {t : Token} {b b' : Builder}
    (h : Takes tags b (ts ++ [t]) b') :
    ∃ c, Takes tags b ts c ∧ Builder.step tags c t = .ok b' := by
  obtain ⟨c, earlier, last⟩ := h.split
  obtain ⟨d, step, done⟩ := last.head
  rw [← Except.ok.inj done]
  exact ⟨c, earlier, step⟩

theorem length_openKinds_takes {ts : List Token} {b b' : Builder} (h : Takes tags b ts b') :
    (b'.openKinds.length : Int) = b.openKinds.length + depth tags ts := by
  induction ts generalizing b with
  | nil =>
    rw [← Except.ok.inj h]
    simp
  | cons t ts ih =>
    obtain ⟨c, first, others⟩ := h.head
    have one := length_openKinds_step first
    have rest := ih others
    rw [depth_cons]
    omega

theorem length_openKinds {ts : List Token} {b : Builder} (h : Takes tags .empty ts b) :
    (b.openKinds.length : Int) = depth tags ts := by
  have count := length_openKinds_takes h
  have none : Builder.empty.openKinds.length = 0 := rfl
  omega

theorem takes_or_fails (ts : List Token) (b : Builder) :
    (∃ b', Takes tags b ts b') ∨
      ∃ before t b', before ++ [t] <+: ts ∧ Takes tags b before b' ∧
        t.closes tags = true ∧ b'.openKinds = [] := by
  induction ts generalizing b with
  | nil => exact .inl ⟨b, .nil tags b⟩
  | cons t ts ih =>
    cases first : step tags b t with
    | error f =>
      obtain ⟨closes, none, -⟩ := step_fails_iff.1 first
      exact .inr ⟨[], t, b, by simp, .nil tags b, closes, none⟩
    | ok c =>
      rcases ih c with ⟨b', others⟩ | ⟨before, u, b', within, others, closes, none⟩
      · exact .inl ⟨b', .cons first others⟩
      · refine .inr ⟨t :: before, u, b', ?_, .cons first others, closes, none⟩
        exact List.cons_prefix_cons.2 ⟨rfl, within⟩

theorem fails_of_stray {before : List Token} {t : Token} {b : Builder}
    (taken : Takes tags .empty before b) (stray : Stray tags before t) (after : List Token) :
    (before ++ t :: after).foldlM (step tags) .empty = .error (.unexpectedClose t.kind) := by
  have none : b.openKinds = [] := by
    have count := length_openKinds taken
    rw [stray.2] at count
    exact List.eq_nil_of_length_eq_zero (by omega)
  have failed : step tags b t = .error (.unexpectedClose t.kind) :=
    step_fails_iff.2 ⟨stray.1, none, rfl⟩
  unfold Takes at taken
  rw [List.foldlM_append, taken]
  change List.foldlM (step tags) b (t :: after) = _
  rw [List.foldlM_cons, failed]
  rfl

theorem takes_of_no_stray {ts : List Token}
    (h : ∀ before t, before ++ [t] <+: ts → ¬ Stray tags before t) :
    ∃ b, Takes tags .empty ts b := by
  rcases takes_or_fails ts .empty with taken | ⟨before, t, b, within, taken, closes, none⟩
  · exact taken
  · have count := length_openKinds taken
    rw [none] at count
    exact absurd ⟨closes, count.symm⟩ (h before t within)

theorem openKinds_step_eq {b b' : Builder} {t : Token} (h : step tags b t = .ok b') {level : Nat}
    (inside : level < b.openKinds.length)
    (still : t.closes tags = true → b.openKinds.length ≠ level + 1) :
    b'.openKinds[level]? = b.openKinds[level]? := by
  rcases openKinds_step h with ⟨effect, same⟩ | ⟨effect, more⟩ | ⟨effect, kind, less⟩ |
    ⟨effect, outer, kind, before, after⟩
  · rw [same]
  · rw [more, List.getElem?_append_left inside]
  · have apart := still (by simp [Token.closes, effect])
    rw [less] at apart inside ⊢
    simp only [List.length_append, List.length_singleton] at apart inside
    rw [List.getElem?_append_left (by omega)]
  · have apart := still (by simp [Token.closes, effect])
    rw [before] at apart inside ⊢
    simp only [List.length_append, List.length_singleton] at apart inside
    rw [after, List.getElem?_append_left (by omega), List.getElem?_append_left (by omega)]

theorem openKinds_step_opens {b b' : Builder} {t : Token} (h : step tags b t = .ok b')
    (opens : t.opens tags = true) {level : Nat} (innermost : b'.openKinds.length = level + 1) :
    b'.openKinds[level]? = some t.kind := by
  have named : ∃ outer, b'.openKinds = outer ++ [t.kind] := by
    rcases openKinds_step h with ⟨effect, -⟩ | ⟨-, more⟩ | ⟨effect, -⟩ | ⟨-, outer, -, -, after⟩
    · simp [Token.opens, effect] at opens
    · exact ⟨_, more⟩
    · simp [Token.opens, effect] at opens
    · exact ⟨outer, after⟩
  obtain ⟨outer, eq⟩ := named
  rw [eq, List.length_append, List.length_singleton] at innermost
  rw [eq, show level = outer.length by omega]
  simp

theorem opens_or_still {b b' : Builder} {t : Token} (h : step tags b t = .ok b') {level : Nat}
    (inside : level < b'.openKinds.length) :
    t.opens tags = true ∧ b'.openKinds.length = level + 1 ∨
      level < b.openKinds.length ∧ (t.closes tags = true → b.openKinds.length ≠ level + 1) := by
  rcases openKinds_step h with ⟨effect, same⟩ | ⟨effect, more⟩ | ⟨effect, kind, less⟩ |
    ⟨effect, outer, kind, before, after⟩
  · simp [Token.closes, effect, ← same, inside]
  · simp only [Token.opens, Token.closes, effect, more, List.length_append, List.length_singleton]
      at inside ⊢
    grind
  · simp only [Token.opens, Token.closes, effect, less, List.length_append, List.length_singleton]
    grind
  · simp only [Token.opens, Token.closes, effect, before, after, List.length_append,
      List.length_singleton] at inside ⊢
    grind

theorem openKinds_takes_eq {ts : List Token} {b b' : Builder} (h : Takes tags b ts b') {level : Nat}
    (inside : level < b.openKinds.length)
    (still : ∀ before u, before ++ [u] <+: ts → u.closes tags = true →
      b.openKinds.length + depth tags before ≠ level + 1) :
    b'.openKinds[level]? = b.openKinds[level]? := by
  induction ts generalizing b with
  | nil => rw [← Except.ok.inj h]
  | cons t ts ih =>
    obtain ⟨c, first, others⟩ := h.head
    have here : t.closes tags = true → b.openKinds.length ≠ level + 1 := by
      intro closes same
      refine still [] t (by simp) closes ?_
      simp [same]
    have one := openKinds_step_eq first inside here
    have within : level < c.openKinds.length := by
      rw [List.getElem?_eq_getElem inside] at one
      exact (List.getElem?_eq_some_iff.1 one).1
    have count := length_openKinds_step first
    rw [ih others within ?_, one]
    intro before u prior closes
    have later := still (t :: before) u (List.cons_prefix_cons.2 ⟨rfl, prior⟩) closes
    rw [depth_cons] at later
    omega

theorem openKinds_iff_lastBranch {ts : List Token} {b : Builder} (h : Takes tags .empty ts b)
    (level : Nat) (kind : String) :
    b.openKinds[level]? = some kind ↔ ∃ t, LastBranch tags ts level t ∧ t.kind = kind := by
  constructor
  · intro named
    induction ts using List.reverseRecOn generalizing b with
    | nil =>
      rw [← Except.ok.inj h] at named
      exact nomatch named
    | append_singleton ts u ih =>
      obtain ⟨c, earlier, last⟩ := h.last
      obtain ⟨inside, -⟩ := List.getElem?_eq_some_iff.1 named
      rcases opens_or_still last inside with ⟨opens, innermost⟩ | ⟨older, still⟩
      · refine ⟨u, ⟨ts, [], rfl, opens, ?_, by simp⟩, ?_⟩
        · rw [← length_openKinds h, innermost]
          simp
        · rw [openKinds_step_opens last opens innermost] at named
          exact Option.some.inj named
      · rw [openKinds_step_eq last older still] at named
        obtain ⟨t, branch, same⟩ := ih earlier named
        refine ⟨t, branch.concat fun closes => ?_, same⟩
        rw [← length_openKinds earlier]
        exact_mod_cast still closes
  · rintro ⟨t, ⟨before, after, rfl, opens, here, still⟩, rfl⟩
    obtain ⟨c, earlier, rest⟩ := h.split
    obtain ⟨d, first, later⟩ := rest.head
    have begun : Takes tags .empty (before ++ [t]) d := earlier.trans (.step first)
    have innermost : d.openKinds.length = level + 1 := by
      have count := length_openKinds begun
      omega
    rw [openKinds_takes_eq later (by omega) ?_, openKinds_step_opens first opens innermost]
    intro between u prior closes
    have apart := still between u prior closes
    simp only [depth_append, depth_cons, depth_nil] at apart here
    omega

theorem no_stray_of_takes {ts before : List Token} {t : Token} {b : Builder}
    (h : Takes tags .empty ts b) (within : before ++ [t] <+: ts) : ¬ Stray tags before t := by
  intro stray
  obtain ⟨after, rfl⟩ := within
  rw [List.append_assoc] at h
  obtain ⟨c, earlier, -⟩ := h.split
  have failed := fails_of_stray earlier stray after
  exact nomatch failed.symm.trans h

end Builder

namespace Forest

open Builder

theorem ofTokens_eq_ok_iff {tokens : List Token} {forest : Forest} :
    ofTokens tags tokens = .ok forest ↔ ∃ b, Takes tags .empty tokens b ∧ b.finish = forest := by
  constructor
  · exact map_eq_ok_iff.1
  · rintro ⟨b, taken, rfl⟩
    unfold ofTokens
    rw [show tokens.foldlM (step tags) .empty = .ok b from taken]
    rfl

theorem ofTokens_eq_error_iff {tokens : List Token} {f : Failure} :
    ofTokens tags tokens = .error f ↔
      ∃ t, FirstStray tags tokens t ∧ f = .unexpectedClose t.kind := by
  have fails {before : List Token} {t : Token} {b : Builder} (taken : Takes tags .empty before b)
      (within : before ++ [t] <+: tokens) (stray : Stray tags before t) :
      ofTokens tags tokens = .error (.unexpectedClose t.kind) := by
    obtain ⟨after, rfl⟩ := within
    have failed := fails_of_stray taken stray after
    unfold ofTokens
    rw [List.append_assoc, List.singleton_append, failed]
    rfl
  constructor
  · intro failed
    rcases takes_or_fails tokens .empty with
      ⟨b, taken⟩ | ⟨before, t, b, within, taken, closes, none⟩
    · rw [ofTokens_eq_ok_iff.2 ⟨b, taken, rfl⟩] at failed
      exact nomatch failed
    · have stray : Stray tags before t := by
        have count := length_openKinds taken
        rw [none] at count
        exact ⟨closes, count.symm⟩
      have same := (fails taken within stray).symm.trans failed
      exact ⟨t, ⟨before, within, stray, fun earlier u prior => no_stray_of_takes taken prior⟩,
        (Except.error.inj same).symm⟩
  · rintro ⟨t, ⟨before, within, stray, first⟩, rfl⟩
    obtain ⟨b, taken⟩ := takes_of_no_stray first
    exact fails taken within stray

theorem outcome_warnUnclosed (forest : Forest) (s : Session) :
    (Transform.warnUnclosed forest).outcome s =
      (.ok (), if 0 < (forest.unclosed.length : Int) then
        s.record .warning ("Unclosed scopes auto-closed at end of input: " ++
          ", ".intercalate forest.unclosed)
        else s) := by
  unfold Transform.warnUnclosed warning?
  cases forest.unclosed with
  | nil => rfl
  | cons kind kinds =>
    have some : 0 < ((kind :: kinds).length : Int) := by simp
    rw [if_pos some]
    rfl

end Forest

/-- Tokens make a tree unless one of them closes where nothing is open, and the failure names the
first such token. The tree that is made leaves as many scopes open as the depth says, and a single
warning lists them, outermost first, if there are any; each is called after the last branch of the
chain that is open at its level. -/
theorem tree_is_made_unless_stray (tags : List Tag) (tokens : List Token) :
    ((∃ f, Forest.ofTokens tags tokens = .error f) ↔
      ∃ before t, before ++ [t] <+: tokens ∧ Stray tags before t) ∧
    (∀ f, Forest.ofTokens tags tokens = .error f ↔
      ∃ t, FirstStray tags tokens t ∧ f = .unexpectedClose t.kind) ∧
    ∀ forest, Forest.ofTokens tags tokens = .ok forest →
      forest.unclosed.length = depth tags tokens ∧
      (∀ level kind, forest.unclosed[level]? = some kind ↔
        ∃ t, LastBranch tags tokens level t ∧ t.kind = kind) ∧
      ∀ s, (Transform.warnUnclosed forest).outcome s =
        (.ok (), if 0 < depth tags tokens then
          s.record .warning ("Unclosed scopes auto-closed at end of input: " ++
            ", ".intercalate forest.unclosed)
          else s) := by
  refine ⟨⟨?_, ?_⟩, fun f => Forest.ofTokens_eq_error_iff, ?_⟩
  · rintro ⟨f, failed⟩
    obtain ⟨t, ⟨before, within, stray, -⟩, -⟩ := Forest.ofTokens_eq_error_iff.1 failed
    exact ⟨before, t, within, stray⟩
  · rintro ⟨before, t, within, stray⟩
    cases built : Forest.ofTokens tags tokens with
    | error f => exact ⟨f, rfl⟩
    | ok forest =>
      obtain ⟨b, taken, -⟩ := Forest.ofTokens_eq_ok_iff.1 built
      exact absurd stray (Builder.no_stray_of_takes taken within)
  · intro forest built
    obtain ⟨b, taken, rfl⟩ := Forest.ofTokens_eq_ok_iff.1 built
    have count := Builder.length_openKinds taken
    refine ⟨count, Builder.openKinds_iff_lastBranch taken, fun s => ?_⟩
    rw [← count]
    exact b.finish.outcome_warnUnclosed s

section Example

theorem tangled_tokens_are_counted :
    depth Tag.shared tangledTokens = 1 ∧
      (∃ t, LastBranch Tag.shared tangledTokens 0 t ∧ t.kind = "else") ∧
      ∃ t, FirstStray Tag.shared (tangledTokens ++ [bareToken "endfor" none,
        bareToken "elseif" none, bareToken "endif" none]) t ∧ t.kind = "elseif" := by
  have built : Forest.ofTokens Tag.shared tangledTokens = .ok ⟨[tangledRoot], ["else"]⟩ := by rfl
  obtain ⟨-, -, accepted⟩ := tree_is_made_unless_stray Tag.shared tangledTokens
  obtain ⟨count, names, -⟩ := accepted _ built
  refine ⟨count.symm, (names 0 "else").1 rfl, ?_⟩
  obtain ⟨-, refused, -⟩ := tree_is_made_unless_stray Tag.shared
    (tangledTokens ++ [bareToken "endfor" none, bareToken "elseif" none, bareToken "endif" none])
  obtain ⟨t, first, named⟩ := (refused (.unexpectedClose "elseif")).1 rfl
  exact ⟨t, first, (Failure.unexpectedClose.inj named).symm⟩

end Example

end Stencil.Template
