import Stencil.Proofs.Outcome

set_option autoImplicit false

/-!
# Frames pushed for a while

A block runs with one more frame on the scope. It may push frames and leave them behind, pop frames,
run blocks of its own, catch failures or fail at any point, and what it reads may decide what it
does next. As long as it pops no frame that was there before it, the scope is afterwards exactly as
it was.
-/

namespace Stencil

namespace Scope

/-- A scope that holds all frames of another one, and perhaps more above them. -/
structure RestsOn (below s : Scope) : Prop where
  frames : below.frames <:+ s.frames
  basePath : s.basePath = below.basePath

namespace RestsOn

variable {below s : Scope}

theorem refl (s : Scope) : RestsOn s s := ⟨List.suffix_rfl, rfl⟩

theorem depth_le (h : RestsOn below s) : below.depth ≤ s.depth := h.frames.length_le

theorem push (h : RestsOn below s) (frame : Frame) : RestsOn below (s.push frame) :=
  ⟨h.frames.trans (List.suffix_cons _ _), h.basePath⟩

theorem of_suffix {frames : List Frame} (h : RestsOn below s) (fewer : frames <:+ s.frames)
    (enough : below.depth ≤ frames.length) : RestsOn below { s with frames } :=
  ⟨List.suffix_of_suffix_length_le h.frames fewer enough, h.basePath⟩

theorem pop (h : RestsOn below s) (enough : below.depth ≤ s.pop.2.depth) :
    RestsOn below s.pop.2 := by
  obtain ⟨frames, path⟩ := s
  cases frames with
  | nil => exact h
  | cons frame rest => exact h.of_suffix (List.suffix_cons _ _) enough

theorem truncate (h : RestsOn below s) {depth : Nat} (enough : below.depth ≤ depth) :
    RestsOn below (s.truncate depth) := by
  refine h.of_suffix (List.drop_suffix _ _) ?_
  have := h.depth_le
  rw [List.length_drop]
  unfold Scope.depth at this ⊢ enough
  omega

theorem truncate_eq (h : RestsOn below s) : s.truncate below.depth = below := by
  obtain ⟨⟨above, split⟩, path⟩ := h
  obtain ⟨frames, basePath⟩ := below
  unfold Scope.truncate Scope.depth
  simp only at split path ⊢
  rw [← split, List.length_append, Nat.add_sub_cancel, List.drop_left, path]

end RestsOn

end Scope

namespace Session

theorem scope_pop (s : Session) : s.pop.2.scope = s.scope.pop.2 := by
  obtain ⟨⟨frames, path⟩, log⟩ := s
  cases frames <;> rfl

end Session

/-- What is done with the frames of a session, step by step. -/
inductive FrameSteps
  | done
  | fail (failure : Failure)
  | push (frame : Frame) (next : FrameSteps)
  | pop (next : Frame → FrameSteps)
  | peek (next : Option Frame → FrameSteps)
  | inside (frame : Frame) (block next : FrameSteps)
  | attempt (block next : FrameSteps)

namespace FrameSteps

/-- Takes the steps. A block of its own runs with one more frame, and a failure of what is
attempted is caught. -/
def run : FrameSteps → Eval Unit
  | done => return ()
  | fail failure => throw failure
  | push frame next => do
    modify (Session.push frame)
    next.run
  | pop next => do
    let frame ← modifyGet Session.pop
    (next frame).run
  | peek next => do
    let scope ← Eval.scope
    (next scope.peek?).run
  | inside frame block next => do
    Eval.withFrame frame block.run
    next.run
  | attempt block next => do
    tryCatch block.run fun _ => return ()
    next.run

/-- No step pops a frame when only `floor` frames are left. -/
def NeverBelow (floor : Nat) : FrameSteps → Session → Prop
  | done, _ => True
  | fail _, _ => True
  | push frame next, s => next.NeverBelow floor (s.push frame)
  | pop next, s => floor ≤ s.pop.2.scope.depth ∧ (next s.pop.1).NeverBelow floor s.pop.2
  | peek next, s => (next s.scope.peek?).NeverBelow floor s
  | inside frame block next, s =>
    block.NeverBelow floor (s.push frame) ∧
      ∀ s', (Eval.withFrame frame block.run).outcome s = (.ok (), s') → next.NeverBelow floor s'
  | attempt block next, s =>
    block.NeverBelow floor s ∧ next.NeverBelow floor (block.run.outcome s).2

section Run

variable {below : Scope}

theorem outcome_push (frame : Frame) (next : FrameSteps) (s : Session) :
    (push frame next).run.outcome s = next.run.outcome (s.push frame) := rfl

theorem outcome_pop (next : Frame → FrameSteps) (s : Session) :
    (pop next).run.outcome s = (next s.pop.1).run.outcome s.pop.2 := rfl

theorem outcome_peek (next : Option Frame → FrameSteps) (s : Session) :
    (peek next).run.outcome s = (next s.scope.peek?).run.outcome s := rfl

theorem outcome_attempt (block next : FrameSteps) (s : Session) :
    (attempt block next).run.outcome s = next.run.outcome (block.run.outcome s).2 := by
  rw [run, Eval.outcome_bind, Eval.outcome_tryCatch]
  rcases block.run.outcome s with ⟨_ | _, _⟩ <;> rfl

theorem restsOn_run (steps : FrameSteps) {s : Session} (rests : below.RestsOn s.scope)
    (never : steps.NeverBelow below.depth s) : below.RestsOn (steps.run.outcome s).2.scope := by
  induction steps generalizing s with
  | done => exact rests
  | fail failure => exact rests
  | push frame next ih =>
    rw [outcome_push]
    exact ih (rests.push frame) never
  | pop next ih =>
    obtain ⟨enough, later⟩ := never
    rw [outcome_pop]
    refine ih _ ?_ later
    rw [Session.scope_pop] at enough ⊢
    exact rests.pop enough
  | peek next ih =>
    rw [outcome_peek]
    exact ih _ rests never
  | inside frame block next ihBlock ihNext =>
    obtain ⟨within, later⟩ := never
    have kept : below.RestsOn ((Eval.withFrame frame block.run).outcome s).2.scope :=
      (ihBlock (rests.push frame) within).truncate rests.depth_le
    rw [run, Eval.outcome_bind]
    split
    · rename_i _ s' ended
      rw [ended] at kept
      exact ihNext kept (later s' ended)
    · rename_i ended
      rw [ended] at kept
      exact kept
  | attempt block next ihBlock ihNext =>
    obtain ⟨within, later⟩ := never
    rw [outcome_attempt]
    exact ihNext (ihBlock rests within) later

end Run

/-- A block that pops no frame from below its own leaves the scope exactly as it was, whatever
frames it has left behind and whether or not it has failed; its failure goes on. -/
theorem pushed_block_restores (frame : Frame) (block : FrameSteps) (s : Session)
    (never : block.NeverBelow s.scope.depth (s.push frame)) :
    ((Eval.withFrame frame block.run).outcome s).2.scope = s.scope ∧
      ((Eval.withFrame frame block.run).outcome s).1 = (block.run.outcome (s.push frame)).1 := by
  have rests : s.scope.RestsOn (s.push frame).scope := (Scope.RestsOn.refl s.scope).push frame
  exact ⟨(restsOn_run block rests never).truncate_eq, rfl⟩

def leaking : FrameSteps :=
  push [(.str "a", .atom .null)] <|
    attempt (inside [] (push [] (push [] (fail .missingPart))) done) <|
      pop fun popped => push [] <| peek fun top =>
        if popped.isEmpty || top.isNone then done else fail .unprintable

theorem leaking_block_restores :
    let s : Session := ⟨⟨[[(.str "b", .atom .null)]], none⟩, []⟩
    leaking.NeverBelow s.scope.depth (s.push []) ∧
      ((Eval.withFrame [] leaking.run).outcome s).2.scope = s.scope ∧
      ((Eval.withFrame [] leaking.run).outcome s).1 = .error .unprintable := by
  intro s
  have never : leaking.NeverBelow s.scope.depth (s.push []) :=
    ⟨⟨trivial, nofun⟩, by decide, trivial⟩
  obtain ⟨restored, failed⟩ := pushed_block_restores [] leaking s never
  exact ⟨never, restored, failed.trans rfl⟩

example : ((Eval.withFrame [] (pop fun _ => pop fun _ => done).run).outcome
    ⟨⟨[[]], none⟩, []⟩).2.scope.frames = [] := rfl

end FrameSteps

end Stencil
