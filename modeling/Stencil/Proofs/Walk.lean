import Stencil.Template.Node

set_option autoImplicit false

/-!
# Properties of all nodes of a tree

`Node.Every p n` says that `p` holds of a node and of all below it. It passes to the children, to
the body of a branch and to the branch that follows.
-/

namespace Stencil.Template.Node

theorem mem_walkAll {m : Node} {ns : List Node} : m ∈ walkAll ns ↔ ∃ n ∈ ns, m ∈ walk n := by
  induction ns with
  | nil => simp [walkAll]
  | cons n ns ih => simp [walkAll, ih]

theorem walkAll_append (ms ns : List Node) : walkAll (ms ++ ns) = walkAll ms ++ walkAll ns := by
  induction ms with
  | nil => rfl
  | cons m ms ih => rw [List.cons_append, walkAll, walkAll, ih, List.append_assoc]

theorem self_mem_walk (n : Node) : n ∈ n.walk := by
  cases n <;> simp [walk]

theorem mem_walk_of_child {m c n : Node} (hc : c ∈ n.children) (hm : m ∈ c.walk) : m ∈ n.walk := by
  cases n with
  | text v i => simp [children] at hc
  | leaf k p i => simp [children] at hc
  | block k p i cs => exact List.mem_cons_of_mem _ (mem_walkAll.2 ⟨c, hc, hm⟩)

theorem mem_children_of_branchBody {c n : Node} (h : c ∈ n.branchBody) : c ∈ n.children := by
  unfold branchBody at h
  split at h
  · exact (List.dropLast_sublist _).subset h
  · exact h

theorem mem_children_of_nextBranch {n next : Node} (h : n.nextBranch = some next) :
    next ∈ n.children := by
  obtain ⟨hl, -⟩ := Option.filter_eq_some_iff.1 h
  exact List.mem_of_getLast? hl

def Every (p : Node → Prop) (n : Node) : Prop := ∀ m ∈ n.walk, p m

namespace Every

variable {p : Node → Prop} {n : Node}

theorem self (h : Every p n) : p n := h n (self_mem_walk n)

theorem children (h : Every p n) {c : Node} (hc : c ∈ n.children) : Every p c :=
  fun _ hm => h _ (mem_walk_of_child hc hm)

theorem branchBody (h : Every p n) : ∀ c ∈ n.branchBody, Every p c :=
  fun _ hc => h.children (mem_children_of_branchBody hc)

theorem nextBranch (h : Every p n) {next : Node} (hn : n.nextBranch = some next) :
    Every p next :=
  h.children (mem_children_of_nextBranch hn)

theorem of_children (self : p n) (below : ∀ c ∈ n.children, Every p c) : Every p n := by
  intro m hm
  cases n with
  | text v i =>
    rw [List.mem_singleton.1 hm]
    exact self
  | leaf k q i =>
    rw [List.mem_singleton.1 hm]
    exact self
  | block k q i cs =>
    rcases List.mem_cons.1 hm with rfl | hm
    · exact self
    · obtain ⟨c, hc, hm⟩ := mem_walkAll.1 hm
      exact below c hc m hm

end Every

theorem every_of_walkAll {p : Node → Prop} {ns : List Node} (h : ∀ m ∈ walkAll ns, p m) :
    ∀ n ∈ ns, Every p n :=
  fun n hn m hm => h m (mem_walkAll.2 ⟨n, hn, hm⟩)

end Stencil.Template.Node
