import Stencil.Proofs.Outcome
import Stencil.Proofs.Walk
import Stencil.Template.Forest

set_option autoImplicit false

/-!
# Reading a text with fewer tags

Where a text uses none of the tags that one vocabulary has beyond another, both read the same
lexemes, tokens and trees from it. The tag with the longest name wins, so a name that is read with
the larger vocabulary is also read with the smaller one, provided that it has the name.
-/

namespace Stencil.Template.Lexeme

theorem name_of_tagNamed? {cs name : List Char} {r : TagReading}
    (h : tagNamed? cs name = some r) : r.1 = name ∧ name <+: cs := by
  unfold tagNamed? at h
  split at h
  · exact nomatch h
  · rename_i rest hrest
    split at h
    · exact nomatch h
    · obtain ⟨t, -, rfl⟩ := Option.map_eq_some_iff.1 h
      exact ⟨rfl, rest, append_of_behind? hrest⟩

theorem eq_of_tagNamed? {cs name other : List Char} {r q : TagReading}
    (hr : tagNamed? cs name = some r) (hq : tagNamed? cs other = some q)
    (length : r.1.length = q.1.length) : r = q := by
  obtain ⟨rfl, before⟩ := name_of_tagNamed? hr
  obtain ⟨rfl, before'⟩ := name_of_tagNamed? hq
  have same : r.1 = q.1 :=
    (List.prefix_of_prefix_length_le before before' (Nat.le_of_eq length)).eq_of_length length
  rw [same, hq] at hr
  exact (Option.some.inj hr).symm

/-- The longest of the readings met so far. -/
structure Longest (names : List (List Char)) (cs : List Char) (best : Option TagReading) :
    Prop where
  read : ∀ r, best = some r → ∃ name ∈ names, tagNamed? cs name = some r
  longest : ∀ name ∈ names, ∀ r, tagNamed? cs name = some r →
    ∃ b, best = some b ∧ r.1.length ≤ b.1.length

theorem Longest.add {names : List (List Char)} {cs : List Char} {best : Option TagReading}
    (h : Longest names cs best) (name : List Char) :
    Longest (names ++ [name]) cs (longerReading best (tagNamed? cs name)) := by
  constructor
  · intro r hr
    rcases longerReading_eq_or best (tagNamed? cs name) with he | he
    · obtain ⟨other, mem, read⟩ := h.read r (he ▸ hr)
      exact ⟨other, List.mem_append_left _ mem, read⟩
    · exact ⟨name, List.mem_append_right _ List.mem_cons_self, he ▸ hr⟩
  · intro other mem r hr
    have longer {a b : TagReading} (ha : best = some a) (hb : tagNamed? cs name = some b) :
        ∃ c, longerReading best (tagNamed? cs name) = some c ∧ a.1.length ≤ c.1.length ∧
          b.1.length ≤ c.1.length := by
      rw [ha, hb]
      change ∃ c, (if a.1.length < b.1.length then some b else some a) = some c ∧ _
      split
      · rename_i lt
        exact ⟨b, rfl, Nat.le_of_lt lt, Nat.le_refl _⟩
      · rename_i ge
        exact ⟨a, rfl, Nat.le_refl _, Nat.le_of_not_lt ge⟩
    rcases List.mem_append.1 mem with mem | mem
    · obtain ⟨a, ha, le⟩ := h.longest other mem r hr
      cases hb : tagNamed? cs name with
      | none =>
        rw [ha]
        exact ⟨a, rfl, le⟩
      | some b =>
        obtain ⟨c, hc, hac, -⟩ := longer ha hb
        rw [hb] at hc
        exact ⟨c, hc, Nat.le_trans le hac⟩
    · rw [List.mem_singleton.1 mem] at hr
      cases ha : best with
      | none =>
        rw [hr]
        exact ⟨r, rfl, Nat.le_refl _⟩
      | some a =>
        obtain ⟨c, hc, -, hrc⟩ := longer ha hr
        rw [ha] at hc
        exact ⟨c, hc, hrc⟩

theorem longest_anyTag? (names : List (List Char)) (cs : List Char) :
    Longest names cs (anyTag? names cs) := by
  suffices ∀ later done best, Longest done cs best → Longest (done ++ later) cs
      (later.foldl (fun best name => longerReading best (tagNamed? cs name)) best) from
    this names [] none ⟨nofun, nofun⟩
  intro later
  induction later with
  | nil =>
    intro done best h
    rw [List.append_nil]
    exact h
  | cons name later ih =>
    intro done best h
    have := ih (done ++ [name]) _ (h.add name)
    rw [List.append_assoc] at this
    exact this

def tagName? : Lexeme → Option (List Char)
  | tag _ _ name _ => some name
  | _ => none

section Narrow

variable {wide narrow : List (List Char)} (sub : ∀ name ∈ narrow, name ∈ wide)
include sub

theorem anyTag?_narrow {cs : List Char}
    (used : ∀ r, anyTag? wide cs = some r → r.1 ∈ narrow) :
    anyTag? narrow cs = anyTag? wide cs := by
  have inWide := longest_anyTag? wide cs
  have inNarrow := longest_anyTag? narrow cs
  cases hw : anyTag? wide cs with
  | none =>
    cases hn : anyTag? narrow cs with
    | none => rfl
    | some b =>
      obtain ⟨name, mem, read⟩ := inNarrow.read b hn
      obtain ⟨c, hc, -⟩ := inWide.longest name (sub name mem) b read
      rw [hw] at hc
      exact nomatch hc
  | some r =>
    obtain ⟨name, -, read⟩ := inWide.read r hw
    obtain ⟨rfl, -⟩ := name_of_tagNamed? read
    obtain ⟨b, hb, short⟩ := inNarrow.longest r.1 (used r hw) r read
    obtain ⟨other, mem, readB⟩ := inNarrow.read b hb
    obtain ⟨c, hc, long⟩ := inWide.longest other (sub other mem) b readB
    rw [hw] at hc
    rw [← Option.some.inj hc] at long
    rw [hb, eq_of_tagNamed? readB read (Nat.le_antisymm long short)]

theorem findSome?_anyTag?_narrow {ds : List (List Char)}
    (used : ∀ r, ds.findSome? (anyTag? wide) = some r → r.1 ∈ narrow) :
    ds.findSome? (anyTag? narrow) = ds.findSome? (anyTag? wide) := by
  induction ds with
  | nil => rfl
  | cons d ds ih =>
    rw [List.findSome?_cons, List.findSome?_cons]
    rw [List.findSome?_cons] at used
    cases hw : anyTag? wide d with
    | some r =>
      have same := anyTag?_narrow sub fun q hq => by
        rw [hw] at used hq
        exact used q hq
      rw [same, hw]
    | none =>
      rw [hw] at used
      have same := anyTag?_narrow sub fun q (hq : anyTag? wide d = some q) => by
        rw [hw] at hq
        exact nomatch hq
      rw [same, hw]
      exact ih used

theorem spacedTag?_narrow {cs : List Char}
    (used : ∀ r, spacedTag? wide cs = some r → r.1 ∈ narrow) :
    spacedTag? narrow cs = spacedTag? wide cs :=
  findSome?_anyTag?_narrow sub used

theorem tag?_narrow {cs : List Char}
    (used : ∀ r, tag? wide cs = some r → ∀ name, r.1.tagName? = some name → name ∈ narrow) :
    tag? narrow cs = tag? wide cs := by
  have plain {before : Bool} {ds : List Char}
      (used : ∀ r,
        (spacedTag? wide ds).map (fun t => (tag before t.2.2.1 t.1 t.2.1, t.2.2.2)) = some r →
          ∀ name, r.1.tagName? = some name → name ∈ narrow) :
      spacedTag? narrow ds = spacedTag? wide ds := by
    refine spacedTag?_narrow sub fun r hr => ?_
    rw [hr] at used
    exact used _ rfl _ rfl
  unfold tag? at used ⊢
  split
  · rename_i inner
    simp only at used
    cases hw : spacedTag? wide inner with
    | some r =>
      rw [hw] at used
      have same : spacedTag? narrow inner = spacedTag? wide inner :=
        spacedTag?_narrow sub fun q hq => by
          rw [hw] at hq
          rw [← Option.some.inj hq]
          exact used _ rfl _ rfl
      rw [same, hw]
    | none =>
      rw [hw] at used
      have same : spacedTag? narrow inner = spacedTag? wide inner :=
        spacedTag?_narrow sub fun q hq => by
          rw [hw] at hq
          cases hq
      rw [same, hw, plain used]
  · rename_i other
    split at used
    · exact absurd rfl (other _)
    · rw [plain used]

theorem scan_narrow {c : Char} {cs : List Char}
    (used : ∀ name, (scan wide c cs).1.tagName? = some name → name ∈ narrow) :
    scan narrow c cs = scan wide c cs := by
  unfold scan at used ⊢
  split
  · rename_i inner
    have same : tag? narrow inner = tag? wide inner := by
      refine tag?_narrow sub fun r hr name hname => used name ?_
      change ((tag? wide inner).getD _).1.tagName? = some name
      rw [hr, Option.getD_some]
      exact hname
    rw [same]
  · rfl
  · rfl

/-- A text that uses the tags of the smaller vocabulary alone is read in the same way with both. -/
theorem all_narrow {cs : List Char}
    (used : ∀ l ∈ all wide cs, ∀ name, l.1.tagName? = some name → name ∈ narrow) :
    all narrow cs = all wide cs := by
  induction cs using all.induct wide with
  | case1 => rw [all, all]
  | case2 c cs read ih =>
    rw [all] at used
    have first : scan narrow c cs = scan wide c cs :=
      scan_narrow sub fun name => used (_, _) List.mem_cons_self name
    have rest := ih fun l hl => used l (List.mem_cons_of_mem _ hl)
    rw [all, all, first]
    exact congrArg _ rest

end Narrow

end Stencil.Template.Lexeme

namespace Stencil.Template

variable {K : String → Prop}

namespace Token

theorem kind_of_mem_place {position : Nat} {margin : Margin} {ls : List (Lexeme × List Char)}
    (h : ∀ l ∈ ls, K (ofLexeme 0 0 l.1).kind) : ∀ t ∈ place position margin ls, K t.kind := by
  induction ls generalizing position margin with
  | nil => exact nofun
  | cons l ls ih =>
    obtain ⟨lexeme, source⟩ := l
    have first := h (lexeme, source) List.mem_cons_self
    intro t ht
    rcases List.mem_cons.1 ht with rfl | ht
    · cases lexeme <;> exact first
    · exact ih (fun l hl => h l (List.mem_cons_of_mem _ hl)) t ht

theorem kind_of_obey {before after : Bool} {t t' : Token} (h : t.obey before after = .ok t') :
    t'.kind = t.kind := by
  unfold obey at h
  simp only at h
  split at h
  · split at h
    · rw [← Except.ok.inj h]
    · exact nomatch h
  · rw [← Except.ok.inj h]

theorem kind_of_mem_obeyAll {before : Bool} {ts ts' : List Token}
    (h : obeyAll before ts = .ok ts') (hk : ∀ t ∈ ts, K t.kind) : ∀ t ∈ ts', K t.kind := by
  induction ts generalizing before ts' with
  | nil =>
    rw [← Except.ok.inj h]
    exact nofun
  | cons t ts ih =>
    obtain ⟨first, hfirst, h₁⟩ := exists_of_bind_eq_ok h
    obtain ⟨rest, hrest, h₂⟩ := exists_of_bind_eq_ok h₁
    rw [← Except.ok.inj h₂]
    intro u hu
    rcases List.mem_cons.1 hu with rfl | hu
    · rw [kind_of_obey hfirst]
      exact hk t List.mem_cons_self
    · exact ih hrest (fun t ht => hk t (List.mem_cons_of_mem _ ht)) u hu

theorem kind_of_mem_ofText {tags : List Tag} {text : String} {ts : List Token}
    (h : ofText tags text = .ok ts)
    (hk : ∀ l ∈ Lexeme.all (tags.map fun t => t.name.toList) text.toList,
      K (ofLexeme 0 0 l.1).kind) : ∀ t ∈ ts, K t.kind :=
  kind_of_mem_obeyAll h (kind_of_mem_place hk)

end Token

structure OpenBlock.Kinds (K : String → Prop) (b : OpenBlock) : Prop where
  kind : K b.kind
  children : ∀ n ∈ b.children, Node.Every (fun n => K n.kind) n

theorem OpenBlock.Kinds.close {b : OpenBlock} (h : b.Kinds K) :
    Node.Every (fun n => K n.kind) b.close :=
  .of_children h.kind fun c hc => h.children c (List.mem_reverse.1 hc)

theorem OpenBlock.Kinds.add {b : OpenBlock} (h : b.Kinds K) {n : Node}
    (hn : Node.Every (fun n => K n.kind) n) : (b.add n).Kinds K where
  kind := h.kind
  children m hm := by
    rcases List.mem_cons.1 hm with rfl | hm
    · exact hn
    · exact h.children m hm

structure OpenScope.Kinds (K : String → Prop) (s : OpenScope) : Prop where
  current : s.current.Kinds K
  earlier : ∀ b ∈ s.earlier, b.Kinds K

theorem OpenScope.Kinds.close {s : OpenScope} (h : s.Kinds K) :
    Node.Every (fun n => K n.kind) s.close := by
  suffices ∀ (bs : List OpenBlock) (inner : Node), (∀ b ∈ bs, b.Kinds K) →
      Node.Every (fun n => K n.kind) inner →
      Node.Every (fun n => K n.kind) (bs.foldl (fun inner b => (b.add inner).close) inner) from
    this s.earlier _ h.earlier h.current.close
  intro bs
  induction bs with
  | nil => exact fun _ _ hi => hi
  | cons b bs ih =>
    intro inner hb hi
    exact ih _ (fun c hc => hb c (List.mem_cons_of_mem _ hc))
      ((hb b List.mem_cons_self).add hi).close

namespace Builder

structure Kinds (K : String → Prop) (b : Builder) : Prop where
  roots : ∀ n ∈ b.roots, Node.Every (fun n => K n.kind) n
  scopes : ∀ s ∈ b.scopes, s.Kinds K

namespace Kinds

variable {b : Builder}

theorem add (h : b.Kinds K) {n : Node} (hn : Node.Every (fun n => K n.kind) n) :
    (b.add n).Kinds K := by
  obtain ⟨roots, scopes⟩ := b
  cases scopes with
  | nil =>
    refine ⟨fun m hm => ?_, nofun⟩
    rcases List.mem_cons.1 hm with rfl | hm
    · exact hn
    · exact h.roots m hm
  | cons s rest =>
    have hs := h.scopes s List.mem_cons_self
    refine ⟨h.roots, fun t ht => ?_⟩
    rcases List.mem_cons.1 ht with rfl | ht
    · exact ⟨hs.current.add hn, hs.earlier⟩
    · exact h.scopes t (List.mem_cons_of_mem _ ht)

theorem push (h : b.Kinds K) {s : OpenScope} {rest : List OpenScope} (hs : s.Kinds K)
    (sub : ∀ t ∈ rest, t ∈ b.scopes) : ({ b with scopes := s :: rest } : Builder).Kinds K := by
  refine ⟨h.roots, fun t ht => ?_⟩
  rcases List.mem_cons.1 ht with rfl | ht
  · exact hs
  · exact h.scopes t (sub t ht)

end Kinds

theorem every_leafOf (text : K "text") {t : Token} (ht : K t.kind) :
    Node.Every (fun n => K n.kind) (leafOf t) := by
  unfold leafOf
  split
  · exact .of_children text nofun
  · exact .of_children ht nofun

theorem kinds_ofToken {t : Token} (ht : K t.kind) : (OpenBlock.ofToken t).Kinds K :=
  ⟨ht, nofun⟩

theorem kinds_step (text : K "text") {tags : List Tag} {b b' : Builder} {t : Token}
    (h : b.Kinds K) (ht : K t.kind) (hb : step tags b t = .ok b') : b'.Kinds K := by
  have all {s : OpenScope} {rest : List OpenScope} (hs : b.scopes = s :: rest) :
      s.Kinds K ∧ ∀ r ∈ rest, r ∈ b.scopes := by
    rw [hs]
    refine ⟨h.scopes s ?_, fun r hr => List.mem_cons_of_mem _ hr⟩
    rw [hs]
    exact List.mem_cons_self
  unfold step at hb
  simp only at hb
  split at hb
  · rw [← Except.ok.inj hb]
    exact h.push ⟨kinds_ofToken ht, nofun⟩ fun _ hr => hr
  · split at hb
    · exact nomatch hb
    · rename_i s rest hs
      obtain ⟨inner, sub⟩ := all hs
      rw [← Except.ok.inj hb]
      refine h.push ⟨kinds_ofToken ht, fun c hc => ?_⟩ sub
      rcases List.mem_cons.1 hc with rfl | hc
      · exact inner.current
      · exact inner.earlier c hc
  · split at hb
    · exact nomatch hb
    · rename_i s rest hs
      obtain ⟨inner, sub⟩ := all hs
      rw [← Except.ok.inj hb]
      have outer : ({ b with scopes := rest } : Builder).Kinds K :=
        ⟨h.roots, fun r hr => h.scopes r (sub r hr)⟩
      exact outer.add inner.close
  · rw [← Except.ok.inj hb]
    exact h.add (every_leafOf text ht)

theorem kinds_steps (text : K "text") {tags : List Tag} {ts : List Token} {b b' : Builder}
    (h : b.Kinds K) (ht : ∀ t ∈ ts, K t.kind) (hb : ts.foldlM (step tags) b = .ok b') :
    b'.Kinds K := by
  induction ts generalizing b with
  | nil =>
    rw [← Except.ok.inj hb]
    exact h
  | cons t ts ih =>
    rw [List.foldlM_cons] at hb
    obtain ⟨next, hnext, hb⟩ := exists_of_bind_eq_ok hb
    exact ih (kinds_step text h (ht t List.mem_cons_self) hnext)
      (fun u hu => ht u (List.mem_cons_of_mem _ hu)) hb

theorem every_closeScopes {scopes : List OpenScope} (h : ∀ s ∈ scopes, s.Kinds K) :
    ∀ n ∈ closeScopes scopes, Node.Every (fun n => K n.kind) n := by
  unfold closeScopes
  refine List.foldlRecOn (motive := fun inner =>
    ∀ n ∈ inner, Node.Every (fun n => K n.kind) n) scopes _ (fun n hn => by cases hn) ?_
  intro inner hi s hs n hn
  have first := h s hs
  rw [← Option.some.inj hn]
  cases inner with
  | none => exact first.close
  | some m => exact OpenScope.Kinds.close ⟨first.current.add (hi m rfl), first.earlier⟩

end Builder

theorem Forest.every_ofTokens (text : K "text") {tags : List Tag} {ts : List Token}
    {forest : Forest} (ht : ∀ t ∈ ts, K t.kind) (h : Forest.ofTokens tags ts = .ok forest) :
    ∀ n ∈ forest.roots, Node.Every (fun n => K n.kind) n := by
  unfold Forest.ofTokens at h
  cases hb : ts.foldlM (Builder.step tags) Builder.empty with
  | error e =>
    rw [hb] at h
    exact nomatch h
  | ok b =>
    rw [hb] at h
    have initial : Builder.empty.Kinds K :=
      ⟨fun _ h => absurd h List.not_mem_nil, fun _ h => absurd h List.not_mem_nil⟩
    have kinds := Builder.kinds_steps text initial ht hb
    rw [← Except.ok.inj h]
    intro n hn
    rcases List.mem_append.1 hn with hn | hn
    · exact kinds.roots n (List.mem_reverse.1 hn)
    · exact Builder.every_closeScopes kinds.scopes n (Option.mem_toList.1 hn)

theorem Forest.ofTokens_congr {tags tags' : List Tag} {ts : List Token}
    (h : ∀ t ∈ ts, Tag.find? tags t.kind = Tag.find? tags' t.kind) :
    Forest.ofTokens tags ts = Forest.ofTokens tags' ts := by
  have steps : ∀ b, ts.foldlM (Builder.step tags) b = ts.foldlM (Builder.step tags') b := by
    induction ts with
    | nil => exact fun _ => rfl
    | cons t ts ih =>
      intro b
      rw [List.foldlM_cons, List.foldlM_cons]
      have first : Builder.step tags b t = Builder.step tags' b t := by
        unfold Builder.step
        rw [h t List.mem_cons_self]
      rw [first]
      congr
      funext b'
      exact ih (fun u hu => h u (List.mem_cons_of_mem _ hu)) b'
  unfold Forest.ofTokens
  rw [steps]

end Stencil.Template
