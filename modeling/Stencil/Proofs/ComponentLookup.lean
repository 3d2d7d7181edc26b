import Mathlib.Data.List.Infix
import Stencil.Component

set_option autoImplicit false

/-!
# Where components are found

The name of a component leads to one place, and the component is the file there or the file beside
it whose name carries the extension. Whichever of the two there is, is found, the plain name first:
only a directory of the plain name hides the other file.
-/

namespace Stencil

namespace Path

/-- A name as it stands in a path once the path is read. -/
structure IsPart (part : String) : Prop where
  nonempty : part ≠ ""
  notHere : part ≠ "."
  uncut : '/' ∉ part.toList

/-- A name that something in a directory can have. -/
structure IsName (name : String) : Prop extends IsPart name where
  notUp : name ≠ ".."

section Parts

variable {p q : Path} {part extension : String}

theorem not_mem_of_mem_splitAt {sep : Char} {cs : List Char} {piece : List Char}
    (h : piece ∈ splitAt sep cs) : sep ∉ piece := by
  induction cs generalizing piece with
  | nil =>
    rw [splitAt, List.mem_singleton] at h
    exact h ▸ List.not_mem_nil
  | cons c cs ih =>
    rw [splitAt] at h
    split at h
    · rcases List.mem_cons.1 h with rfl | later
      · exact List.not_mem_nil
      · exact ih later
    · rename_i other
      have apart : sep ≠ c := fun same => other (beq_iff_eq.2 same.symm)
      split at h
      · rw [List.mem_singleton] at h
        exact h ▸ fun mem => apart (List.mem_singleton.1 mem)
      · rename_i first others cut
        rcases List.mem_cons.1 h with rfl | later
        · exact List.not_mem_cons_of_ne_of_not_mem apart (ih (cut ▸ List.mem_cons_self))
        · exact ih (cut ▸ List.mem_cons_of_mem _ later)

theorem isPart_of_mem_ofString {s : String} (h : part ∈ (ofString s).parts) : IsPart part := by
  obtain ⟨read, kept⟩ := List.mem_filter.1 h
  obtain ⟨piece, mem, rfl⟩ := List.mem_map.1 read
  simp only [Bool.and_eq_true, bne_iff_ne] at kept
  refine ⟨kept.1, kept.2, ?_⟩
  rw [String.toList_ofList]
  exact not_mem_of_mem_splitAt mem

theorem isPart_of_mem_join (hp : ∀ part ∈ p.parts, IsPart part) (hq : ∀ part ∈ q.parts, IsPart part)
    (h : part ∈ (p.join q).parts) : IsPart part := by
  unfold join at h
  split at h
  · exact hq part h
  · exact (List.mem_append.1 h).elim (hp part) (hq part)

theorem isName_of_mem_collapse {parts : List String} (h : ∀ part ∈ parts, IsPart part) :
    ∀ name ∈ collapse parts, IsName name := by
  unfold collapse
  refine List.foldlRecOn (motive := fun done => ∀ name ∈ done, IsName name) parts _
    (List.forall_mem_nil _) fun done named part mem name hname => ?_
  by_cases up : part = ".."
  · rw [if_pos up] at hname
    exact named name (List.mem_of_mem_dropLast hname)
  · rw [if_neg up] at hname
    rcases List.mem_append.1 hname with before | last
    · exact named name before
    · rw [List.mem_singleton.1 last]
      exact ⟨h part mem, up⟩

theorem IsName.append (h : IsName part) (uncut : '/' ∉ extension.toList) :
    IsName (part ++ extension) := by
  have undotted : ¬ part.toList <+: ['.', '.'] := by
    rw [List.prefix_cons_iff]
    rintro (empty | ⟨rest, one, two⟩)
    · exact h.nonempty (String.toList_inj.1 empty)
    · rcases List.prefix_cons_iff.1 two with rfl | ⟨_, rfl, none⟩
      · exact h.notHere (String.toList_inj.1 one)
      · rw [List.prefix_nil.1 none] at one
        exact h.notUp (String.toList_inj.1 one)
  have apart {dots : String} (dotted : dots.toList <+: ['.', '.']) : part ++ extension ≠ dots := by
    rintro rfl
    rw [String.toList_append] at dotted
    exact undotted ((List.prefix_append _ _).trans dotted)
  refine ⟨⟨apart (by decide), apart (by decide), ?_⟩, apart (by decide)⟩
  rw [String.toList_append]
  exact fun mem => (List.mem_append.1 mem).elim h.uncut uncut

def extend (p : Path) (extension : String) : Path :=
  { p with parts := p.parts.dropLast ++ [p.name ++ extension] }

theorem name_mem (h : p.parts ≠ []) : p.name ∈ p.parts := by
  unfold name
  rw [List.getLast?_eq_some_getLast h]
  exact List.getLast_mem h

structure Resolved (p : Path) : Prop where
  rooted : p.root = "/"
  named : ∀ name ∈ p.parts, IsName name

theorem Resolved.extend (h : p.Resolved) (last : p.parts ≠ []) (uncut : '/' ∉ extension.toList) :
    (p.extend extension).Resolved where
  rooted := h.rooted
  named name mem := by
    rcases List.mem_append.1 mem with before | final
    · exact h.named name (List.mem_of_mem_dropLast before)
    · rw [List.mem_singleton.1 final]
      exact (h.named p.name (name_mem last)).append uncut

end Parts

end Path

namespace FileTree

variable {t : FileTree} {names : List String}

def HasFile (t : FileTree) (names : List String) : Prop :=
  ∃ contents, (names, contents) ∈ t.files

/-- No directory has the names of a file, and the working directory has names that lead to it. -/
structure Sound (t : FileTree) : Prop where
  apart : ∀ f ∈ t.files, t.isDirectoryAt f.1 = false
  working : ∀ name ∈ t.workingDirectory, Path.IsName name

theorem isDirectoryAt_iff : t.isDirectoryAt names = true ↔
    names = [] ∨ names <+: t.workingDirectory ∨ (∃ d ∈ t.directories, names <+: d) ∨
      ∃ f ∈ t.files, names <+: f.1 ∧ names.length < f.1.length := by
  simp only [isDirectoryAt, Bool.or_eq_true, List.isEmpty_iff, List.isPrefixOf_iff_prefix,
    List.any_eq_true, Bool.and_eq_true, decide_eq_true_eq, or_assoc]

theorem isDirectoryAt_of_prefix {above : List String} (h : t.isDirectoryAt names = true)
    (le : above <+: names) : t.isDirectoryAt above = true := by
  rw [isDirectoryAt_iff] at h ⊢
  rcases h with rfl | working | ⟨d, mem, listed⟩ | ⟨f, mem, holds, shorter⟩
  · exact .inl (List.prefix_nil.1 le)
  · exact .inr (.inl (le.trans working))
  · exact .inr (.inr (.inl ⟨d, mem, le.trans listed⟩))
  · exact .inr (.inr (.inr ⟨f, mem, le.trans holds, Nat.lt_of_le_of_lt le.length_le shorter⟩))

theorem entry?_cases (sound : t.Sound) (names : List String) :
    t.isDirectoryAt names = true ∧ ¬ t.HasFile names ∧ t.entry? names = some .directory ∨
      (∃ contents, t.isDirectoryAt names = false ∧ (names, contents) ∈ t.files ∧
        t.entry? names = some (.file contents)) ∨
      t.isDirectoryAt names = false ∧ ¬ t.HasFile names ∧ t.entry? names = none := by
  unfold entry?
  cases found : t.files.find? fun f => f.1 == names with
  | some f =>
    obtain ⟨others, contents⟩ := f
    have mem := List.mem_of_find?_eq_some found
    have same := List.find?_some found
    obtain rfl : others = names := beq_iff_eq.1 same
    exact .inr (.inl ⟨contents, sound.apart _ mem, mem, rfl⟩)
  | none =>
    have noFile : ¬ t.HasFile names := fun ⟨contents, mem⟩ =>
      List.find?_eq_none.1 found _ mem (beq_self_eq_true names)
    by_cases directory : t.isDirectoryAt names = true
    · exact .inl ⟨directory, noFile, if_pos directory⟩
    · exact .inr (.inr ⟨Bool.eq_false_iff.2 directory, noFile, if_neg directory⟩)

theorem entry?_of_isDirectoryAt (sound : t.Sound) (h : t.isDirectoryAt names = true) :
    t.entry? names = some .directory := by
  obtain ⟨-, -, here⟩ | ⟨_, none, -⟩ | ⟨none, -⟩ := entry?_cases sound names
  · exact here
  · exact nomatch none.symm.trans h
  · exact nomatch none.symm.trans h

theorem isDirectoryAt_above (sound : t.Sound) {above : List String}
    (something : t.entry? names ≠ none) (le : above <+: names)
    (shorter : above.length < names.length) :
    t.isDirectoryAt above = true := by
  obtain ⟨directory, -⟩ | ⟨contents, -, mem, -⟩ | ⟨-, -, nothing⟩ := entry?_cases sound names
  · exact isDirectoryAt_of_prefix directory le
  · exact isDirectoryAt_iff.2 (.inr (.inr (.inr ⟨_, mem, le, shorter⟩)))
  · exact absurd nothing something

theorem eq_of_follow {start parts found : List String} (down : ".." ∉ parts)
    (h : t.follow start parts = some found) : found = start ++ parts := by
  induction parts generalizing start with
  | nil => rw [List.append_nil, Option.some.inj h]
  | cons part parts ih =>
    rw [follow, if_neg (List.ne_of_not_mem_cons down).symm] at h
    split at h
    · rw [ih (List.not_mem_of_not_mem_cons down) h, List.append_assoc, List.singleton_append]
    · exact nomatch h

theorem follow_of_isDirectoryAt (sound : t.Sound) {start parts : List String} (down : ".." ∉ parts)
    (h : ∀ above, above <+: start ++ parts → above.length < (start ++ parts).length →
      t.isDirectoryAt above = true) : t.follow start parts = some (start ++ parts) := by
  induction parts generalizing start with
  | nil => rw [follow, List.append_nil]
  | cons part parts ih =>
    have here := entry?_of_isDirectoryAt sound (h start (List.prefix_append _ _) (by simp))
    rw [follow, here, if_neg (List.ne_of_not_mem_cons down).symm]
    have split : start ++ part :: parts = start ++ [part] ++ parts := by simp
    rw [split] at h ⊢
    exact ih (List.not_mem_of_not_mem_cons down) h

theorem lookup?_resolved (sound : t.Sound) {p : Path} (path : p.Resolved) :
    t.lookup? p = t.entry? p.parts := by
  have down : ".." ∉ p.parts := fun mem => (path.named _ mem).notUp rfl
  have start : t.startOf p = [] := by
    unfold startOf Path.isAbsolute
    rw [path.rooted]
    rfl
  unfold lookup? locate
  rw [start]
  cases followed : t.follow [] p.parts with
  | some found => rw [eq_of_follow down followed, List.nil_append, Option.bind_some]
  | none =>
    by_contra something
    have reached : t.follow [] p.parts = some ([] ++ p.parts) :=
      follow_of_isDirectoryAt sound down fun _ => isDirectoryAt_above sound (Ne.symm something)
    exact nomatch followed.symm.trans reached

theorem isFile_iff (sound : t.Sound) {p : Path} (path : p.Resolved) :
    t.isFile p = true ↔ t.HasFile p.parts := by
  unfold isFile
  rw [lookup?_resolved sound path]
  obtain ⟨-, noFile, here⟩ | ⟨contents, -, mem, here⟩ | ⟨-, noFile, here⟩ :=
    entry?_cases sound p.parts
  · simp [here, noFile]
  · exact ⟨fun _ => ⟨contents, mem⟩, fun _ => by rw [here]⟩
  · simp [here, noFile]

theorem holds_of_isFile {p : Path} (file : t.isFile p = true) : t.holds p = true := by
  unfold isFile at file
  unfold holds
  split at file
  · rename_i found
    rw [found]
    rfl
  · exact nomatch file

theorem holds_iff (sound : t.Sound) {p : Path} (path : p.Resolved) :
    t.holds p = true ↔ t.isDirectoryAt p.parts = true ∨ t.HasFile p.parts := by
  unfold holds
  rw [lookup?_resolved sound path]
  obtain ⟨directory, -, here⟩ | ⟨contents, -, mem, here⟩ | ⟨noDirectory, noFile, here⟩ :=
    entry?_cases sound p.parts
  · simp [here, directory]
  · exact ⟨fun _ => .inr ⟨contents, mem⟩, fun _ => by rw [here]; rfl⟩
  · simp [here, noDirectory, noFile]

theorem exists_readText (sound : t.Sound) {p : Path} (path : p.Resolved)
    (decodable : ∀ f ∈ t.files, ∃ cs, Text.decodeUtf8 f.2 = .ok cs) (file : t.HasFile p.parts) :
    ∃ text, t.readText p = .ok text := by
  obtain ⟨-, noFile, -⟩ | ⟨contents, -, mem, here⟩ | ⟨-, noFile, -⟩ := entry?_cases sound p.parts
  · exact absurd file noFile
  · obtain ⟨cs, decoded⟩ := decodable _ mem
    refine ⟨String.ofList (Text.normalizeNewlines cs), ?_⟩
    unfold readText textOf
    rw [lookup?_resolved sound path, here]
    simp only [decoded]
  · exact absurd file noFile

theorem resolved_of_resolve (sound : t.Sound) {p q : Path}
    (parts : ∀ part ∈ p.parts, Path.IsPart part) (h : t.resolve p = .ok q) : q.Resolved := by
  unfold resolve at h
  split at h
  · exact nomatch h
  · obtain rfl := Except.ok.inj h
    refine ⟨rfl, Path.isName_of_mem_collapse fun part mem => ?_⟩
    rcases List.mem_append.1 mem with start | own
    · unfold startOf at start
      split at start
      · exact nomatch start
      · exact (sound.working part start).toIsPart
    · exact parts part own

end FileTree

namespace Component

variable {t : FileTree} {p q : Path} {current : Option String} {component extension : String}
  {indentation : Nat}

theorem isPart_of_mem_baseOf (sound : t.Sound) {part : String}
    (h : part ∈ (baseOf t current).parts) : Path.IsPart part := by
  have working (mem : part ∈ t.workingDirectory) : Path.IsPart part :=
    (sound.working part mem).toIsPart
  unfold baseOf at h
  split at h
  · split at h
    · exact working h
    · exact Path.isPart_of_mem_ofString (List.mem_of_mem_dropLast h)
  · exact working h

theorem find_of_holds (h : t.holds p = true) : find t p extension = .ok p :=
  if_pos h

theorem find_of_not_holds (h : t.holds p = false) (path : p.Resolved) (last : p.parts ≠ [])
    (uncut : '/' ∉ extension.toList) : find t p extension = .ok (p.extend extension) := by
  have whole := (path.named p.name (Path.name_mem last)).append uncut
  unfold find
  rw [h, if_neg Bool.false_ne_true]
  simp only [List.contains_iff_mem, if_neg whole.uncut]
  rfl

theorem load_of_find
    (resolved : t.resolve ((baseOf t current).join (Path.ofString component)) = .ok p)
    (found : find t p extension = .ok q) :
    load t current component indentation extension =
      if t.isFile q then (t.readText q).map fun contents => ⟨fit indentation contents, q.text⟩
      else .error (.componentNotFound component current) := by
  unfold load
  rw [resolved]
  change (find t p extension >>= _) = _
  rw [found]
  rfl

theorem load_of_isFile {contents : String}
    (resolved : t.resolve ((baseOf t current).join (Path.ofString component)) = .ok p)
    (file : t.isFile p = true) (read : t.readText p = .ok contents) :
    load t current component indentation extension = .ok ⟨fit indentation contents, p.text⟩ := by
  rw [load_of_find resolved (find_of_holds (FileTree.holds_of_isFile file)), if_pos file, read]
  rfl

section Found

variable (indentation) (sound : t.Sound) (path : q.Resolved)
  (resolved : t.resolve ((baseOf t current).join (Path.ofString component)) = .ok p)
  (found : find t p extension = .ok q)

include sound path resolved found

theorem load_of_hasFile (decodable : ∀ f ∈ t.files, ∃ cs, Text.decodeUtf8 f.2 = .ok cs)
    (file : t.HasFile q.parts) :
    ∃ text, load t current component indentation extension =
      .ok ⟨fit indentation text, q.text⟩ := by
  obtain ⟨text, read⟩ := FileTree.exists_readText sound path decodable file
  refine ⟨text, ?_⟩
  rw [load_of_find resolved found, if_pos ((FileTree.isFile_iff sound path).2 file), read]
  rfl

theorem load_of_not_hasFile (noFile : ¬ t.HasFile q.parts) :
    load t current component indentation extension =
      .error (.componentNotFound component current) := by
  rw [load_of_find resolved found,
    if_neg fun file => noFile ((FileTree.isFile_iff sound path).1 file)]

end Found

/-- A component is not found just where a directory has its plain name, or no file has its plain
name and none the name with the extension. Otherwise it is the file of the plain name, if there is
one, and else the file of the name with the extension. -/
theorem plain_name_is_found_first (indentation : Nat) (sound : t.Sound)
    (decodable : ∀ f ∈ t.files, ∃ cs, Text.decodeUtf8 f.2 = .ok cs)
    (resolved : t.resolve ((baseOf t current).join (Path.ofString component)) = .ok p)
    (last : p.parts ≠ []) (uncut : '/' ∉ extension.toList) :
    (load t current component indentation extension =
        .error (.componentNotFound component current) ↔
      t.isDirectoryAt p.parts = true ∨
        ¬ t.HasFile p.parts ∧ ¬ t.HasFile (p.extend extension).parts) ∧
      (load t current component indentation extension ≠
          .error (.componentNotFound component current) →
        ∃ found, load t current component indentation extension = .ok found ∧
          (t.HasFile p.parts → found.path = p.text) ∧
          (¬ t.HasFile p.parts → found.path = (p.extend extension).text)) := by
  have plain : p.Resolved := FileTree.resolved_of_resolve sound
    (fun part => Path.isPart_of_mem_join (fun _ => isPart_of_mem_baseOf sound)
      fun _ => Path.isPart_of_mem_ofString) resolved
  have extended : (p.extend extension).Resolved := plain.extend last uncut
  obtain ⟨directory, noFile, -⟩ | ⟨contents, noDirectory, mem, -⟩ | ⟨noDirectory, noFile, -⟩ :=
    FileTree.entry?_cases sound p.parts
  · have found : find t p extension = .ok p :=
      find_of_holds ((FileTree.holds_iff sound plain).2 (.inl directory))
    have missed := load_of_not_hasFile indentation sound plain resolved found noFile
    exact ⟨⟨fun _ => .inl directory, fun _ => missed⟩, absurd missed⟩
  · have file : t.HasFile p.parts := ⟨contents, mem⟩
    have found : find t p extension = .ok p :=
      find_of_holds ((FileTree.holds_iff sound plain).2 (.inr file))
    obtain ⟨text, loaded⟩ := load_of_hasFile indentation sound plain resolved found
      decodable file
    rw [loaded]
    simp [noDirectory, file]
  · have nothing : t.holds p = false := by
      rw [← Bool.not_eq_true, FileTree.holds_iff sound plain]
      simp [noDirectory, noFile]
    have found := find_of_not_holds nothing plain last uncut
    by_cases file : t.HasFile (p.extend extension).parts
    · obtain ⟨text, loaded⟩ := load_of_hasFile indentation sound extended resolved
        found decodable file
      rw [loaded]
      simp [noDirectory, noFile, file]
    · have missed := load_of_not_hasFile indentation sound extended resolved found
        file
      exact ⟨⟨fun _ => .inr ⟨noFile, file⟩, fun _ => missed⟩, absurd missed⟩

section Example

def partSite (directory : String) : FileTree :=
  ⟨[(["ROOT", "part.liquid"], [120])], [["ROOT", directory]], ["ROOT"]⟩

def partName : String := "./gone/../part"

def partPage : Option String := some "/ROOT/page.liquid"

def plainPart : Path := ⟨"/", ["ROOT", "part"]⟩

theorem sound_partSite {directory : String}
    (apart : (partSite directory).isDirectoryAt ["ROOT", "part.liquid"] = false) :
    (partSite directory).Sound where
  apart f mem := by rwa [List.mem_singleton.1 mem]
  working name mem := by
    rw [List.mem_singleton.1 mem]
    exact ⟨⟨by decide, by decide, by decide⟩, by decide⟩

theorem decodable_partSite (directory : String) :
    ∀ f ∈ (partSite directory).files, ∃ cs, Text.decodeUtf8 f.2 = .ok cs := by
  intro f mem
  rw [List.mem_singleton.1 mem]
  exact ⟨['x'], by rfl⟩

theorem resolve_part (directory : String) :
    (partSite directory).resolve
      ((baseOf (partSite directory) partPage).join (Path.ofString partName)) = .ok plainPart := by
  have named : Path.ofString partName = ⟨"", ["gone", "..", "part"]⟩ := by decide
  have base : baseOf (partSite directory) partPage = ⟨"/", ["ROOT"]⟩ := by
    have parent : (Path.ofString "/ROOT/page.liquid").parent = ⟨"/", ["ROOT"]⟩ := by decide
    exact parent
  rw [named, base]
  rfl

theorem hasFile_part_iff {directory : String} {names : List String} :
    (partSite directory).HasFile names ↔ names = ["ROOT", "part.liquid"] := by
  simp [FileTree.HasFile, partSite]

theorem part_is_found :
    (partSite "parts").Sound ∧
      (∀ f ∈ (partSite "parts").files, ∃ cs, Text.decodeUtf8 f.2 = .ok cs) ∧
      (partSite "parts").resolve
        ((baseOf (partSite "parts") partPage).join (Path.ofString partName)) = .ok plainPart ∧
      plainPart.parts ≠ [] ∧ '/' ∉ ".liquid".toList ∧
      ∃ found, load (partSite "parts") partPage partName 2 ".liquid" = .ok found ∧
        found.path = "/ROOT/part.liquid" := by
  have sound : (partSite "parts").Sound := sound_partSite (by decide)
  have decodable := decodable_partSite "parts"
  have resolved := resolve_part "parts"
  have last : plainPart.parts ≠ [] := by decide
  have uncut : '/' ∉ ".liquid".toList := by decide
  have noFile : ¬ (partSite "parts").HasFile plainPart.parts :=
    fun file => absurd (hasFile_part_iff.1 file) (by decide)
  have file : (partSite "parts").HasFile (plainPart.extend ".liquid").parts :=
    hasFile_part_iff.2 (by decide)
  obtain ⟨missed, otherwise⟩ := plain_name_is_found_first 2 sound decodable resolved
    last uncut
  obtain ⟨found, loaded, -, extended⟩ := otherwise fun h =>
    (missed.1 h).elim (by decide) fun neither => neither.2 file
  refine ⟨sound, decodable, resolved, last, uncut, found, loaded, ?_⟩
  rw [extended noFile]
  decide

/-- The directory is no component, and still the file beside it is not looked for. -/
theorem directory_hides_part :
    (partSite "part").Sound ∧
      (∀ f ∈ (partSite "part").files, ∃ cs, Text.decodeUtf8 f.2 = .ok cs) ∧
      (partSite "part").resolve
        ((baseOf (partSite "part") partPage).join (Path.ofString partName)) = .ok plainPart ∧
      (partSite "part").HasFile (plainPart.extend ".liquid").parts ∧
      load (partSite "part") partPage partName 2 ".liquid" =
        .error (.componentNotFound partName partPage) := by
  have resolved := resolve_part "part"
  refine ⟨sound_partSite (by decide), decodable_partSite "part", resolved,
    hasFile_part_iff.2 (by decide), ?_⟩
  rw [load_of_find resolved (find_of_holds (by decide)), if_neg (by decide)]

end Example

end Component

end Stencil
