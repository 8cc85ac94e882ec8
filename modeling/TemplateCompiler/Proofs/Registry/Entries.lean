import TemplateCompiler.Proofs.Path.Requests

/-!
# The files of tags

Where the files of tags are found: below the `components` directory of a directory above the template
(`IsFoundFrom`), whether the directories are read anew (`isFoundFrom_of_lookupFresh`) or remembered from earlier
lookups (`isFoundFrom_of_lookup`).
-/

namespace TemplateCompiler

open Path (Part)

/-- A name that a file can have. -/
def IsFileName (name : String) : Prop := '/' ∉ name.toList ∧ name ≠ "" ∧ name ≠ "." ∧ name ≠ ".."

/-- The names in the directories of a disk are names that files can have. -/
def Disk.IsNamed (disk : Disk) : Prop :=
  ∀ p es, disk.find? p = some (.directory es) →
    ∀ e ∈ es, IsFileName e.1 ∧ ∀ f ∈ e.2.entries, IsFileName f.1

/-! ## Names of files -/

theorem IsFileName.segments_eq {name : String} (h : IsFileName name) : (Path.mk name).segments = [name] := by
  rw [Path.segments, Path.splitFrom_of_not_mem h.1]
  simp

theorem IsFileName.inner_eq {name : String} (h : IsFileName name) : (Path.mk name).inner = [.name name] := by
  have hpart : Path.partOf? name = some (.name name) := by
    obtain ⟨-, hempty, hdot, hup⟩ := h
    simp [Path.partOf?, hempty, hdot, hup]
  rw [Path.inner, h.segments_eq, List.filterMap_cons_some hpart, List.filterMap_nil]

theorem IsFileName.isAbsolute_eq {name : String} (h : IsFileName name) : (Path.mk name).isAbsolute = false := by
  rw [Bool.eq_false_iff]
  intro habsolute
  exact h.2.1 ((Path.isAbsolute_iff_of_segments h.segments_eq).mp habsolute).1

theorem IsFileName.fileName_eq {name : String} (h : IsFileName name) : (Path.mk name).fileName = some name := by
  have hdot : (Path.mk name).segments.head? ≠ some "." := by
    rw [h.segments_eq]
    exact fun heq => h.2.2.1 (Option.some.inj heq)
  have hparts : (Path.mk name).parts = [.name name] := by
    rw [Path.parts_eq, h.isAbsolute_eq, if_neg Bool.false_ne_true, if_neg hdot, h.inner_eq]
    rfl
  rw [Path.fileName, hparts]
  rfl

-- A name is its stem, and behind a dot its extension.
theorem Path.toList_splitName {name extension : String} (h : (splitName name).2 = some extension) :
    name.toList = (splitName name).1.toList ++ '.' :: extension.toList := by
  unfold splitName at h ⊢
  cases hdrop : name.toList.reverse.dropWhile (· != '.') with
  | nil => simp [hdrop] at h
  | cons c stem =>
    have hc : c = '.' := by
      have hhead := List.head?_dropWhile_not (· != '.') name.toList.reverse
      rw [hdrop] at hhead
      simpa using hhead
    simp only [hdrop] at h ⊢
    split at h
    · cases h
    · cases h
      have hback := List.takeWhile_append_dropWhile (p := (· != '.')) (l := name.toList.reverse)
      rw [hdrop, hc] at hback
      have hname := congrArg List.reverse hback
      rw [List.reverse_append, List.reverse_cons, List.reverse_reverse, List.append_assoc] at hname
      rw [if_neg (by assumption), String.toList_ofList, String.toList_ofList]
      exact hname.symm

section

variable {p : Path} {name : String}

theorem parts_join_fileName (hp : p.text ≠ "") (h : IsFileName name) :
    (p.join ⟨name⟩).parts = p.parts ++ [.name name] := by
  rw [Path.parts_join hp h.isAbsolute_eq, h.inner_eq]

theorem join_text_ne (hp : p.text ≠ "") (h : IsFileName name) : (p.join ⟨name⟩).text ≠ "" := by
  intro hempty
  have hparts := parts_join_fileName hp h
  rw [Path.parts_of_text_eq hempty] at hparts
  exact List.append_ne_nil_of_right_ne_nil _ (List.cons_ne_nil _ _) hparts.symm

end

/-! ## Tags in a directory -/

namespace FileTree

theorem mem_insertByName {e f : String × FileTree} {es : List (String × FileTree)} :
    f ∈ insertByName e es ↔ f = e ∨ f ∈ es := by
  induction es with
  | nil => simp [insertByName]
  | cons g es ih =>
    rw [insertByName]
    split
    · simp
    · rw [List.mem_cons, ih, List.mem_cons, or_left_comm]

theorem mem_sortByName {f : String × FileTree} {es : List (String × FileTree)} : f ∈ sortByName es ↔ f ∈ es := by
  have hfold (sorted : List (String × FileTree)) :
      f ∈ es.foldl (fun sorted e => insertByName e sorted) sorted ↔ f ∈ sorted ∨ f ∈ es := by
    induction es generalizing sorted with
    | nil => simp
    | cons e es ih =>
      rw [List.foldl_cons, ih, mem_insertByName, List.mem_cons, or_comm (a := f = e), or_assoc]
  exact (hfold []).trans (by simp)

end FileTree

/-- The file of a tag is below a directory, and has a backslash in its way only if the tag has one in its name. -/
def TagDefinition.IsBelow (d : TagDefinition) (directory : Path) : Prop :=
  ∃ (entry : Path) (names : List String), d.entry = some entry ∧ entry.parts = directory.parts ++ names.map .name ∧
    ∀ s ∈ names, '\\' ∈ s.toList → '\\' ∈ d.name.toList

namespace FileTree

-- The template of a tag has the extension `marko`.
theorem exists_stem {name : String} {t : FileTree} (h : IsFileName name) (htemplate : isTemplate name t = true) :
    name.toList = (stemOf name).toList ++ ".marko".toList := by
  have hextension : (Path.mk name).extension = some "marko" := by
    simpa [isTemplate] using (Bool.and_eq_true_iff.mp htemplate).2
  have hstem : stemOf name = (Path.splitName name).1 := by
    rw [stemOf, Path.fileStem, h.fileName_eq]
    rfl
  rw [Path.extension, h.fileName_eq, Option.bind_some] at hextension
  rw [hstem]
  exact Path.toList_splitName hextension

theorem tagsOfEntry_file (directory : Path) (name : String) : tagsOfEntry directory (name, .file) =
    if isTemplate name .file then [.ofTemplate (stemOf name) (directory.join ⟨name⟩)] else [] := rfl

theorem tagsOfEntry_directory (directory : Path) (name : String) (inner : List (String × FileTree)) :
    tagsOfEntry directory (name, .directory inner) = (sortByName inner).filterMap fun f =>
      if isTemplate f.1 f.2 && stemOf f.1 == "index" then
        some (.ofTemplate name ((directory.join ⟨name⟩).join ⟨f.1⟩))
      else none := rfl

theorem isBelow_of_mem_tagsOfEntry {directory : Path} (hdirectory : directory.text ≠ "")
    {e : String × FileTree} (he : IsFileName e.1) (hinner : ∀ f ∈ e.2.entries, IsFileName f.1)
    {d : TagDefinition} (h : d ∈ tagsOfEntry directory e) : d.IsBelow directory := by
  obtain ⟨name, t⟩ := e
  cases t with
  | file =>
    rw [tagsOfEntry_file] at h
    split at h
    · rename_i htemplate
      rw [List.mem_singleton.mp h]
      refine ⟨_, [name], rfl, parts_join_fileName hdirectory he, fun s hs hslash => ?_⟩
      rw [List.mem_singleton.mp hs, exists_stem he htemplate, List.mem_append] at hslash
      exact hslash.resolve_right (by decide)
    · cases h
  | directory inner =>
    rw [tagsOfEntry_directory] at h
    obtain ⟨f, hf, hsome⟩ := List.mem_filterMap.mp h
    split at hsome
    · rename_i hindex
      cases hsome
      obtain ⟨htemplate, hstem⟩ := Bool.and_eq_true_iff.mp hindex
      have hname := hinner f (mem_sortByName.mp hf)
      refine ⟨_, [name, f.1], rfl, ?_, ?_⟩
      · rw [parts_join_fileName (join_text_ne hdirectory he) hname, parts_join_fileName hdirectory he]
        simp
      · intro s hs hslash
        rcases List.mem_cons.mp hs with rfl | hs
        · exact hslash
        · rw [List.mem_singleton.mp hs] at hslash
          rw [exists_stem hname htemplate, eq_of_beq hstem] at hslash
          exact absurd hslash (by decide)
    · cases hsome

end FileTree

/-! ## Lookups -/

/-- The file of a tag is below the `components` directory of a directory above a template, and has a backslash in
its way from there only if the tag has one in its name. -/
def TagDefinition.IsFoundFrom (d : TagDefinition) (p : Path) : Prop :=
  ∃ above ∈ p.ancestors, d.IsBelow (above.join ⟨"components"⟩)

theorem isFileName_components : IsFileName "components" := ⟨by decide, by decide, by decide, by decide⟩

-- What a tag is below depends on the parts of the directory only.
theorem TagDefinition.IsBelow.congr {d : TagDefinition} {p q : Path} (h : d.IsBelow p) (hparts : p.parts = q.parts) :
    d.IsBelow q := by
  obtain ⟨entry, names, hentry, hentryparts, hslash⟩ := h
  exact ⟨entry, names, hentry, hparts ▸ hentryparts, hslash⟩

theorem parts_components_ne (above : Path) : (above.join ⟨"components"⟩).parts ≠ [] := by
  by_cases habove : above.text = ""
  · rw [Path.join_of_text_eq habove]
    decide
  · rw [parts_join_fileName habove isFileName_components]
    exact List.append_ne_nil_of_right_ne_nil _ (List.cons_ne_nil _ _)

theorem mem_of_firstNamed {name : String} {tags : List TagDefinition} {d : TagDefinition}
    (h : firstNamed name tags = some d) : d ∈ tags ∧ d.name = name := by
  unfold firstNamed at h
  have hname := List.find?_some h
  exact ⟨List.mem_of_find?_eq_some h, eq_of_beq hname⟩

section

variable {disk : Disk} (hdisk : disk.IsNamed)

include hdisk

theorem isBelow_of_mem_componentsIn {directory : Path} (hdirectory : directory.parts ≠ []) {d : TagDefinition}
    (h : d ∈ disk.componentsIn directory) : d.IsBelow directory := by
  have htext : directory.text ≠ "" := fun hempty => hdirectory (Path.parts_of_text_eq hempty)
  unfold Disk.componentsIn at h
  split at h
  · rename_i es hfound
    obtain ⟨e, he, hd⟩ := List.mem_flatMap.mp h
    obtain ⟨hname, hinner⟩ := hdisk directory es hfound e (FileTree.mem_sortByName.mp he)
    exact FileTree.isBelow_of_mem_tagsOfEntry htext hname hinner hd
  · cases h

/-- A tag that is looked up with every directory read anew. -/
theorem isFoundFrom_of_lookupFresh {p : Path} {name : String} {d : TagDefinition}
    (h : disk.lookupFresh p name = some d) : d.IsFoundFrom p ∧ d.name = name := by
  obtain ⟨directory, hdirectory, hd⟩ := List.exists_of_findSome?_eq_some h
  obtain ⟨above, habove, rfl⟩ := List.mem_map.mp hdirectory
  obtain ⟨hmem, hname⟩ := mem_of_firstNamed hd
  exact ⟨⟨above, habove, isBelow_of_mem_componentsIn hdisk (parts_components_ne above) hmem⟩, hname⟩

end

/-! ## Remembered directories -/

namespace Discovery

/-- The registry after lookups, each of a name from a file. -/
def after (disk : Disk) (asked : List (Path × String)) : Discovery :=
  asked.foldl (fun r question => (r.lookup question.1 question.2).2) (.new disk)

/-- What is remembered of a directory is what is in it. -/
def IsSound (r : Discovery) : Prop := ∀ e ∈ r.found, e.2 = r.disk.componentsIn e.1

theorem tagsIn_of_isSound {r : Discovery} (h : r.IsSound) (directory : Path) :
    (r.tagsIn directory).2.IsSound ∧
      ∃ spelled : Path, spelled.parts = directory.parts ∧ (r.tagsIn directory).1 = r.disk.componentsIn spelled := by
  unfold tagsIn
  cases hfind : directory.find? r.found with
  | some tags =>
    obtain ⟨e, he, rfl⟩ := Option.map_eq_some_iff.mp hfind
    have hsame := List.find?_some he
    exact ⟨h, e.1, (Path.same_iff _ _).mp hsame, h e (List.mem_of_find?_eq_some he)⟩
  | none => exact ⟨List.forall_mem_cons.mpr ⟨rfl, h⟩, directory, rfl, rfl⟩

theorem lookupIn_of_isSound {name : String} {directories : List Path} {r : Discovery} (h : r.IsSound) :
    (lookupIn name directories r).2.IsSound ∧
      ∀ d, (lookupIn name directories r).1 = some d →
        ∃ directory ∈ directories, ∃ spelled : Path, spelled.parts = directory.parts ∧
          firstNamed name (r.disk.componentsIn spelled) = some d := by
  induction directories generalizing r with
  | nil => exact ⟨h, fun d hd => nomatch hd⟩
  | cons directory directories ih =>
    obtain ⟨hsound, spelled, hparts, htags⟩ := tagsIn_of_isSound h directory
    rw [lookupIn]
    dsimp only
    split
    · rename_i tag hnamed
      rw [htags] at hnamed
      refine ⟨hsound, fun d hd => ⟨directory, List.mem_cons_self, spelled, hparts, ?_⟩⟩
      cases hd
      exact hnamed
    · obtain ⟨hrest, hfound⟩ := ih hsound
      refine ⟨hrest, fun d hd => ?_⟩
      obtain ⟨other, hother, spelled, hparts, hnamed⟩ := hfound d hd
      rw [disk_tagsIn] at hnamed
      exact ⟨other, List.mem_cons_of_mem _ hother, spelled, hparts, hnamed⟩

theorem isSound_after (disk : Disk) (asked : List (Path × String)) :
    (after disk asked).IsSound ∧ (after disk asked).disk = disk := by
  have hlookups (r : Discovery) (h : r.IsSound) :
      (asked.foldl (fun r question => (r.lookup question.1 question.2).2) r).IsSound ∧
        (asked.foldl (fun r question => (r.lookup question.1 question.2).2) r).disk = r.disk := by
    induction asked generalizing r with
    | nil => exact ⟨h, rfl⟩
    | cons question asked ih =>
      obtain ⟨hsound, hdisk⟩ := ih _ (lookupIn_of_isSound h).1
      exact ⟨hsound, hdisk.trans (disk_lookupIn _ _ r)⟩
  exact hlookups (.new disk) fun e he => (List.not_mem_nil he).elim

/-- A tag that is looked up after others. -/
theorem isFoundFrom_of_lookup {disk : Disk} (hdisk : disk.IsNamed) {asked : List (Path × String)} {p : Path}
    {name : String} {d : TagDefinition} (h : ((after disk asked).lookup p name).1 = some d) :
    d.IsFoundFrom p ∧ d.name = name := by
  obtain ⟨hsound, hsame⟩ := isSound_after disk asked
  obtain ⟨directory, hdirectory, spelled, hparts, hnamed⟩ := (lookupIn_of_isSound hsound).2 d h
  rw [hsame] at hnamed
  obtain ⟨above, habove, rfl⟩ := List.mem_map.mp hdirectory
  obtain ⟨hmem, hname⟩ := mem_of_firstNamed hnamed
  have hspelled : spelled.parts ≠ [] := hparts ▸ parts_components_ne above
  exact ⟨⟨above, habove, (isBelow_of_mem_componentsIn hdisk hspelled hmem).congr hparts⟩, hname⟩

end Discovery

end TemplateCompiler
