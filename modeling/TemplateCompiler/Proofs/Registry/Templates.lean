import TemplateCompiler.Proofs.Registry.Trees
import TemplateCompiler.Proofs.Text.LastDot

/-!
# Templates of tags

The template of a tag in a `components` directory is the index file in the directory of the tag, or else the file of
the tag (`Disk.IsTemplateIn`), and it is the one that is found (`firstNamed_componentsIn_iff`). Nothing says so but
the order in which names are read: the name of the tag comes in front of the same name with an extension
(`lt_append_marko`), and of the names in between none defines the tag.
-/

namespace TemplateCompiler

/-! ## Names of templates -/

theorem IsFileName.marko {name : String} (h : IsFileName name) : IsFileName (name ++ ".marko") := by
  have hlength (other : String) (hother : other.toList.length < 6) : name ++ ".marko" ≠ other := by
    rintro rfl
    rw [String.toList_append, List.length_append] at hother
    exact absurd hother (Nat.not_lt.mpr (Nat.le_add_left 6 _))
  refine ⟨?_, hlength "" (by decide), hlength "." (by decide), hlength ".." (by decide)⟩
  rw [String.toList_append, List.mem_append, not_or]
  exact ⟨h.1, by decide⟩

-- A directory with the name of a tag stands in front of a file with it.
theorem lt_append_marko (name : String) : name < name ++ ".marko" := by
  rw [String.lt_iff, String.toList_append]
  have hlt : name.toList ++ [] < name.toList ++ ".marko".toList := List.append_left_lt (List.nil_lt_cons _ _)
  rwa [List.append_nil] at hlt

/-! ## Sorted entries -/

namespace FileTree

/-- No entry has a smaller name than one in front of it. -/
def IsSorted (es : List (String × FileTree)) : Prop := es.Pairwise fun a b => ¬ b.1 < a.1

theorem IsSorted.insertByName {es : List (String × FileTree)} (h : IsSorted es) (e : String × FileTree) :
    IsSorted (insertByName e es) := by
  induction es with
  | nil => exact List.pairwise_singleton _ e
  | cons f es ih =>
    obtain ⟨hf, hes⟩ := List.pairwise_cons.mp h
    rw [FileTree.insertByName]
    split
    · rename_i hlt
      refine List.pairwise_cons.mpr ⟨List.forall_mem_cons.mpr ⟨String.lt_asymm hlt, fun g hg hge => ?_⟩, h⟩
      exact hf g hg (String.lt_trans hge hlt)
    · rename_i hge
      refine List.pairwise_cons.mpr ⟨fun g hg => ?_, ih hes⟩
      rcases mem_insertByName.mp hg with rfl | hg
      · exact hge
      · exact hf g hg

theorem isSorted_sortByName (es : List (String × FileTree)) : IsSorted (sortByName es) := by
  have hfold (sorted : List (String × FileTree)) (h : IsSorted sorted) :
      IsSorted (es.foldl (fun sorted e => FileTree.insertByName e sorted) sorted) := by
    induction es generalizing sorted with
    | nil => exact h
    | cons e es ih => exact ih _ (h.insertByName e)
  exact hfold [] .nil

/-- What is found first in sorted entries is what the entry of the least name has. -/
theorem findSome?_of_isSorted {es : List (String × FileTree)} (hes : IsSorted es) {α : Type}
    {f : String × FileTree → Option α} {e : String × FileTree} (he : e ∈ es) {a : α} (ha : f e = some a)
    (hfirst : ∀ g ∈ es, ∀ b, f g = some b → b = a ∨ e.1 < g.1) : es.findSome? f = some a := by
  induction es with
  | nil => exact (List.not_mem_nil he).elim
  | cons g es ih =>
    obtain ⟨hg, hes⟩ := List.pairwise_cons.mp hes
    obtain ⟨hhere, hfirst⟩ := List.forall_mem_cons.mp hfirst
    rw [List.findSome?_cons]
    cases hfound : f g with
    | some b =>
      rcases List.mem_cons.mp he with rfl | he
      · rw [← ha, hfound]
      · rcases hhere b hfound with rfl | hlt
        · rfl
        · exact absurd hlt (hg e he)
    | none =>
      rcases List.mem_cons.mp he with rfl | he
      · rw [hfound] at ha
        cases ha
      · exact ih hes he hfirst

/-! ## Templates by name -/

-- The template of a tag is the file of its name with the extension `marko`.
theorem isTemplate_and_stemOf_iff {file name : String} (hfile : IsFileName file) (hname : name ≠ "") (t : FileTree) :
    isTemplate file t = true ∧ stemOf file = name ↔ t.isFile = true ∧ file = name ++ ".marko" := by
  constructor
  · rintro ⟨htemplate, rfl⟩
    refine ⟨(Bool.and_eq_true_iff.mp htemplate).1, String.toList_inj.mp ?_⟩
    rw [exists_stem hfile htemplate, String.toList_append]
  · rintro ⟨ht, rfl⟩
    have hdot : name ++ ".marko" = name ++ "." ++ "marko" := by
      rw [String.append_assoc, show "." ++ "marko" = ".marko" by decide]
    have hsplit : Path.splitName (name ++ ".marko") = (name, some "marko") := by
      rw [hdot]
      exact Path.splitName_append hname (by decide)
    rw [isTemplate, stemOf, Path.extension, Path.fileStem, hfile.fileName_eq, Option.bind_some, Option.map_some,
      hsplit, ht]
    exact ⟨rfl, rfl⟩

/-- What defines a tag in a `components` directory: a file of its name, or an index file in a directory of its
name. -/
theorem mem_tagsOfEntry_iff {directory : Path} {e : String × FileTree} (he : IsFileName e.1)
    (hinner : ∀ f ∈ e.2.entries, IsFileName f.1) {d : TagDefinition} {name : String} (hname : name ≠ "") :
    d ∈ tagsOfEntry directory e ∧ d.name = name ↔
      (e = (name ++ ".marko", .file) ∧ d = .ofTemplate name (directory.join ⟨name ++ ".marko"⟩)) ∨
        ∃ inner, e = (name, .directory inner) ∧ ("index.marko", .file) ∈ inner ∧
          d = .ofTemplate name ((directory.join ⟨name⟩).join ⟨"index.marko"⟩) := by
  obtain ⟨file, t⟩ := e
  cases t with
  | file =>
    rw [tagsOfEntry_file]
    constructor
    · rintro ⟨hd, hstem⟩
      split at hd
      · rename_i htemplate
        rw [List.mem_singleton.mp hd] at hstem ⊢
        obtain ⟨-, hfile⟩ := (isTemplate_and_stemOf_iff he hname .file).mp ⟨htemplate, hstem⟩
        rw [show stemOf file = name from hstem, show file = name ++ ".marko" from hfile]
        exact .inl ⟨rfl, rfl⟩
      · cases hd
    · rintro (⟨heq, rfl⟩ | ⟨inner, heq, -⟩)
      · cases heq
        obtain ⟨htemplate, hstem⟩ := (isTemplate_and_stemOf_iff he hname .file).mpr ⟨rfl, rfl⟩
        rw [if_pos htemplate, hstem]
        exact ⟨List.mem_singleton_self _, rfl⟩
      · cases heq
  | directory inner =>
    -- of the files in a directory, only an index file is a template of the name of the directory
    have hindex (f : String × FileTree) (hf : f ∈ inner) :
        (isTemplate f.1 f.2 && stemOf f.1 == "index") = true ↔ f = ("index.marko", .file) := by
      rw [Bool.and_eq_true, beq_iff_eq, isTemplate_and_stemOf_iff (hinner f hf) (by decide)]
      obtain ⟨other, t⟩ := f
      cases t with
      | file => simp [isFile, isDirectory]
      | directory es => simp [isFile, isDirectory]
    rw [tagsOfEntry_directory]
    constructor
    · rintro ⟨hd, rfl⟩
      obtain ⟨f, hf, hsome⟩ := List.mem_filterMap.mp hd
      have hmem : f ∈ inner := mem_sortByName.mp hf
      split at hsome
      · rename_i htemplate
        cases hsome
        obtain rfl := (hindex f hmem).mp htemplate
        exact .inr ⟨inner, rfl, hmem, rfl⟩
      · cases hsome
    · rintro (⟨heq, -⟩ | ⟨inner', heq, hmem, rfl⟩)
      · cases heq
      · cases heq
        refine ⟨List.mem_filterMap.mpr ⟨_, mem_sortByName.mpr hmem, ?_⟩, rfl⟩
        rw [if_pos ((hindex _ hmem).mpr rfl)]

theorem firstNamed_tagsOfEntry_iff {directory : Path} {e : String × FileTree} (he : IsFileName e.1)
    (hinner : ∀ f ∈ e.2.entries, IsFileName f.1) {d : TagDefinition} {name : String} (hname : name ≠ "") :
    firstNamed name (tagsOfEntry directory e) = some d ↔
      (e = (name ++ ".marko", .file) ∧ d = .ofTemplate name (directory.join ⟨name ++ ".marko"⟩)) ∨
        ∃ inner, e = (name, .directory inner) ∧ ("index.marko", .file) ∈ inner ∧
          d = .ofTemplate name ((directory.join ⟨name⟩).join ⟨"index.marko"⟩) := by
  rw [← mem_tagsOfEntry_iff he hinner hname]
  refine ⟨mem_of_firstNamed, fun ⟨hd, hdname⟩ => ?_⟩
  obtain ⟨other, hother⟩ : ∃ other, firstNamed name (tagsOfEntry directory e) = some other :=
    Option.isSome_iff_exists.mp (List.find?_isSome.mpr ⟨d, hd, beq_iff_eq.mpr hdname⟩)
  rw [hother]
  -- an entry has only one tag of a name
  have hd' := (mem_tagsOfEntry_iff he hinner hname).mp ⟨hd, hdname⟩
  have hother' := (mem_tagsOfEntry_iff he hinner hname).mp (mem_of_firstNamed hother)
  rcases hd' with ⟨rfl, rfl⟩ | ⟨inner, rfl, -, rfl⟩
  · rcases hother' with ⟨-, rfl⟩ | ⟨inner, heq, -⟩
    · rfl
    · cases (Prod.mk.inj heq).2
  · rcases hother' with ⟨heq, -⟩ | ⟨inner, -, -, rfl⟩
    · cases (Prod.mk.inj heq).2
    · rfl

section

variable {es : List (String × FileTree)} (hes : (directory es).IsProper) {directory : Path} {name : String}
  (hname : IsFileName name)

include hes hname

theorem firstNamed_tagsOfEntry_of_mem {e : String × FileTree} (he : e ∈ es) {d : TagDefinition} :
    firstNamed name (tagsOfEntry directory e) = some d ↔
      (e = (name ++ ".marko", .file) ∧ d = .ofTemplate name (directory.join ⟨name ++ ".marko"⟩)) ∨
        ∃ inner, e = (name, .directory inner) ∧ ("index.marko", .file) ∈ inner ∧
          d = .ofTemplate name ((directory.join ⟨name⟩).join ⟨"index.marko"⟩) := by
  exact firstNamed_tagsOfEntry_iff (hes.isFileName_of_mem he) (hes.isFileName_of_mem_entries he) hname.2.1

/-- The index file in the directory of a tag comes first. -/
theorem firstNamed_of_index {inner : List (String × FileTree)} (hmem : (name, .directory inner) ∈ es)
    (hindex : ("index.marko", .file) ∈ inner) :
    firstNamed name ((sortByName es).flatMap (tagsOfEntry directory)) =
      some (.ofTemplate name ((directory.join ⟨name⟩).join ⟨"index.marko"⟩)) := by
  rw [firstNamed, List.find?_flatMap]
  refine findSome?_of_isSorted (isSorted_sortByName es) (mem_sortByName.mpr hmem) ?_ fun e he d hd => ?_
  · exact (firstNamed_tagsOfEntry_of_mem hes hname hmem).mpr (.inr ⟨inner, rfl, hindex, rfl⟩)
  · rcases (firstNamed_tagsOfEntry_of_mem hes hname (mem_sortByName.mp he)).mp hd with ⟨rfl, -⟩ | ⟨_, -, -, rfl⟩
    · exact .inr (lt_append_marko name)
    · exact .inl rfl

/-- Without it the file of the tag is taken. -/
theorem firstNamed_of_single
    (hnone : ∀ inner, (name, .directory inner) ∈ es → ("index.marko", .file) ∉ inner)
    (hmem : (name ++ ".marko", .file) ∈ es) :
    firstNamed name ((sortByName es).flatMap (tagsOfEntry directory)) =
      some (.ofTemplate name (directory.join ⟨name ++ ".marko"⟩)) := by
  rw [firstNamed, List.find?_flatMap]
  refine findSome?_of_isSorted (isSorted_sortByName es) (mem_sortByName.mpr hmem) ?_ fun e he d hd => .inl ?_
  · exact (firstNamed_tagsOfEntry_of_mem hes hname hmem).mpr (.inl ⟨rfl, rfl⟩)
  · have hmem' := mem_sortByName.mp he
    rcases (firstNamed_tagsOfEntry_of_mem hes hname hmem').mp hd with ⟨-, rfl⟩ | ⟨inner, rfl, hindex, -⟩
    · rfl
    · exact absurd hindex (hnone inner hmem')

theorem firstNamed_eq_none
    (hnone : ∀ inner, (name, .directory inner) ∈ es → ("index.marko", .file) ∉ inner)
    (hnone' : (name ++ ".marko", .file) ∉ es) :
    firstNamed name ((sortByName es).flatMap (tagsOfEntry directory)) = none := by
  rw [firstNamed, List.find?_flatMap, List.findSome?_eq_none_iff]
  intro e he
  have hmem := mem_sortByName.mp he
  rw [Option.eq_none_iff_forall_ne_some]
  intro d hd
  rcases (firstNamed_tagsOfEntry_of_mem hes hname hmem).mp hd with ⟨rfl, -⟩ | ⟨inner, rfl, hindex, -⟩
  · exact hnone' hmem
  · exact hnone inner hmem hindex

end

end FileTree

/-! ## Templates beside a directory -/

theorem text_components_ne (directory : Path) : (directory.join ⟨"components"⟩).text ≠ "" :=
  fun hempty => parts_components_ne directory (Path.parts_of_text_eq hempty)

/-- The index file in the directory of a tag, in the `components` directory of a directory. -/
def Path.indexFile (directory : Path) (name : String) : Path :=
  ((directory.join ⟨"components"⟩).join ⟨name⟩).join ⟨"index.marko"⟩

/-- The file of a tag in the `components` directory of a directory. -/
def Path.singleFile (directory : Path) (name : String) : Path :=
  (directory.join ⟨"components"⟩).join ⟨name ++ ".marko"⟩

/-- A path leads to a file. -/
def Disk.HasFile (disk : Disk) (p : Path) : Prop := disk.find? p = some .file

/-- A tag has a template in the `components` directory of a directory. -/
def Disk.HasTemplate (disk : Disk) (directory : Path) (name : String) : Prop :=
  disk.HasFile (directory.indexFile name) ∨ disk.HasFile (directory.singleFile name)

/-- The template is that of a tag in the `components` directory of a directory: the index file in the directory of
the tag, or if there is none the file of the tag. -/
def Disk.IsTemplateIn (disk : Disk) (directory : Path) (name : String) (template : Path) : Prop :=
  disk.HasFile (directory.indexFile name) ∧ template = directory.indexFile name ∨
    ¬ disk.HasFile (directory.indexFile name) ∧ disk.HasFile (directory.singleFile name) ∧
      template = directory.singleFile name

theorem exists_isTemplateIn_iff {disk : Disk} {directory : Path} {name : String} :
    (∃ template, disk.IsTemplateIn directory name template) ↔ disk.HasTemplate directory name := by
  constructor
  · rintro ⟨template, ⟨hindex, -⟩ | ⟨-, hsingle, -⟩⟩
    · exact .inl hindex
    · exact .inr hsingle
  · intro h
    by_cases hindex : disk.HasFile (directory.indexFile name)
    · exact ⟨_, .inl ⟨hindex, rfl⟩⟩
    · exact ⟨_, .inr ⟨hindex, h.resolve_left hindex, rfl⟩⟩

theorem componentsIn_of_find? {disk : Disk} {directory : Path} {es : List (String × FileTree)}
    (h : disk.find? directory = some (.directory es)) :
    disk.componentsIn directory = (FileTree.sortByName es).flatMap (FileTree.tagsOfEntry directory) := by
  rw [Disk.componentsIn, h]

section

variable {disk : Disk} (hdisk : disk.IsTree)

include hdisk

theorem Disk.IsTree.find?_join_iff {p : Path} (hp : p.text ≠ "") {name : String} (hname : IsFileName name)
    {sub : FileTree} : disk.find? (p.join ⟨name⟩) = some sub ↔
      ∃ es, disk.find? p = some (.directory es) ∧ (name, sub) ∈ es := by
  rw [hdisk.below p name hp hname, Option.bind_eq_some_iff]
  constructor
  · rintro ⟨t, ht, hchild⟩
    cases t with
    | file => cases hchild
    | directory es => exact ⟨es, ht, FileTree.mem_of_child? hchild⟩
  · rintro ⟨es, ht, hmem⟩
    cases hdisk.proper p _ ht with
    | directory hes _ _ => exact ⟨_, ht, (FileTree.child?_eq_some_iff hes).mpr hmem⟩

theorem hasFile_indexFile_iff {name : String} (hname : IsFileName name) (directory : Path) :
    disk.HasFile (directory.indexFile name) ↔ ∃ es inner,
      disk.find? (directory.join ⟨"components"⟩) = some (.directory es) ∧ (name, .directory inner) ∈ es ∧
        ("index.marko", .file) ∈ inner := by
  have hcomponents := text_components_ne directory
  rw [Disk.HasFile, Path.indexFile, hdisk.find?_join_iff (join_text_ne hcomponents hname) (by decide)]
  simp only [hdisk.find?_join_iff hcomponents hname]
  constructor
  · rintro ⟨inner, ⟨es, hes, hmem⟩, hindex⟩
    exact ⟨es, inner, hes, hmem, hindex⟩
  · rintro ⟨es, inner, hes, hmem, hindex⟩
    exact ⟨inner, ⟨es, hes, hmem⟩, hindex⟩

theorem hasFile_singleFile_iff {name : String} (hname : IsFileName name) (directory : Path) :
    disk.HasFile (directory.singleFile name) ↔ ∃ es,
      disk.find? (directory.join ⟨"components"⟩) = some (.directory es) ∧ (name ++ ".marko", .file) ∈ es :=
  hdisk.find?_join_iff (text_components_ne directory) hname.marko

/-- The first tag of a name in a `components` directory is the one whose template the name stands for. -/
theorem firstNamed_componentsIn_iff {name : String} (hname : IsFileName name) (directory : Path) {d : TagDefinition} :
    firstNamed name (disk.componentsIn (directory.join ⟨"components"⟩)) = some d ↔
      ∃ template, disk.IsTemplateIn directory name template ∧ d = .ofTemplate name template := by
  have hindex := hasFile_indexFile_iff hdisk hname directory
  have hsingle := hasFile_singleFile_iff hdisk hname directory
  -- the directory comes before the file, as its name is the shorter one, so the index file decides
  by_cases hi : disk.HasFile (directory.indexFile name)
  · obtain ⟨es, inner, hfind, hmem, hinner⟩ := hindex.mp hi
    rw [componentsIn_of_find? hfind, FileTree.firstNamed_of_index (hdisk.proper _ _ hfind) hname hmem hinner]
    constructor
    · rintro ⟨⟩
      exact ⟨_, .inl ⟨hi, rfl⟩, rfl⟩
    · rintro ⟨template, ⟨-, rfl⟩ | ⟨hnot, -⟩, rfl⟩
      · rfl
      · exact absurd hi hnot
  by_cases hs : disk.HasFile (directory.singleFile name)
  · obtain ⟨es, hfind, hmem⟩ := hsingle.mp hs
    have hnone (inner : List (String × FileTree)) (hmem : (name, .directory inner) ∈ es) :
        ("index.marko", .file) ∉ inner := fun hinner => hi (hindex.mpr ⟨es, inner, hfind, hmem, hinner⟩)
    rw [componentsIn_of_find? hfind, FileTree.firstNamed_of_single (hdisk.proper _ _ hfind) hname hnone hmem]
    constructor
    · rintro ⟨⟩
      exact ⟨_, .inr ⟨hi, hs, rfl⟩, rfl⟩
    · rintro ⟨template, ⟨hi', -⟩ | ⟨-, -, rfl⟩, rfl⟩
      · exact absurd hi' hi
      · rfl
  · have hnone : firstNamed name (disk.componentsIn (directory.join ⟨"components"⟩)) = none := by
      rcases hfind : disk.find? (directory.join ⟨"components"⟩) with - | (- | es)
      · rw [Disk.componentsIn, hfind]
        rfl
      · rw [Disk.componentsIn, hfind]
        rfl
      · rw [componentsIn_of_find? hfind]
        exact FileTree.firstNamed_eq_none (hdisk.proper _ _ hfind) hname
          (fun inner hmem hinner => hi (hindex.mpr ⟨es, inner, hfind, hmem, hinner⟩))
          fun hmem => hs (hsingle.mpr ⟨es, hfind, hmem⟩)
    rw [hnone]
    refine ⟨nofun, ?_⟩
    rintro ⟨template, ⟨hi', -⟩ | ⟨-, hs', -⟩, -⟩
    · exact absurd hi' hi
    · exact absurd hs' hs

theorem firstNamed_componentsIn_eq_none_iff {name : String} (hname : IsFileName name) (directory : Path) :
    firstNamed name (disk.componentsIn (directory.join ⟨"components"⟩)) = none ↔
      ¬ disk.HasTemplate directory name := by
  rw [← exists_isTemplateIn_iff, Option.eq_none_iff_forall_ne_some]
  constructor
  · rintro hnone ⟨template, htemplate⟩
    exact hnone _ ((firstNamed_componentsIn_iff hdisk hname directory).mpr ⟨template, htemplate, rfl⟩)
  · rintro hnot d hd
    obtain ⟨template, htemplate, -⟩ := (firstNamed_componentsIn_iff hdisk hname directory).mp hd
    exact hnot ⟨template, htemplate⟩

end

end TemplateCompiler
