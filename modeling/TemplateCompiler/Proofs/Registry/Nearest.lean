import TemplateCompiler.Proofs.Path.Ancestors
import TemplateCompiler.Proofs.Registry.Templates

/-!
# The nearest template of a tag

A lookup finds the template in the nearest directory that has one, and after other lookups finds the same
(`nearest_of_lookup`). A registry that has read nothing reads each directory at most once, because each has its own
number of parts (`lookup_new`); one that remembers directories has read them, perhaps under another spelling
(`Discovery.map_unspelled_lookupIn`).
-/

namespace TemplateCompiler

open Path (Part)

/-! ## A registry that has read nothing -/

theorem length_parts_components (directory : Path) :
    (directory.join ⟨"components"⟩).parts.length = directory.parts.length + 1 := by
  by_cases hempty : directory.text = ""
  · rw [Path.join_of_text_eq hempty, Path.parts_of_text_eq hempty]
    decide
  · rw [parts_join_fileName hempty isFileName_components, List.length_append, List.length_singleton]

theorem pairwise_componentDirectories (p : Path) :
    p.componentDirectories.Pairwise fun d e => d.parts ≠ e.parts := by
  rw [Path.componentDirectories, List.pairwise_map]
  refine p.pairwise_ancestors.imp fun {d e} hlt heq => ?_
  have hlength := congrArg List.length heq
  rw [length_parts_components, length_parts_components] at hlength
  omega

/-- Directories that have not been read are read, one after the other. -/
theorem Discovery.lookupIn_of_unread {name : String} {directories : List Path}
    (hdirectories : directories.Pairwise fun d e => d.parts ≠ e.parts) {r : Discovery}
    (hunread : ∀ d ∈ directories, d.find? r.found = none) :
    (lookupIn name directories r).1 = directories.findSome? fun d => firstNamed name (r.disk.componentsIn d) := by
  induction directories generalizing r with
  | nil => rfl
  | cons d rest ih =>
    obtain ⟨hd, hrest⟩ := List.pairwise_cons.mp hdirectories
    obtain ⟨hhere, hunread⟩ := List.forall_mem_cons.mp hunread
    have hread : r.tagsIn d =
        (r.disk.componentsIn d, { r with found := (d, r.disk.componentsIn d) :: r.found }) := by
      rw [tagsIn, hhere]
    rw [lookupIn, hread, List.findSome?_cons]
    dsimp only
    cases firstNamed name (r.disk.componentsIn d) with
    | some tag => rfl
    | none =>
      refine ih hrest fun e he => ?_
      have hother : d.same e = false := Bool.eq_false_iff.mpr fun h => hd e he ((Path.same_iff d e).mp h)
      rw [Path.find?_cons, hother]
      exact hunread e he

theorem lookup_new (disk : Disk) (p : Path) (name : String) :
    ((Discovery.new disk).lookup p name).1 = disk.lookupFresh p name :=
  Discovery.lookupIn_of_unread (pairwise_componentDirectories p) fun _ _ => rfl

/-! ## The spelling of definitions -/

/-- What a definition says, apart from how its paths are spelled. -/
def TagDefinition.unspelled (d : TagDefinition) : String × Option (List Part) × Option (List Part) × Bool :=
  (d.name, d.template.map Path.parts, d.renderer.map Path.parts, d.html)

theorem unspelled_ofTemplate_congr {name : String} {p q : Path} (h : p.parts = q.parts) :
    (TagDefinition.ofTemplate name p).unspelled = (TagDefinition.ofTemplate name q).unspelled := by
  rw [TagDefinition.unspelled, TagDefinition.unspelled, TagDefinition.ofTemplate, TagDefinition.ofTemplate]
  dsimp only
  rw [Option.map_some, Option.map_some, h]

-- What is found is the same, however the definitions are spelled.
theorem map_unspelled_firstNamed (name : String) (tags : List TagDefinition) :
    (firstNamed name tags).map TagDefinition.unspelled =
      (tags.map TagDefinition.unspelled).find? fun d => d.1 == name := by
  rw [List.find?_map]
  rfl

section

variable {p q : Path} (hparts : p.parts = q.parts) (hne : p.parts ≠ [])

include hparts hne

theorem parts_join_fileName_congr {name : String} (hname : IsFileName name) :
    (p.join ⟨name⟩).parts = (q.join ⟨name⟩).parts := by
  have hp : p.text ≠ "" := fun h => hne (Path.parts_of_text_eq h)
  have hq : q.text ≠ "" := fun h => hne (hparts.trans (Path.parts_of_text_eq h))
  rw [parts_join_fileName hp hname, parts_join_fileName hq hname, hparts]

theorem map_unspelled_tagsOfEntry {e : String × FileTree} (he : IsFileName e.1)
    (hinner : ∀ f ∈ e.2.entries, IsFileName f.1) :
    (FileTree.tagsOfEntry p e).map TagDefinition.unspelled =
      (FileTree.tagsOfEntry q e).map TagDefinition.unspelled := by
  have hhere := parts_join_fileName_congr hparts hne he
  obtain ⟨file, t⟩ := e
  cases t with
  | file =>
    rw [FileTree.tagsOfEntry_file, FileTree.tagsOfEntry_file]
    split
    · rw [List.map_singleton, List.map_singleton, unspelled_ofTemplate_congr hhere]
    · rfl
  | directory inner =>
    have hne' : (p.join ⟨file⟩).parts ≠ [] := by
      rw [parts_join_fileName (fun h => hne (Path.parts_of_text_eq h)) he]
      exact List.append_ne_nil_of_right_ne_nil _ (List.cons_ne_nil _ _)
    rw [FileTree.tagsOfEntry_directory, FileTree.tagsOfEntry_directory, List.map_filterMap, List.map_filterMap]
    refine List.filterMap_congr fun f hf => ?_
    have hinside := parts_join_fileName_congr hhere hne' (hinner f (FileTree.mem_sortByName.mp hf))
    split
    · rw [Option.map_some, Option.map_some, unspelled_ofTemplate_congr hinside]
    · rfl

/-- The tags in a directory are the same, however the directory is spelled. -/
theorem map_unspelled_componentsIn {disk : Disk} (hdisk : disk.IsTree) :
    (disk.componentsIn p).map TagDefinition.unspelled = (disk.componentsIn q).map TagDefinition.unspelled := by
  rw [Disk.componentsIn, Disk.componentsIn, ← hdisk.spelling p q hparts]
  cases hfind : disk.find? p with
  | none => rfl
  | some t =>
    cases t with
    | file => rfl
    | directory es =>
      dsimp only
      have hproper := hdisk.proper p _ hfind
      rw [List.map_flatMap, List.map_flatMap]
      refine List.flatMap_congr fun e he => ?_
      have hmem := FileTree.mem_sortByName.mp he
      exact map_unspelled_tagsOfEntry hparts hne (hproper.isFileName_of_mem hmem)
        (hproper.isFileName_of_mem_entries hmem)

end

namespace Discovery

/-- A registry that remembers directories finds what is in them. -/
theorem map_unspelled_lookupIn {name : String} {directories : List Path} (hne : ∀ d ∈ directories, d.parts ≠ [])
    {r : Discovery} (hdisk : r.disk.IsTree) (hsound : r.IsSound) :
    (lookupIn name directories r).1.map TagDefinition.unspelled =
      (directories.findSome? fun d => firstNamed name (r.disk.componentsIn d)).map TagDefinition.unspelled := by
  induction directories generalizing r with
  | nil => rfl
  | cons d rest ih =>
    obtain ⟨hhere, hrest⟩ := List.forall_mem_cons.mp hne
    obtain ⟨hsound', spelled, hparts, htags⟩ := tagsIn_of_isSound hsound d
    have hdisk' := disk_tagsIn r d
    have hfirst : (firstNamed name (r.tagsIn d).1).map TagDefinition.unspelled =
        (firstNamed name (r.disk.componentsIn d)).map TagDefinition.unspelled := by
      rw [htags, map_unspelled_firstNamed, map_unspelled_firstNamed,
        map_unspelled_componentsIn hparts (hparts ▸ hhere) hdisk]
    have hbehind := ih hrest (hdisk'.symm ▸ hdisk) hsound'
    rw [hdisk'] at hbehind
    rw [lookupIn, List.findSome?_cons]
    dsimp only
    cases hread : firstNamed name (r.tagsIn d).1 with
    | some tag =>
      rw [hread] at hfirst
      cases hfresh : firstNamed name (r.disk.componentsIn d) with
      | some other => rwa [hfresh] at hfirst
      | none =>
        rw [hfresh] at hfirst
        cases hfirst
    | none =>
      rw [hread] at hfirst
      rw [Option.map_eq_none_iff.mp hfirst.symm]
      exact hbehind

end Discovery

/-! ## The nearest directory -/

/-- The template of a tag in the nearest of the directories above a path that have one. -/
def Disk.IsNearest (disk : Disk) (p : Path) (name : String) (template : Path) : Prop :=
  ∃ directory ∈ p.ancestors, disk.IsTemplateIn directory name template ∧
    ∀ nearer ∈ p.ancestors, directory.parts.length < nearer.parts.length → ¬ disk.HasTemplate nearer name

-- The first of the directories above a path is the nearest.
theorem findSome?_ancestors_iff {p : Path} {α : Type} {f : Path → Option α} {a : α} :
    p.ancestors.findSome? f = some a ↔ ∃ d ∈ p.ancestors, f d = some a ∧
      ∀ nearer ∈ p.ancestors, d.parts.length < nearer.parts.length → f nearer = none := by
  have hpairwise := p.pairwise_ancestors
  constructor
  · intro h
    obtain ⟨nearer, d, further, hsplit, hd, hnearer⟩ := List.findSome?_eq_some_iff.mp h
    rw [hsplit] at hpairwise ⊢
    obtain ⟨-, hbehind, -⟩ := List.pairwise_append.mp hpairwise
    refine ⟨d, List.mem_append_right _ List.mem_cons_self, hd, fun e he hlt => ?_⟩
    rcases List.mem_append.mp he with he | he
    · exact hnearer e he
    rcases List.mem_cons.mp he with rfl | he
    · exact absurd hlt (Nat.lt_irrefl _)
    · exact absurd hlt (Nat.lt_asymm ((List.pairwise_cons.mp hbehind).1 e he))
  · rintro ⟨d, hd, hfound, hnearer⟩
    obtain ⟨nearer, further, hsplit⟩ := List.append_of_mem hd
    rw [hsplit] at hpairwise
    obtain ⟨-, -, hbefore⟩ := List.pairwise_append.mp hpairwise
    refine List.findSome?_eq_some_iff.mpr ⟨nearer, d, further, hsplit, hfound, fun e he => ?_⟩
    exact hnearer e (hsplit ▸ List.mem_append_left _ he) (hbefore e he d List.mem_cons_self)

theorem lookupFresh_eq (disk : Disk) (p : Path) (name : String) : disk.lookupFresh p name =
    p.ancestors.findSome? fun d => firstNamed name (disk.componentsIn (d.join ⟨"components"⟩)) := by
  rw [Disk.lookupFresh, Path.componentDirectories, List.findSome?_map]
  rfl

section

variable {disk : Disk} (hdisk : disk.IsTree) {name : String} (hname : IsFileName name) {p : Path}

include hdisk hname

theorem lookupFresh_eq_some_iff {d : TagDefinition} :
    disk.lookupFresh p name = some d ↔ ∃ template, disk.IsNearest p name template ∧ d = .ofTemplate name template := by
  rw [lookupFresh_eq, findSome?_ancestors_iff]
  simp only [firstNamed_componentsIn_iff hdisk hname, firstNamed_componentsIn_eq_none_iff hdisk hname]
  constructor
  · rintro ⟨directory, hdirectory, ⟨template, htemplate, rfl⟩, hnearer⟩
    exact ⟨template, ⟨directory, hdirectory, htemplate, hnearer⟩, rfl⟩
  · rintro ⟨template, ⟨directory, hdirectory, htemplate, hnearer⟩, rfl⟩
    exact ⟨directory, hdirectory, ⟨template, htemplate, rfl⟩, hnearer⟩

theorem lookupFresh_eq_none_iff :
    disk.lookupFresh p name = none ↔ ∀ directory ∈ p.ancestors, ¬ disk.HasTemplate directory name := by
  rw [lookupFresh_eq, List.findSome?_eq_none_iff]
  simp only [firstNamed_componentsIn_eq_none_iff hdisk hname]

end

/-- What a name stands for as seen from a template is the index file in the directory of the name, or else the file
of the name, in the `components` directory of the nearest directory above the template where one of them is a file;
it stands for nothing if none is. The directories above the template are those of the beginnings of its parts. A
registry that has been asked before answers the same as one that has not: paths are equal if their parts are. -/
theorem nearest_of_lookup {disk : Disk} (hdisk : disk.IsTree) {name : String} (hname : IsFileName name) (p : Path) :
    (∀ d, ((Discovery.new disk).lookup p name).1 = some d ↔
      ∃ template, disk.IsNearest p name template ∧ d = .ofTemplate name template) ∧
    (((Discovery.new disk).lookup p name).1 = none ↔
      ∀ directory ∈ p.ancestors, ¬ disk.HasTemplate directory name) ∧
    (∀ ps, (∃ directory ∈ p.ancestors, directory.parts = ps) ↔
      ps <+: p.parts ∧ ps ≠ p.parts ∧ (p.isAbsolute = true → ps ≠ [])) ∧
    ∀ asked, ((Discovery.after disk asked).lookup p name).1.map TagDefinition.unspelled =
      ((Discovery.new disk).lookup p name).1.map TagDefinition.unspelled := by
  have hcomponents : ∀ d ∈ p.componentDirectories, d.parts ≠ [] := by
    intro d hd
    obtain ⟨above, -, rfl⟩ := List.mem_map.mp hd
    exact parts_components_ne above
  refine ⟨fun d => ?_, ?_, p.mem_parts_ancestors, fun asked => ?_⟩
  · rw [lookup_new]
    exact lookupFresh_eq_some_iff hdisk hname
  · rw [lookup_new]
    exact lookupFresh_eq_none_iff hdisk hname
  · obtain ⟨hsound, hsame⟩ := Discovery.isSound_after disk asked
    rw [lookup_new, Discovery.lookup, Discovery.map_unspelled_lookupIn hcomponents (hsame.symm ▸ hdisk) hsound, hsame,
      Disk.lookupFresh]

-- The directory `card` comes in front of the file `card.marko`, with `card-list` in between. The second lookup finds
-- the directory under the spelling in which it was read before.
theorem nearest_of_lookup_card :
    let index : FileTree := .directory [("index.marko", .file)]
    let tree : FileTree := .directory [("srv", .directory [
      ("components", .directory [("card.marko", .file), ("card-list", index), ("card", index)]),
      ("pages", .directory [("components", .directory [("nav.marko", .file)]), ("home.marko", .file)])])]
    let disk := tree.rooted ["srv"]
    let page : Path := ⟨"/srv/pages/home.marko"⟩
    let template : Path := ⟨"/srv/components/card/index.marko"⟩
    let spelled : Path := ⟨"//srv/pages/home.marko"⟩
    disk.IsTree ∧ IsFileName "card" ∧ disk.IsNearest page "card" template ∧
      ((Discovery.after disk [(spelled, "card")]).lookup page "card").1.map TagDefinition.unspelled =
        some (TagDefinition.ofTemplate "card" template).unspelled := by
  intro index tree disk page template spelled
  have htree : tree.IsProper := by
    simp only [tree, index, FileTree.isProper_directory_iff, FileTree.isProper_file, List.forall_mem_cons,
      List.not_mem_nil, false_implies, implies_true, true_and, and_true]
    decide
  have hdisk : disk.IsTree := FileTree.isTree_rooted htree ["srv"]
  have hname : IsFileName "card" := by decide
  obtain ⟨hsome, -, -, hafter⟩ := nearest_of_lookup hdisk hname page
  have hfresh : ((Discovery.new disk).lookup page "card").1 = some (.ofTemplate "card" template) := by decide +kernel
  obtain ⟨_, hnearest, heq⟩ := (hsome _).mp hfresh
  refine ⟨hdisk, hname, ?_, ?_⟩
  · cases heq
    exact hnearest
  · rw [hafter, hfresh, Option.map_some]

end TemplateCompiler
