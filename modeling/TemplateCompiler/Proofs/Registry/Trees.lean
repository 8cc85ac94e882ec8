import Mathlib.Data.List.Nodup
import TemplateCompiler.Proofs.Registry.Entries

/-!
# Trees of files

A disk holds a tree (`Disk.IsTree`) if what a path leads to depends on the parts of the path only, a name below a
path leads to the entry of that name, and each name is in a directory once. The disk of a tree below the working
directory is one (`FileTree.isTree_disk`), and so is that of a tree with a root and a working directory somewhere
in it (`FileTree.isTree_rooted`), into which absolute paths lead as well.
-/

namespace TemplateCompiler

open Path (Part)

instance (name : String) : Decidable (IsFileName name) :=
  inferInstanceAs (Decidable ('/' ∉ name.toList ∧ name ≠ "" ∧ name ≠ "." ∧ name ≠ ".."))

namespace FileTree

/-! ## Proper trees -/

/-- In each directory of the tree all names are names that files can have, and each of them is there once. -/
inductive IsProper : FileTree → Prop where
  | file : IsProper .file
  | directory {es : List (String × FileTree)} : (es.map (·.1)).Nodup → (∀ e ∈ es, IsFileName e.1) →
    (∀ e ∈ es, IsProper e.2) → IsProper (.directory es)

theorem isProper_file : IsProper .file := .file

theorem isProper_directory_iff {es : List (String × FileTree)} : IsProper (.directory es) ↔
    (es.map (·.1)).Nodup ∧ (∀ e ∈ es, IsFileName e.1) ∧ ∀ e ∈ es, IsProper e.2 :=
  ⟨fun | .directory hnodup hnames hsubs => ⟨hnodup, hnames, hsubs⟩,
    fun ⟨hnodup, hnames, hsubs⟩ => .directory hnodup hnames hsubs⟩

section

variable {es : List (String × FileTree)} (hes : (FileTree.directory es).IsProper) {e : String × FileTree} (he : e ∈ es)

include hes he

theorem IsProper.isFileName_of_mem : IsFileName e.1 := by
  cases hes with
  | directory _ hnames _ => exact hnames e he

theorem IsProper.isFileName_of_mem_entries : ∀ f ∈ e.2.entries, IsFileName f.1 := by
  cases hes with
  | directory _ _ hsubs =>
    have hsub := hsubs e he
    obtain ⟨name, t⟩ := e
    cases t with
    | file => exact fun f hf => (List.not_mem_nil hf).elim
    | directory inner => exact fun f hf => hsub.isFileName_of_mem hf

end

theorem mem_of_child? {es : List (String × FileTree)} {name : String} {sub : FileTree}
    (h : (directory es).child? name = some sub) : (name, sub) ∈ es := by
  obtain ⟨e, he, rfl⟩ := Option.map_eq_some_iff.mp h
  have hname := List.find?_some he
  obtain rfl : e.1 = name := eq_of_beq hname
  exact List.mem_of_find?_eq_some he

/-- The entries of a directory are what its names lead to. -/
theorem child?_eq_some_iff {es : List (String × FileTree)} (hes : (es.map (·.1)).Nodup) {name : String}
    {sub : FileTree} : (directory es).child? name = some sub ↔ (name, sub) ∈ es := by
  refine ⟨mem_of_child?, fun h => ?_⟩
  cases hchild : (directory es).child? name with
  | none =>
    have hnone := List.find?_eq_none.mp (Option.map_eq_none_iff.mp hchild) _ h
    exact absurd (beq_self_eq_true name) hnone
  | some other =>
    have hsame : (name, other) = (name, sub) := List.inj_on_of_nodup_map hes (mem_of_child? hchild) h rfl
    exact congrArg some (Prod.mk.inj hsame).2

theorem IsProper.child? {t sub : FileTree} (ht : t.IsProper) {name : String} (h : t.child? name = some sub) :
    sub.IsProper := by
  cases ht with
  | file => cases h
  | directory _ _ hes => exact hes _ (mem_of_child? h)

theorem IsProper.at? {t sub : FileTree} (ht : t.IsProper) {names : List String} (h : t.at? names = some sub) :
    sub.IsProper := by
  induction names generalizing t with
  | nil =>
    cases h
    exact ht
  | cons name names ih =>
    obtain ⟨next, hnext, h⟩ := Option.bind_eq_some_iff.mp h
    exact ih (ht.child? hnext) h

theorem at?_concat (t : FileTree) (names : List String) (name : String) :
    t.at? (names ++ [name]) = (t.at? names).bind (·.child? name) := by
  induction names generalizing t with
  | nil =>
    show (t.child? name).bind some = t.child? name
    cases t.child? name <;> rfl
  | cons first names ih =>
    rw [List.cons_append, FileTree.at?, FileTree.at?, Option.bind_assoc]
    exact congrArg _ (funext ih)

/-! ## Following a path -/

/-- One step from a place, which has to be a directory. Where the parts of a path lead is said by `enter`. -/
def step? (t : FileTree) (enter : List String → Part → Option (List String)) (place : List String) (part : Part) :
    Option (List String) := do
  let here ← t.at? place.reverse
  guard here.isDirectory
  enter place part

end FileTree

/-- A disk with a tree on it. -/
structure Disk.IsTree (disk : Disk) : Prop where
  /-- The spelling of a path does not matter. -/
  spelling : ∀ p q : Path, p.parts = q.parts → disk.find? p = disk.find? q
  /-- A name below a path leads to the entry of this name. -/
  below : ∀ (p : Path) name, p.text ≠ "" → IsFileName name →
    disk.find? (p.join ⟨name⟩) = (disk.find? p).bind (·.child? name)
  proper : ∀ p t, disk.find? p = some t → t.IsProper

namespace FileTree

variable {t : FileTree}

theorem step?_name {enter : List String → Part → Option (List String)} {name : String} {place : List String}
    (henter : enter place (.name name) = some (name :: place)) :
    ((t.step? enter place (.name name)).bind fun place => t.at? place.reverse) =
      (t.at? place.reverse).bind (·.child? name) := by
  rw [step?, henter]
  cases hhere : t.at? place.reverse with
  | none => rfl
  | some here =>
    cases here with
    | file => rfl
    | directory es =>
      show t.at? (name :: place).reverse = (directory es).child? name
      rw [List.reverse_cons, at?_concat, hhere, Option.bind_some]

-- A name below a path is one more step.
theorem isTree_of_step? (ht : t.IsProper) {disk : Disk} {enter : List String → Part → Option (List String)}
    (henter : ∀ place name, enter place (.name name) = some (name :: place)) (start : List String)
    (hfind : ∀ p : Path, disk.find? p = (p.parts.foldlM (t.step? enter) start).bind fun place => t.at? place.reverse) :
    disk.IsTree := by
  refine ⟨fun p q hparts => by rw [hfind, hfind, hparts], fun p name hp hname => ?_, fun p sub h => ?_⟩
  · rw [hfind, hfind, parts_join_fileName hp hname, List.foldlM_append, Option.bind_eq_bind, Option.bind_assoc,
      Option.bind_assoc]
    refine congrArg _ (funext fun place => ?_)
    have hone : [Part.name name].foldlM (t.step? enter) place = t.step? enter place (.name name) := bind_pure _
    rw [hone]
    exact step?_name (henter place name)
  · rw [hfind] at h
    obtain ⟨place, -, h⟩ := Option.bind_eq_some_iff.mp h
    exact ht.at? h

/-- Where the parts of a path lead below the working directory. -/
def enterBelow (place : List String) : Part → Option (List String)
  | .root => none
  | .here => some place
  | .up => if place.isEmpty then none else some (place.drop 1)
  | .name name => some (name :: place)

theorem follow_eq_foldlM (place : List String) (ps : List Part) :
    t.follow place ps = ps.foldlM (t.step? enterBelow) place := by
  induction ps generalizing place with
  | nil => rfl
  | cons part ps ih =>
    rw [List.foldlM_cons, step?, bind_assoc]
    refine bind_congr fun here => ?_
    rw [bind_assoc]
    refine bind_congr fun _ => ?_
    cases part with
    | root => rfl
    | here => exact ih place
    | up =>
      dsimp only [enterBelow]
      cases place.isEmpty
      · exact ih (place.drop 1)
      · rfl
    | name name => exact ih (name :: place)

/-- The disk of a proper tree below the working directory. -/
theorem isTree_disk (ht : t.IsProper) : t.disk.IsTree := by
  have henter (place : List String) (name : String) : enterBelow place (.name name) = some (name :: place) := rfl
  refine isTree_of_step? ht henter [] fun p => ?_
  show (t.follow [] p.parts).bind (fun place => t.at? place.reverse) = _
  rw [follow_eq_foldlM]

/-- Where the parts of a path lead in a tree with a root, which is also the directory above itself. -/
def enterRooted (place : List String) : Part → Option (List String)
  | .root => some []
  | .here => some place
  | .up => some (place.drop 1)
  | .name name => some (name :: place)

/-- The disk of a tree with a root, where `working` are the names that lead to the working directory. -/
def rooted (t : FileTree) (working : List String) : Disk where
  find? p := (p.parts.foldlM (t.step? enterRooted) working.reverse).bind fun place => t.at? place.reverse

theorem isTree_rooted (ht : t.IsProper) (working : List String) : (t.rooted working).IsTree :=
  isTree_of_step? ht (fun _ _ => rfl) working.reverse fun _ => rfl

end FileTree

end TemplateCompiler
