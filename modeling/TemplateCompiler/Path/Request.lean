import TemplateCompiler.Path.Basic

/-!
# Requests

A request names a module as seen from a file. `Path.request` turns a path into the request that
denotes it from another file: relative to the directory of that file, and without the way to a
`node_modules` directory, whose packages are requested by name. Of an absolute path and one that is
not, the second one is taken from the working directory.
-/

namespace TemplateCompiler

namespace Path

/-- The text starts with a relative step. -/
def isRelativeRequest (text : String) : Bool :=
  "./".toList.isPrefixOf text.toList || "../".toList.isPrefixOf text.toList

/-- The parts of a path that lead somewhere. -/
def steps (p : Path) : List Part := p.parts.filter (· != .here)

/-- The root directory. -/
def root : Path := ⟨"/"⟩

/-- What is left of two lists after their common beginning. -/
def dropCommon : List Part → List Part → List Part × List Part
  | a :: as, b :: bs => if a == b then dropCommon as bs else (a :: as, b :: bs)
  | as, bs => (as, bs)

theorem dropCommon_spec (as bs : List Part) :
    ∃ common, as = common ++ (dropCommon as bs).1 ∧ bs = common ++ (dropCommon as bs).2 := by
  induction as generalizing bs with
  | nil => exact ⟨[], by simp [dropCommon], by simp [dropCommon]⟩
  | cons a as ih =>
    cases bs with
    | nil => exact ⟨[], by simp [dropCommon], by simp [dropCommon]⟩
    | cons b bs =>
      by_cases h : a = b
      · subst h
        obtain ⟨common, h₁, h₂⟩ := ih bs
        refine ⟨a :: common, ?_, ?_⟩
        · simpa [dropCommon] using h₁
        · simpa [dropCommon] using h₂
      · exact ⟨[], by simp [dropCommon, h], by simp [dropCommon, h]⟩

/-- The way from a directory to a path, both from the same place on. -/
def between (base target : Path) : List String :=
  let (up, down) := dropCommon base.steps target.steps
  up.map (fun _ => "..") ++ down.map Part.text

/-- The way from a directory to a path. If only one of them is absolute, both are taken from the
working directory, and there is no way if that one is not known. -/
def between? (working : Option Path) (base target : Path) : Option (List String) :=
  if base.isAbsolute == target.isAbsolute then some (between base target)
  else working.map fun here => between (here.join base) (here.join target)

/-- Slashes in place of backslashes. -/
def slashes (text : String) : String := text.map fun c => if c == '\\' then '/' else c

/-- The text behind any number of relative steps, if there is at least one. -/
def dropSteps : List Char → Option (List Char)
  | '.' :: '/' :: rest => some ((dropSteps rest).getD rest)
  | '.' :: '.' :: '/' :: rest => some ((dropSteps rest).getD rest)
  | _ => none

/-- The directory of installed packages. -/
def packages : List Char := "node_modules/".toList

/-- A request without the relative steps to a package. -/
def dropPackages (text : String) : String :=
  match dropSteps text.toList with
  | some rest =>
    if packages.isPrefixOf rest then String.ofList (rest.drop packages.length) else text
  | none => text

/-- The request for `target` as seen from the file `source`, both taken from the working directory,
which is the root unless another one is given. What is a relative request already stays as it is, and
a target that no way leads to is kept in place of the way. -/
def request (source : Path) (target : String) (working : Option Path := some root) : String :=
  if isRelativeRequest target then target
  else
    let directory := source.parent.getD ⟨""⟩
    let ways := (between? working directory ⟨target⟩).map (String.intercalate "/")
    let way := slashes (ways.getD target)
    dropPackages (if isRelativeRequest way then way else "./" ++ way)

theorem request_of_relative (source : Path) {target : String} (working : Option Path)
    (h : isRelativeRequest target = true) : source.request target working = target := by
  simp [request, h]

example : (Path.mk "/app/src/page.marko").request "/app/node_modules/ui/b.marko" = "ui/b.marko" := by
  decide +kernel

example : (Path.mk "page.marko").request "..x" = "./..x" := by decide +kernel

example : (Path.mk "src/page.marko").request "/app/src/b.marko" (some ⟨"/app"⟩) = "./b.marko" := by
  decide +kernel

example : (Path.mk "src/page.marko").request "/app/b.marko" none = ".//app/b.marko" := by
  decide +kernel

end Path

end TemplateCompiler
