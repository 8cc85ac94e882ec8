import TemplateCompiler.Metadata.Basic
import TemplateCompiler.Registry.Basic
import TemplateCompiler.Template.Program

/-!
# Imports of tags

An import whose source is a tag in angle brackets imports the module that implements the tag, and
counts as a use of it.
-/

namespace TemplateCompiler

/-- The import with the request for the tag that it names, and the record of that use. The last part
says whether there was one. -/
def Import.resolve (i : Import) (registry : TagRegistry) (source : Path) (m : Metadata)
    (working : Option Path := some .root) : Import × Metadata × Bool :=
  match registry.resolveImport source i.source working with
  | some request => ({ i with source := request }, m.addTag request, true)
  | none => (i, m, false)

theorem Import.resolve_of_none {i : Import} {registry : TagRegistry} {source : Path}
    {working : Option Path} (h : registry.resolveImport source i.source working = none)
    (m : Metadata) : i.resolve registry source m working = (i, m, false) := by
  simp [resolve, h]

end TemplateCompiler
