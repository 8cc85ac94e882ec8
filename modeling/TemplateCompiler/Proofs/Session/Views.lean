import TemplateCompiler.Proofs.Render.TagRecords
import TemplateCompiler.Proofs.Session.Settings

/-!
# Views of the metadata of a file

What a session returns, records and prints of the metadata of a template agrees: the metadata object, the
summary, the tags, and the object literal at the end of the module (`views_of_translate`).
-/

namespace TemplateCompiler

open Render

/-- A metadata object is printed as it is where it is attached to a template, and what is printed is read back
as its fields: those that are encoded behind the identifier, for which a name stands. -/
structure TemplateMeta.IsWritten (t : TemplateMeta) (template componentType : String) : Prop where
  printed : Text.unlines (ModuleItem.assign (template ++ ".meta") (metaText componentType t)).lines =
    template ++ ".meta = " ++ metaText componentType t ++ ";\n"
  read : ∃ fields, t.encode = .object (("id", .string t.id) :: fields) ∧
    readLiteral (metaText componentType t) =
      some (("id", .name componentType) :: fields.map fun (key, value) => (key, .value value))

/-- All metadata objects are written so, whatever their strings and their dependencies are. -/
theorem TemplateMeta.isWritten {t : TemplateMeta} {template componentType : String}
    (htemplate : IsPlainName template) (hname : IsPlainName componentType)
    (hdeps : ∀ d ∈ t.deps, d.IsValid) : t.IsWritten template componentType :=
  ⟨unlines_layout_metaText hname htemplate hdeps, readLiteral_metaText hname hdeps⟩

/-- The views of the metadata of a compiled template agree. -/
structure Compiled.ViewsAgree (compiled : Compiled) (env : Env) (program : Program) : Prop where
  templateMeta : compiled.templateMeta = .ofMetadata compiled.metadata
  nodup_tags : compiled.metadata.tags.Nodup
  mem_tags : ∀ request, request ∈ compiled.metadata.tags ↔
    request ∈ program.importedTags env.registry env.source env.working ∨ request ∈ program.usedTags env
  imports : ∃ module : Module, compiled.code = module.print ∧
    ∀ request ∈ compiled.metadata.tags, request ∈ module.importSources
  attached : env.options.writeMeta = true → ∃ before template componentType,
    compiled.code =
      before ++ (template ++ ".meta = " ++ metaText componentType compiled.templateMeta ++ ";\n") ∧
    compiled.templateMeta.IsWritten template componentType

/-! ## Compiling -/

section

variable {setting : Setting} {source : Path} {companions : Companions} {m : Metadata} {p : Program}
  {compiled : Compiled}

-- The tags that are settled are those that are imported and those that are used.
theorem Program.tags_settled (p : Program) (env : Env) (companions : Companions) (m : Metadata) :
    (p.settled env companions m).tags =
      ((p.importedTags env.registry env.source env.working ++ p.usedTags env).foldl Metadata.addTag m).tags := by
  have hscope := (tags_moduleScope env.registry env.source env.working
    (p.classify env.registry env.source).scopes.moduleScope m).1
  rw [p.importedTags_moduleScope] at hscope
  unfold settled
  dsimp only
  rw [hscope, List.foldl_append]
  rfl

-- Companions are requests, and requests are texts.
theorem Program.isValid_deps_settled (hdeps : ∀ d ∈ m.deps, d.encode.IsValid) (env : Env) :
    ∀ d ∈ (p.settled env companions m).deps, d.encode.IsValid := by
  have hrelative (d : Dependency) (hd : d.encode.IsValid) : (d.relativeTo env.source env.working).encode.IsValid := by
    cases d with
    | path path => exact .string _
    | package path => exact .string _
    | other value => exact hd
  have hsettled : (p.settled env companions m).deps =
      (m.withCompanions companions).map (·.relativeTo env.source env.working) := by
    have hscope := (tags_moduleScope env.registry env.source env.working
      (p.classify env.registry env.source).scopes.moduleScope m).1
    unfold settled
    dsimp only
    rw [hscope, ← List.foldl_append, Metadata.foldl_addTag_eq]
    rfl
  rw [hsettled]
  refine List.forall_mem_map.mpr fun d hd => hrelative d ?_
  rw [m.withCompanions_eq] at hd
  rcases List.mem_append.mp hd with hd | hd
  · rcases List.mem_append.mp hd with hd | hd
    · obtain ⟨style, -, rfl⟩ := Option.map_eq_some_iff.mp (Option.mem_toList.mp hd)
      exact .string _
    · obtain ⟨package, -, rfl⟩ := Option.map_eq_some_iff.mp (Option.mem_toList.mp hd)
      exact .string _
  · exact hdeps d hd

/-- The module of a template ends with its metadata object. The tags in the metadata are those that the
module scope imports, and others that are imported where they are used. -/
theorem exists_attaches_of_compileTemplate (htext : setting.text = standardText setting.options)
    (h : compileTemplate setting source companions m p = .ok compiled) :
    let imported :=
      moduleScope setting.registry source setting.working (p.classify setting.registry source).scopes.moduleScope m
    ∃ (module : Module) (s : State),
      compiled = ⟨module.batchWrites.print, compiled.templateMeta, s.metadata⟩ ∧
      Module.Attaches setting.options imported.1 (module, compiled.templateMeta) s ∧
      s.ImportsTags imported.2.2.tags := by
  intro imported
  rw [compileTemplate_eq] at h
  obtain ⟨module, templateMeta, s, hrun, rfl⟩ := Compiled.ofRun_eq_ok h
  refine ⟨module, s, rfl, leaves_compileScopes _ _ _ _ _ _ _ _ _ hrun, ?_⟩
  have hlogic := isModuleLogic_importsTags imported.2.2.tags
  have htexts (marks : Marks) (v : String) : Ensures (State.ImportsTags imported.2.2.tags)
      (Op.AreClear (fun _ => True) fun _ => true) (setting.text marks v) := by
    rw [htext]
    exact hlogic.standardText setting.options marks v
  have hall : Node.allIn (fun _ _ => true) (p.classify setting.registry source).scopes.renderScope = true :=
    (Node.all_iff_occurrences.2 _ []).mpr fun _ _ => rfl
  exact (hlogic.compileScopes htexts _ (authored_moduleScope _ _ _ _ _) _ hall _ _ _
    (fun request hrequest => .inl hrequest) hrun).1

/-- The views of a template that compiles agree, whatever dependencies were recorded of it before. -/
theorem viewsAgree_of_compileTemplate (htext : setting.text = standardText setting.options)
    (hmacros : ∀ name, m.macros.contains name = p.macroNames.contains name) (htags : m.tags = [])
    (hdeps : ∀ d ∈ m.deps, d.encode.IsValid)
    (h : compileTemplate setting source companions m p = .ok compiled) :
    compiled.ViewsAgree (setting.env source p.macroNames) p := by
  obtain ⟨hmetadata, hmeta⟩ := recorded_of_compileTemplate htext h
  obtain ⟨module, s, hcompiled, hattaches, himports⟩ := exists_attaches_of_compileTemplate htext h
  obtain ⟨hscope, hscopeItems⟩ := tags_moduleScope setting.registry source setting.working
    (p.classify setting.registry source).scopes.moduleScope m
  have hkind : (setting.env source m.macros).kindOf = (setting.env source p.macroNames).kindOf :=
    congrArg View.kindOf (setting.view_env_congr source hmacros)
  have hcode : compiled.code = module.batchWrites.print := by rw [hcompiled]
  have hstate : s.metadata = compiled.metadata := by rw [hcompiled]
  have htagsEq : compiled.metadata.tags = ((p.importedTags setting.registry source setting.working ++
      p.usedTags (setting.env source p.macroNames)).foldl Metadata.addTag m).tags := by
    rw [hmetadata, p.tags_settled, p.usedTags_congr hkind rfl rfl rfl]
    rfl
  refine ⟨hmeta, ?_, fun request => ?_, ⟨module.batchWrites, hcode, fun request hrequest => ?_⟩,
    fun hwrite => ?_⟩
  · rw [htagsEq]
    exact Metadata.nodup_tags_foldl_addTag (htags ▸ List.nodup_nil) _
  · rw [htagsEq, Metadata.mem_tags_foldl_addTag, htags, List.mem_append]
    simp [Setting.env]
  · rw [← hstate] at hrequest
    refine hattaches.mem_importSources ((himports request hrequest).imp_left fun hgiven => ?_)
    -- a tag that the module scope records is one that it imports, under its request
    rw [hscope, Metadata.mem_tags_foldl_addTag, htags] at hgiven
    exact hscopeItems request (hgiven.resolve_left List.not_mem_nil)
  · obtain ⟨start, template, componentType, htemplate, hname, hprint⟩ := hattaches.print_batchWrites hwrite
    have hvalid : ∀ d ∈ compiled.templateMeta.deps, d.IsValid := by
      rw [hmeta, hmetadata]
      exact List.forall_mem_map.mpr (p.isValid_deps_settled hdeps _)
    have hwritten := TemplateMeta.isWritten htemplate hname hvalid
    refine ⟨start, template, componentType, ?_, hwritten⟩
    rw [hcode, hprint, hwritten.printed]

end

/-! ## Sessions -/

namespace Workspace

theorem viewsAgree_of_translate {w : Workspace} {p : Path} {program : Program} {s : Session} {compiled : Compiled}
    (htext : w.setting.text = standardText w.setting.options) (hcode : program.moduleCode = none)
    (h : ((w.translate p program).run s).1 = .ok compiled) :
    compiled.ViewsAgree (w.setting.env p program.macroNames) program := by
  obtain ⟨c, capture, hcompiled⟩ := exists_compileTemplate hcode h
  have hstart : (prepared p c program).tags = [] ∧ (prepared p c program).deps = [] := by
    rw [prepared, Metadata.prepare, Metadata.foldl_addMacro_eq]
    exact ⟨rfl, rfl⟩
  obtain ⟨m, htags, hdeps, hmacros, hcompiled⟩ : ∃ m : Metadata, m.tags = [] ∧ m.deps = [] ∧
      (∀ name, m.macros.contains name = program.macroNames.contains name) ∧
      compileTemplate w.setting p c m program = .ok compiled :=
    ⟨{ prepared p c program with capture }, hstart.1, hstart.2, contains_macros_prepared p c program,
      hcompiled⟩
  have hvalid : ∀ d ∈ m.deps, d.encode.IsValid := by
    rw [hdeps]
    exact List.forall_mem_nil _
  exact viewsAgree_of_compileTemplate htext hmacros htags hvalid hcompiled

end Workspace

end TemplateCompiler
