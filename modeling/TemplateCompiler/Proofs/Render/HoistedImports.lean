import Mathlib.Data.List.Nodup
import Mathlib.Data.List.Perm.Basic
import TemplateCompiler.Proofs.Render.NameHistory
import TemplateCompiler.Proofs.Render.Operands
import TemplateCompiler.Proofs.Script.Imports
import TemplateCompiler.Proofs.Text.Distinct

/-!
# Hoisted imports in the module

The imports that are asked for while a file is lowered stand in front of its module, where they are read back
(`readImports`): one declaration for each module that something is imported of, in the order in which the modules
were first asked for, with all that was asked for and nothing else (`hoisted_of_calls`). What a call does to the
imports is said once (`Hoists.step`). Exports have to have the names of words: a text of any other kind
is copied into the declaration as it is (`exists_import_not_asked_for`).
-/

namespace TemplateCompiler.Render

open Script (ImportDeclaration isIdentifierName isVariable)
open Text (AreFirstSeen distinct distinct_concat areFirstSeen_distinctFrom)

/-! ## Reading the declarations -/

/-- What a binding of an import declaration imports. -/
def hoisted? (source : String) : Script.ImportBinding → Option HoistedImport
  | .default name => some ⟨source, .default, name⟩
  | .named exported name => some ⟨source, .named exported.text, name⟩
  | .all _ => none

/-- What a declaration without attributes imports, and from which module. -/
def declaration? : Script.Statement → Option (String × List HoistedImport)
  | .imports (some bindings) source [] => do
    let imports ← bindings.mapM (hoisted? (Script.StringUnit.text source.units))
    pure (Script.StringUnit.text source.units, imports)
  | _ => none

/-- The declarations of a text that consists of imports. -/
def readImports (text : String) : Option (List (String × List HoistedImport)) := do
  let m ← Script.parseModule text
  m.items.mapM declaration?

theorem text_map_char (s : String) : Script.StringUnit.text (s.toList.map .char) = s := by
  unfold Script.StringUnit.text
  simp [List.flatMap_map, List.flatMap_singleton']

/-- What a declaration imports. -/
def hoistedOf (d : ImportDeclaration) : List HoistedImport :=
  (d.default.map fun name => HoistedImport.mk d.source .default name).toList ++
    d.named.map fun b => ⟨d.source, .named b.1, b.2⟩

theorem declaration?_statement (d : ImportDeclaration) : declaration? d.statement = some (d.source, hoistedOf d) := by
  have hsource : Script.StringUnit.text (Script.quoted d.source).units = d.source := text_map_char d.source
  have hnamed : (d.named.map fun b => Script.ImportBinding.named (.name b.1) b.2).mapM (hoisted? d.source) =
      some (d.named.map fun b => ⟨d.source, .named b.1, b.2⟩) :=
    List.mapM_map.trans List.mapM_pure
  have himports : d.bindings.mapM (hoisted? d.source) = some (hoistedOf d) := by
    unfold ImportDeclaration.bindings hoistedOf
    rw [List.mapM_append, hnamed]
    cases d.default <;> simp [hoisted?]
  unfold ImportDeclaration.statement declaration?
  simp [hsource, himports]

theorem readImports_unlines {ds : List ImportDeclaration} (hds : ∀ d ∈ ds, d.IsWritable) :
    readImports (Text.unlines (ds.map (·.text))) = some (ds.map fun d => (d.source, hoistedOf d)) := by
  have hread : declaration? ∘ ImportDeclaration.statement = fun d => some (d.source, hoistedOf d) :=
    funext declaration?_statement
  rw [readImports, ImportDeclaration.parseModule_unlines hds]
  exact List.mapM_map.trans (by rw [hread]; exact List.mapM_pure)

/-! ## The declarations of imports -/

/-- An export other than the default one, with the name that it is bound to. -/
def named? (e : HoistedImport) : Option (String × String) :=
  match e.binding with
  | .default => none
  | .named name => some (name, e.localName)

/-- The declaration of what is imported of one module. -/
def declarationOf (source : String) (entries : List HoistedImport) : ImportDeclaration where
  source := source
  default := ((entries.filter (·.binding == .default)).map (·.localName)).getLast?
  named := entries.filterMap named?

/-- The declarations of imports. -/
def Imports.declarations (imports : Imports) : List ImportDeclaration :=
  imports.sources.map fun source => declarationOf source (imports.entries.filter (·.source == source))

theorem Imports.specifier?_eq (e : HoistedImport) : specifier? e = (named? e).map ImportDeclaration.specifier := by
  unfold specifier? named?
  cases e.binding with
  | default => rfl
  | named name =>
    by_cases h : name = e.localName <;> simp [ImportDeclaration.specifier, h]

theorem Imports.clause_eq (source : String) (entries : List HoistedImport) :
    clause entries = (declarationOf source entries).clause := by
  have hnamed : entries.filterMap specifier? = (entries.filterMap named?).map ImportDeclaration.specifier := by
    rw [List.map_filterMap]
    exact List.filterMap_congr fun e _ => specifier?_eq e
  unfold clause ImportDeclaration.clause declarationOf ImportDeclaration.braces
  rw [hnamed]
  dsimp only
  cases ((entries.filter (·.binding == .default)).map (·.localName)).getLast? with
  | none => rfl
  | some name => exact if_congr (by rw [List.isEmpty_map]) rfl rfl

theorem Imports.lines_eq (imports : Imports) : imports.lines = imports.declarations.map (·.text) := by
  unfold lines declarations
  rw [List.map_map]
  refine List.map_congr_left fun source _ => ?_
  rw [clause_eq source]
  rfl

/-- Each export is imported once, under a name of its own, and can be written into a declaration. -/
structure Imports.IsSound (imports : Imports) : Prop where
  exports : (imports.entries.map fun e => (e.source, e.binding)).Nodup
  names : (imports.entries.map (·.localName)).Nodup
  bound : ∀ e ∈ imports.entries, isVariable e.localName = true
  words : ∀ e ∈ imports.entries, ∀ name, e.binding = .named name → isIdentifierName name = true

section

variable {source : String} {entries : List HoistedImport}

theorem hoistedOf_named (hsource : ∀ e ∈ entries, e.source = source) :
    ((entries.filterMap named?).map fun b => HoistedImport.mk source (.named b.1) b.2) =
      entries.filter (!·.binding == .default) := by
  induction entries with
  | nil => rfl
  | cons e rest ih =>
    obtain ⟨module, binding, name⟩ := e
    obtain rfl : module = source := hsource _ List.mem_cons_self
    have hrest := ih fun e he => hsource e (List.mem_cons_of_mem _ he)
    cases binding with
    | default =>
      rw [List.filterMap_cons_none rfl]
      simpa using hrest
    | named exported =>
      have hsome : named? ⟨module, .named exported, name⟩ = some (exported, name) := rfl
      rw [List.filterMap_cons_some hsome, List.map_cons, hrest]
      simp

/-- Of the default exports there is none or one. -/
theorem hoistedOf_default (hsource : ∀ e ∈ entries, e.source = source)
    (hexports : (entries.map fun e => (e.source, e.binding)).Nodup) :
    ((((entries.filter (·.binding == .default)).map (·.localName)).getLast?).map fun name =>
      HoistedImport.mk source .default name).toList = entries.filter (·.binding == .default) := by
  have hall : ∀ e ∈ entries.filter (·.binding == .default), e = ⟨source, .default, e.localName⟩ := by
    intro e he
    obtain ⟨hmem, hbinding⟩ := List.mem_filter.mp he
    rw [← hsource e hmem, ← beq_iff_eq.mp hbinding]
  have hnodup := (hexports.sublist ((List.filter_sublist (p := (·.binding == .default))).map _))
  generalize entries.filter (·.binding == .default) = defaults at hall hnodup ⊢
  match defaults with
  | [] => rfl
  | [e] => exact congrArg (fun e => [e]) (hall e List.mem_cons_self).symm
  | e :: e' :: rest =>
    have he := hall e List.mem_cons_self
    have he' := hall e' (List.mem_cons_of_mem _ List.mem_cons_self)
    rw [he, he'] at hnodup
    simp at hnodup

/-- A declaration imports all that it is for: the default export first, then the others. -/
theorem perm_hoistedOf (hsource : ∀ e ∈ entries, e.source = source)
    (hexports : (entries.map fun e => (e.source, e.binding)).Nodup) :
    (hoistedOf (declarationOf source entries)).Perm entries := by
  unfold hoistedOf declarationOf
  rw [hoistedOf_named hsource, hoistedOf_default hsource hexports]
  exact List.filter_append_perm _ entries

end

/-- What is imported, module by module, is all that is imported. -/
theorem perm_flatMap_sources {entries : List HoistedImport} (h : entries.Nodup) :
    ((distinct (entries.map (·.source))).flatMap fun source => entries.filter (·.source == source)).Perm entries := by
  refine (List.perm_ext_iff_of_nodup ?_ h).mpr fun e => ?_
  · refine List.nodup_flatMap.mpr ⟨fun source _ => h.filter _, (Text.nodup_distinct _).imp ?_⟩
    intro source source' hne e he he'
    simp only [List.mem_filter, beq_iff_eq] at he he'
    exact hne (he.2.symm.trans he'.2)
  · simp only [List.mem_flatMap, Text.mem_distinct, List.mem_map, List.mem_filter, beq_iff_eq]
    constructor
    · rintro ⟨source, -, he, -⟩
      exact he
    · exact fun he => ⟨e.source, ⟨e, he, rfl⟩, he, rfl⟩

namespace Imports.IsSound

variable {imports : Imports} (h : imports.IsSound)

include h

theorem isWritable : ∀ d ∈ imports.declarations, d.IsWritable := by
  intro d hd
  obtain ⟨source, -, rfl⟩ := List.mem_map.mp hd
  constructor
  · intro name hname
    obtain ⟨e, he, rfl⟩ := List.mem_map.mp (List.mem_of_getLast? hname)
    exact h.bound e (List.mem_filter.mp (List.mem_filter.mp he).1).1
  · intro b hb
    obtain ⟨e, he, hnamed⟩ := List.mem_filterMap.mp hb
    have hentry := (List.mem_filter.mp he).1
    unfold named? at hnamed
    split at hnamed
    · cases hnamed
    · rename_i exported hbinding
      cases hnamed
      exact ⟨h.words e hentry exported hbinding, h.bound e hentry⟩

theorem perm_hoistedOf (source : String) :
    (hoistedOf (declarationOf source (imports.entries.filter (·.source == source)))).Perm
      (imports.entries.filter (·.source == source)) := by
  refine Render.perm_hoistedOf (fun e he => ?_) (h.exports.sublist (List.filter_sublist.map _))
  exact beq_iff_eq.mp (List.mem_filter.mp he).2

/-- Sound imports stand in front of a module as they are, each module with its own ones. -/
theorem readImports_print : ∃ block, readImports (Module.print ⟨none, imports, []⟩) = some block ∧
    block.map (·.1) = imports.sources ∧
    (∀ d ∈ block, ∀ e, e ∈ d.2 ↔ e ∈ imports.entries ∧ e.source = d.1) ∧
    (block.flatMap (·.2)).Perm imports.entries := by
  have hprint : Module.print ⟨none, imports, []⟩ = Text.unlines (imports.declarations.map (·.text)) := by
    rw [← lines_eq]
    simp [Module.print, Module.lines]
  refine ⟨_, hprint ▸ readImports_unlines h.isWritable, ?_, ?_, ?_⟩
  · rw [declarations, List.map_map, List.map_map]
    exact List.map_id _
  · intro d hd e
    simp only [declarations, List.map_map, List.mem_map, Function.comp_apply] at hd
    obtain ⟨source, -, rfl⟩ := hd
    rw [(h.perm_hoistedOf source).mem_iff, List.mem_filter, beq_iff_eq]
    rfl
  · simp only [declarations, List.map_map, List.flatMap_map, Function.comp_apply]
    exact (List.Perm.flatMap_left _ fun source _ => h.perm_hoistedOf source).trans
      (perm_flatMap_sources h.exports.of_map)

end Imports.IsSound

/-! ## Imports over a history of calls -/

namespace NameCall

/-- What a call imports under the name that it is answered with. -/
def imported? : NameCall → String → Option HoistedImport
  | .importName source binding _, name => some ⟨source, binding, name⟩
  | _, _ => none

/-- What calls import under the names that they are answered with. -/
def imported (calls : List NameCall) (names : List String) : List HoistedImport :=
  (calls.zip names).filterMap fun x => x.1.imported? x.2

/-- If the call imports an export by name, the name is a word. -/
def NamesWord (c : NameCall) : Prop :=
  ∀ source name hint, c = .importName source (.named name) hint → isIdentifierName name = true

/-- The imports of the state are those that were asked for, and none of their names can be given again. -/
structure Hoists (asked : List HoistedImport) (s : State) : Prop where
  sound : s.imports.IsSound
  mem : ∀ e, e ∈ s.imports.entries ↔ e ∈ asked
  sources : s.imports.sources = distinct (asked.map (·.source))
  used : ∀ e ∈ s.imports.entries, e.localName ∈ s.names.used

variable {asked : List HoistedImport} {s t : State}

theorem hoists_of_empty (h : s.imports = .empty) : Hoists [] s := by
  constructor
  · rw [h]
    exact ⟨.nil, .nil, nofun, nofun⟩
  · intro e
    rw [h]
    exact Iff.rfl
  · rw [h]
    rfl
  · rw [h]
    exact nofun

/-- Other names may be taken in between. -/
theorem Hoists.of_imports_eq (h : Hoists asked s) (himports : t.imports = s.imports)
    (hnames : ∀ name ∈ s.names.used, name ∈ t.names.used) : Hoists asked t := by
  constructor
  · rw [himports]
    exact h.sound
  · rw [himports]
    exact h.mem
  · rw [himports]
    exact h.sources
  · rw [himports]
    exact fun e he => hnames _ (h.used e he)

/-- Where an export is imported already, asking for it changes nothing. -/
theorem Hoists.again (h : Hoists asked s) {e : HoistedImport} (he : e ∈ s.imports.entries) :
    Hoists (asked ++ [e]) s := by
  have hasked := (h.mem e).mp he
  refine ⟨h.sound, fun e' => ?_, ?_, h.used⟩
  · rw [h.mem, List.mem_append, List.mem_singleton]
    constructor
    · exact Or.inl
    · rintro (he' | rfl)
      · exact he'
      · exact hasked
  · rw [h.sources, List.map_append, List.map_singleton, distinct_concat,
      if_pos (List.mem_map_of_mem hasked), List.append_nil]

/-- An export that is not imported yet is imported under a new name. -/
theorem Hoists.new (h : Hoists asked s) {source : String} {binding : Binding} (hint : String)
    (hnew : s.imports.find? source binding = none)
    (hword : ∀ name, binding = .named name → isIdentifierName name = true)
    (himports : t.imports = ⟨s.imports.entries ++ [⟨source, binding, s.names.fresh hint⟩]⟩)
    (hnames : t.names = s.names.reserve (s.names.fresh hint)) :
    Hoists (asked ++ [⟨source, binding, s.names.fresh hint⟩]) t := by
  have hexport : (source, binding) ∉ s.imports.entries.map fun e => (e.source, e.binding) := by
    intro hmem
    obtain ⟨e, he, heq⟩ := List.mem_map.mp hmem
    obtain ⟨rfl, rfl⟩ := Prod.mk.inj heq
    rw [Imports.find?, Option.map_eq_none_iff, List.find?_eq_none] at hnew
    exact hnew e he (by simp)
  have hfresh : s.names.fresh hint ∉ s.imports.entries.map (·.localName) := by
    intro hmem
    obtain ⟨e, he, heq⟩ := List.mem_map.mp hmem
    exact Names.fresh_not_mem s.names hint (heq ▸ h.used e he)
  have hmodules : source ∈ asked.map (·.source) ↔ source ∈ s.imports.entries.map (·.source) := by
    simp only [List.mem_map, h.mem]
  constructor
  · rw [himports]
    constructor
    · rw [List.map_append]
      exact List.nodup_append.mpr ⟨h.sound.exports, List.nodup_singleton _, by simpa using hexport⟩
    · rw [List.map_append]
      exact List.nodup_append.mpr ⟨h.sound.names, List.nodup_singleton _, by simpa using hfresh⟩
    · intro e he
      rcases List.mem_append.mp he with he | he
      · exact h.sound.bound e he
      · rw [List.mem_singleton.mp he]
        exact isVariable_fresh _ _
    · intro e he name hname
      rcases List.mem_append.mp he with he | he
      · exact h.sound.words e he name hname
      · rw [List.mem_singleton.mp he] at hname
        exact hword name hname
  · intro e
    rw [himports, List.mem_append, List.mem_append, h.mem]
  · have hbefore : distinct (s.imports.entries.map (·.source)) = distinct (asked.map (·.source)) := h.sources
    rw [himports, Imports.sources, List.map_append, List.map_append]
    exact (distinct_concat _ source).trans (by rw [hbefore, ← if_congr hmodules rfl rfl, ← distinct_concat]; rfl)
  · intro e he
    rw [himports] at he
    rw [hnames, Names.mem_reserve]
    rcases List.mem_append.mp he with he | he
    · exact .inr (h.used e he)
    · rw [List.mem_singleton.mp he]
      exact .inl rfl

/-- What a call asks for is imported under the name that it is answered with. -/
theorem Hoists.step (h : Hoists asked s) {c : NameCall} (hword : c.NamesWord) :
    ∃ name t, outcome c.run s = (.ok name, t) ∧ Hoists (asked ++ (c.imported? name).toList) t := by
  -- All other calls leave the imports alone, and at most take a name.
  have hother {t : State} (himports : t.imports = s.imports)
      (hnames : ∀ name ∈ s.names.used, name ∈ t.names.used) : Hoists (asked ++ []) t := by
    rw [List.append_nil]
    exact h.of_imports_eq himports hnames
  cases c with
  | reserve name => exact ⟨name, _, rfl, hother rfl fun _ => List.mem_cons_of_mem _⟩
  | generate hint => exact ⟨_, _, rfl, hother rfl fun _ => List.mem_cons_of_mem _⟩
  | importName source binding hint =>
    have hrun := outcome_importName source binding hint s
    cases hfind : s.imports.find? source binding with
    | some name =>
      rw [hfind] at hrun
      exact ⟨_, s, hrun, h.again (Imports.mem_entries_of_find? hfind)⟩
    | none =>
      rw [hfind] at hrun
      exact ⟨_, _, hrun, h.new hint hfind (fun name hname => hword source name hint (by rw [hname])) rfl rfl⟩
  | macroFunction name =>
    have hrun := outcome_macroFunction name s
    cases hlookup : s.macroNames.lookup name with
    | some function =>
      rw [hlookup] at hrun
      exact ⟨function, s, hrun, hother rfl fun _ => id⟩
    | none =>
      rw [hlookup] at hrun
      exact ⟨_, _, hrun, hother rfl fun _ => List.mem_cons_of_mem _⟩

theorem Hoists.run (h : Hoists asked s) {calls : List NameCall} (hwords : ∀ c ∈ calls, c.NamesWord) :
    ∃ names t, outcome (runAll calls) s = (.ok names, t) ∧ names.length = calls.length ∧
      Hoists (asked ++ imported calls names) t := by
  induction calls generalizing asked s with
  | nil => exact ⟨[], s, rfl, rfl, by simpa [imported] using h⟩
  | cons c rest ih =>
    obtain ⟨name, u, hname, hstep⟩ := h.step (hwords c List.mem_cons_self)
    obtain ⟨names, t, hnames, hlength, hrest⟩ := ih hstep fun d hd => hwords d (List.mem_cons_of_mem _ hd)
    refine ⟨name :: names, t, ?_, by simp [hlength], ?_⟩
    · exact outcome_bind_eq_ok.mpr ⟨name, u, hname, outcome_bind_eq_ok.mpr ⟨names, t, hnames, rfl⟩⟩
    · have hmore : (c.imported? name).toList ++ imported rest names = imported (c :: rest) (name :: names) := by
        unfold imported
        rw [List.zip_cons_cons, List.filterMap_cons]
        cases c.imported? name <;> rfl
      rwa [List.append_assoc, hmore] at hrest

/-! ## Main result -/

/-- The declarations import what was asked for. There is one declaration for each module, in the order in which the
modules were first asked for. It has what was asked for from its module, and nothing else. Each export is bound once,
and no two of them have the same name. -/
structure AreHoisted (asked : List HoistedImport) (block : List (String × List HoistedImport)) : Prop where
  modules : AreFirstSeen [] (asked.map (·.source)) (block.map (·.1))
  mem : ∀ d ∈ block, ∀ e, e ∈ d.2 ↔ e ∈ asked ∧ e.source = d.1
  exports : ((block.flatMap (·.2)).map fun e => (e.source, e.binding)).Nodup
  names : ((block.flatMap (·.2)).map (·.localName)).Nodup

/-- The imports of calls whose exports are named by words stand in front of a module as they were asked for, under
the names that the calls were answered with. -/
theorem hoisted_of_calls (s : State) (hempty : s.imports = .empty) (calls : List NameCall)
    (hwords : ∀ c ∈ calls, c.NamesWord) :
    ∃ names t block, outcome (runAll calls) s = (.ok names, t) ∧ names.length = calls.length ∧
      readImports (Module.print ⟨none, t.imports, []⟩) = some block ∧ AreHoisted (imported calls names) block := by
  obtain ⟨names, t, hnames, hlength, hhoists⟩ := (hoists_of_empty hempty).run hwords
  rw [List.nil_append] at hhoists
  obtain ⟨block, hread, hmodules, hmem, hperm⟩ := hhoists.sound.readImports_print
  refine ⟨names, t, block, hnames, hlength, hread, ?_, ?_, ?_, ?_⟩
  · rw [hmodules, hhoists.sources]
    exact areFirstSeen_distinctFrom [] _
  · intro d hd e
    rw [hmem d hd, hhoists.mem]
  · exact (hperm.map _).nodup_iff.mpr hhoists.sound.exports
  · exact (hperm.map _).nodup_iff.mpr hhoists.sound.names

/-- Two exports of a module and the default export of another one, one of them asked for twice. -/
def sharedCalls : List NameCall :=
  [.importName "marko/escape" (.named "x") "marko_escapeXml", .importName "marko/renderer" .default "marko_renderer",
    .importName "marko/escape" (.named "default") "t", .importName "marko/escape" (.named "x") "marko_escapeXml"]

theorem hoisted_of_calls_shared :
    (State.start ⟨[]⟩ { id := "page" } .empty).imports = .empty ∧ (∀ c ∈ sharedCalls, c.NamesWord) ∧
      ∃ names t block, outcome (runAll sharedCalls) (.start ⟨[]⟩ { id := "page" } .empty) = (.ok names, t) ∧
        names.length = sharedCalls.length ∧ readImports (Module.print ⟨none, t.imports, []⟩) = some block ∧
        AreHoisted (imported sharedCalls names) block := by
  have hwords : ∀ c ∈ sharedCalls, c.NamesWord := by
    intro c hc source name hint heq
    subst heq
    simp only [sharedCalls, List.mem_cons, importName.injEq, Binding.named.injEq, reduceCtorEq, false_and, and_false,
      List.not_mem_nil, or_false, false_or] at hc
    rcases hc with ⟨-, rfl, -⟩ | ⟨-, rfl, -⟩ | ⟨-, rfl, -⟩ <;> decide
  exact ⟨rfl, hwords, hoisted_of_calls _ rfl _ hwords⟩

/-- An export whose name is no word: the declaration binds `_a`, which no call was answered with, and `_x` to another
export. -/
theorem exists_import_not_asked_for : ∃ (calls : List NameCall) (names : List String) (t : State)
    (block : List (String × List HoistedImport)),
    outcome (runAll calls) (.start ⟨[]⟩ { id := "page" } .empty) = (.ok names, t) ∧
      readImports (Module.print ⟨none, t.imports, []⟩) = some block ∧ ¬ AreHoisted (imported calls names) block := by
  refine ⟨[.importName "./m" (.named "_a, b") "x"], ["_x"], _,
    [("./m", [⟨"./m", .named "_a", "_a"⟩, ⟨"./m", .named "b", "_x"⟩])], rfl, by decide +kernel, fun h => ?_⟩
  have hasked := ((h.mem _ List.mem_cons_self _).mp List.mem_cons_self).1
  exact absurd hasked (by decide +kernel)

end NameCall

end TemplateCompiler.Render
