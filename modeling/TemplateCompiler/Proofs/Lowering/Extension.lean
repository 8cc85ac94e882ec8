import TemplateCompiler.Proofs.Lowering.Logic

/-!
# States that are extended

Lowering only adds to the state, and never takes back what it added, not even if it fails. Of the record of the
file just the tags in use get more, each of them once (`State.Extends`). Imports, names and the functions of
macros that were there before stay what they were. Each basic step does that (`isKept_extends`), so each run
does (`extends_lowerAll`).
-/

namespace TemplateCompiler

/-! ## Lists that get more -/

/-- The second list has the first one in front, and what it has behind that is new, each entry once. -/
def Gains {α : Type} (as bs : List α) : Prop :=
  ∃ added, bs = as ++ added ∧ added.Nodup ∧ ∀ a ∈ added, a ∉ as

theorem gains_refl {α : Type} (as : List α) : Gains as as :=
  ⟨[], (List.append_nil as).symm, .nil, fun _ h => (List.not_mem_nil h).elim⟩

theorem Gains.trans {α : Type} {as bs cs : List α} (hab : Gains as bs) (hbc : Gains bs cs) : Gains as cs := by
  obtain ⟨added, rfl, hadded, hnew⟩ := hab
  obtain ⟨more, rfl, hmore, hnew'⟩ := hbc
  refine ⟨added ++ more, List.append_assoc _ _ _, ?_, ?_⟩
  · exact hadded.append hmore fun a ha ha' => hnew' a ha' (List.mem_append_right _ ha)
  · intro a ha
    rcases List.mem_append.mp ha with ha | ha
    · exact hnew a ha
    · exact fun has => hnew' a ha (List.mem_append_left _ has)

/-- Recording a tag leaves everything else in the record, and the tags that were there. -/
theorem Metadata.gains_addTag (m : Metadata) (request : String) :
    m.addTag request = { m with tags := (m.addTag request).tags } ∧ Gains m.tags (m.addTag request).tags := by
  unfold addTag
  split
  · exact ⟨rfl, gains_refl _⟩
  · rename_i hnew
    refine ⟨rfl, [request], rfl, List.nodup_singleton _, fun other hother => ?_⟩
    rw [List.mem_singleton.mp hother]
    exact fun hmem => hnew (List.contains_iff_mem.mpr hmem)

namespace Render

/-- Imports that are added behind others leave each export that was imported its name. -/
theorem Imports.find?_of_prefix {imports more : Imports} (h : imports.entries <+: more.entries) {source : String}
    {binding : Binding} {name : String} (hfind : imports.find? source binding = some name) :
    more.find? source binding = some name := by
  obtain ⟨e, he, hname⟩ := Option.map_eq_some_iff.mp hfind
  exact Option.map_eq_some_iff.mpr ⟨e, h.find?_eq_some he, hname⟩

/-! ## Extending a state -/

/-- The second state has all that the first one has. In the record of the file there are only new tags. -/
structure State.Extends (s t : State) : Prop where
  record : t.metadata = { s.metadata with tags := t.metadata.tags }
  tags : Gains s.metadata.tags t.metadata.tags
  imports : s.imports.entries <+: t.imports.entries
  names : s.names.used <:+ t.names.used
  functions : s.macroNames <+: t.macroNames
  nextKey : s.nextKey ≤ t.nextKey

namespace State.Extends

variable {s t u : State}

theorem refl (s : State) : s.Extends s :=
  ⟨rfl, gains_refl _, List.prefix_rfl, List.suffix_rfl, List.prefix_rfl, Nat.le_refl _⟩

theorem trans (hst : s.Extends t) (htu : t.Extends u) : s.Extends u where
  record := by rw [htu.record, hst.record]
  tags := hst.tags.trans htu.tags
  imports := hst.imports.trans htu.imports
  names := hst.names.trans htu.names
  functions := hst.functions.trans htu.functions
  nextKey := hst.nextKey.trans htu.nextKey

/-- A state with one more name. -/
theorem reserve (s : State) (name : String) : s.Extends { s with names := s.names.reserve name } :=
  { refl s with names := List.suffix_cons _ _ }

end State.Extends

theorem moves_extends_importName (source : String) (binding : Binding) (hint : String) :
    Moves State.Extends (importName source binding hint) := by
  intro s
  rw [outcome_importName]
  cases s.imports.find? source binding with
  | some name => exact .refl s
  | none => exact { State.Extends.reserve s (s.names.fresh hint) with imports := List.prefix_append _ _ }

theorem moves_extends_macroFunction (name : String) : Moves State.Extends (macroFunction name) := by
  intro s
  rw [outcome_macroFunction]
  cases s.macroNames.lookup name with
  | some function => exact .refl s
  | none => exact { State.Extends.reserve s (s.names.fresh name) with functions := List.prefix_append _ _ }

/-- Each basic step extends the state. -/
theorem isKept_extends : IsKept State.Extends where
  refl := .refl
  trans _ _ _ := State.Extends.trans
  generateName hint s := .reserve s _
  importName := moves_extends_importName
  takeKey s := { State.Extends.refl s with nextKey := Nat.le_succ _ }
  useTag request s := by
    obtain ⟨hrecord, htags⟩ := s.metadata.gains_addTag request
    exact { State.Extends.refl s with record := hrecord, tags := htags }
  macroFunction := moves_extends_macroFunction
  defineComponent code s := { State.Extends.refl s with }

/-- Whether it succeeds or fails, a run of lowering leaves in the record of the file everything but the tags in
use, and has new tags behind those that were there, each once. Each export that was imported and each macro that
had a function have the same name as before, the names in use stay in use, and the next key is no smaller. -/
theorem extends_lowerAll {env : Env} (htext : env.text = standardText env.options) (ns : List Node)
    {s t : State} {r : Except Error (List LoweredOp)} (hrun : outcome (lowerAll env ns) s = (r, t)) :
    (∃ added, t.metadata = { s.metadata with tags := s.metadata.tags ++ added } ∧ added.Nodup ∧
      ∀ request ∈ added, request ∉ s.metadata.tags) ∧
    (∀ e ∈ s.imports.entries, e ∈ t.imports.entries) ∧
    (∀ source binding name, s.imports.find? source binding = some name →
      t.imports.find? source binding = some name) ∧
    (∀ name ∈ s.names.used, name ∈ t.names.used) ∧
    (∀ name function, s.macroNames.lookup name = some function → t.macroNames.lookup name = some function) ∧
    s.nextKey ≤ t.nextKey := by
  have hextends : s.Extends t := (((moves_lower env isKept_extends htext).2 ns).1).rel hrun
  obtain ⟨added, htags, hnodup, hnew⟩ := hextends.tags
  refine ⟨⟨added, ?_, hnodup, hnew⟩, ?_, ?_, ?_, ?_, hextends.nextKey⟩
  · rw [hextends.record, htags]
  · exact fun e he => hextends.imports.mem he
  · exact fun source binding name hfind => Imports.find?_of_prefix hextends.imports hfind
  · exact fun name hname => hextends.names.mem hname
  · exact fun name function hlookup => hextends.functions.lookup_eq_some hlookup

/-- A run that fails at the second node: what the first one added is kept, behind what was there. -/
theorem extends_lowerAll_failing :
    let tags := TagRegistry.ofList [.ofTemplate "my-tag" ⟨"/app/my-tag.marko"⟩]
    let env := (Setting.standard {} tags).env ⟨"/app/page.marko"⟩ []
    let place : Marks := ⟨false, ⟨1, 1⟩⟩
    let ns : List Node := [.tag place ⟨.static "my-tag", [], none, []⟩ [],
      .tag place ⟨.static "if", [], some "(a", []⟩ []]
    let known : HoistedImport := ⟨"./old.marko", .default, "_old"⟩
    let start : State := { State.start ⟨["_old"]⟩ (.ofPath ⟨"/app/page.marko"⟩) ⟨[known]⟩ with
      metadata := (Metadata.ofPath ⟨"/app/page.marko"⟩).addTag "./old.marko", nextKey := 3 }
    ∃ e t, outcome (lowerAll env ns) start = (.error e, t) ∧
      t.metadata.tags = ["./old.marko", "./my-tag.marko"] ∧ t.nextKey = 4 ∧
      t.metadata.id = start.metadata.id ∧ t.imports.find? "./old.marko" .default = some "_old" ∧
      "_old" ∈ t.names.used := by
  intro tags env place ns known start
  have htags : (outcome (lowerAll env ns) start).2.metadata.tags = ["./old.marko", "./my-tag.marko"] := by
    decide +kernel
  have hkey : (outcome (lowerAll env ns) start).2.nextKey = 4 := by decide +kernel
  have hfails : (outcome (lowerAll env ns) start).1.toOption.isNone = true := by decide +kernel
  obtain ⟨e, hrun⟩ := exists_eq_error_of_isNone hfails
  obtain ⟨⟨added, hrecord, -⟩, -, himports, hnames, -⟩ := extends_lowerAll rfl ns hrun
  refine ⟨e, _, hrun, htags, hkey, ?_, himports "./old.marko" .default "_old" rfl, ?_⟩
  · rw [hrecord]
  · exact hnames "_old" List.mem_cons_self

end Render

end TemplateCompiler
