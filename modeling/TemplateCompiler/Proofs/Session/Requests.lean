import TemplateCompiler.Proofs.Registry.Entries
import TemplateCompiler.Proofs.Session.Views

/-!
# Recorded requests

What the requests denote that are recorded of a template: the one for its component and those for the tags that it
uses (`requests_denote`). A path that starts with a dot is taken for a request where it is recorded.
-/

namespace TemplateCompiler

open Path (Part isRelativeRequest)
open Render

namespace Path

-- A directory above an absolute path has the root.
theorem steps_ne_nil_of_mem_ancestors {p above : Path} (habove : above ∈ p.ancestors) (h : p.isAbsolute = true) :
    above.steps ≠ [] :=
  List.ne_nil_of_mem (isAbsolute_iff_root_mem_steps.mp ((mem_ancestorsFrom habove).2.trans h))

/-- What the request for the file of a tag denotes. -/
theorem denotes_entry_iff {p entry above : Path} {file : String} {names : List String} (working : Option Path)
    (hname : p.fileName = some file) (hup : Part.up ∉ p.parts) (habove : above ∈ p.ancestors)
    (hentry : entry.parts = (above.join ⟨"components"⟩).parts ++ names.map .name)
    (hslash : ∀ s ∈ names, '\\' ∉ s.toList) :
    p.Denotes (p.request entry.text working) entry ↔
      (isRelativeRequest entry.text = true → p.directory.place.names = []) := by
  have hcomponents : (Path.mk "components").isAbsolute = false := isFileName_components.isAbsolute_eq
  have hsteps : entry.steps = above.steps ++ ("components" :: names).map .name := by
    have hfilter : (names.map Part.name).filter (· != .here) = names.map .name :=
      List.filter_eq_self.mpr fun part hpart => by
        obtain ⟨s, -, rfl⟩ := List.mem_map.mp hpart
        rfl
    rw [steps, hentry, List.filter_append, hfilter]
    show (above.join ⟨"components"⟩).steps ++ names.map .name = _
    rw [steps_join hcomponents, steps_of_not_isAbsolute hcomponents, isFileName_components.inner_eq,
      List.append_assoc]
    rfl
  have habsolute : p.isAbsolute = entry.isAbsolute := by
    rw [← (mem_ancestorsFrom habove).2, ← isAbsolute_join hcomponents, Bool.eq_iff_iff, isAbsolute_iff_root_mem,
      isAbsolute_iff_root_mem, hentry, List.mem_append]
    simp
  by_cases hkept : isRelativeRequest entry.text = true
  · have hups : p.directory.place.ups = 0 := by
      rw [place_eq_follow_steps, steps_directory]
      refine Place.ups_follow rfl fun hmem => hup ?_
      exact List.mem_of_mem_filter (List.mem_of_mem_dropLast hmem)
    have hrelative : p.isAbsolute = false := habsolute.trans (isAbsolute_of_isRelativeRequest hkept)
    rw [request_of_relative p working hkept, denotes_iff_of_relative hkept hrelative, hups]
    simp [hkept]
  · obtain ⟨ups, hups⟩ := exists_names_of_mem_ancestors habove hup
    have hbackslash : ∀ s ∈ "components" :: names, '\\' ∉ s.toList := List.forall_mem_cons.mpr ⟨by decide, hslash⟩
    have hdenotes := denotes_request working hname (Bool.eq_false_iff.mpr hkept) habsolute
      (steps_ne_nil_of_mem_ancestors habove) hups hsteps hbackslash
    simp [hkept, hdenotes]

/-- What the request for a file from itself denotes. -/
theorem denotes_self_iff {p : Path} {file : String} (working : Option Path) (hname : p.fileName = some file)
    (hslash : '\\' ∉ file.toList) :
    p.Denotes (p.request p.text working) p ↔
      (isRelativeRequest p.text = true → p.directory.place.names.length = p.directory.place.ups) := by
  obtain ⟨d, hparent, hsteps⟩ := exists_parent_of_fileName hname
  have hdirectory : p.directory.steps = d.steps := by rw [steps_directory, hsteps, List.dropLast_concat]
  by_cases hkept : isRelativeRequest p.text = true
  · have hplace : p.place.ups = p.directory.place.ups := by
      rw [place_eq_follow_steps, hsteps, Place.follow_append, ← hdirectory, ← place_eq_follow_steps]
      generalize p.directory.place = l
      rfl
    have habsolute : p.isAbsolute = false := isAbsolute_of_isRelativeRequest hkept
    rw [request_of_relative p working hkept, denotes_iff_of_relative hkept habsolute, hplace]
    simp [hkept]
  · have hfalse : isRelativeRequest p.text = false := Bool.eq_false_iff.mpr hkept
    have hroot : p.isAbsolute = true → d.steps ≠ [] := fun habsolute =>
      List.ne_nil_of_mem (isAbsolute_iff_root_mem_steps.mp ((isAbsolute_of_parent hparent).trans habsolute))
    have hups : p.directory.steps = d.steps ++ ([] : List String).map .name := by
      rw [hdirectory, List.map_nil, List.append_nil]
    have hdowns : p.steps = d.steps ++ [file].map .name := hsteps
    have hdenotes := denotes_request working hname hfalse rfl hroot hups hdowns
      (List.forall_mem_singleton.mpr hslash)
    simp [hkept, hdenotes]

end Path

/-! ## Tags in use -/

section

variable {env : Env}

theorem Render.request?_of_kindOf {t : Tag} {name request : String} (h : env.kindOf t = .custom name request) :
    env.registry.request? env.source name env.working = some request := by
  have hname (other : String) (hother : env.kindOfName other = .custom name request) :
      env.registry.request? env.source name env.working = some request := by
    unfold Env.kindOfName at hother
    split at hother
    · cases hother
    split at hother
    · cases hother
    split at hother
    · rename_i found hfound
      cases hother
      exact hfound
    · cases hother
  unfold Env.kindOf at h
  split at h
  · cases h
  iterate 6
    split at h
    · cases h
  exact hname _ h

/-- The tags that effects use are found under a name. -/
def Effect.AreFound (env : Env) (es : List Effect) : Prop :=
  ∀ request, Effect.use request ∈ es → ∃ name, env.registry.request? env.source name env.working = some request

namespace Effect

theorem areFound_append {es fs : List Effect} (hes : AreFound env es) (hfs : AreFound env fs) :
    AreFound env (es ++ fs) := fun request h => (List.mem_append.mp h).elim (hes request) (hfs request)

-- Effects of which none is the use of a tag.
theorem areFound_of_ne {es : List Effect} (h : ∀ e ∈ es, e.request? = none) : AreFound env es := by
  intro request hmem
  cases h _ hmem

theorem areFound_inputEffects (location : Location) (t : Tag) (children : List Node) {content : List Effect}
    {forSlot : String → List Effect} (hcontent : AreFound env content) (hslots : ∀ slot, AreFound env (forSlot slot)) :
    AreFound env (inputEffects location t children content forSlot) := by
  intro request hmem
  rcases List.mem_cons.mp hmem with h | hmem
  · cases h
  rcases List.mem_append.mp hmem with hmem | hmem
  · obtain ⟨slot, -, hslot⟩ := List.mem_flatMap.mp hmem
    exact hslots slot request hslot
  · exact hcontent request hmem

theorem areFound_tagEffects (m : Marks) (t : Tag) (children : List Node) {content : List Effect}
    {forSlot : String → List Effect} (hcontent : AreFound env content) (hslots : ∀ slot, AreFound env (forSlot slot)) :
    AreFound env (tagEffects env m t children content forSlot) := by
  have hinput := areFound_inputEffects m.location t children hcontent hslots
  have hcheck (text : String) : AreFound env [.check m.location text] :=
    areFound_of_ne (List.forall_mem_singleton.mpr rfl)
  have hnone : AreFound env [] := areFound_of_ne fun e he => (List.not_mem_nil he).elim
  unfold tagEffects
  cases hkind : env.kindOf t with
  | dynamic target => exact areFound_append (hcheck target) hinput
  | slot => exact hnone
  | ifTrue | elseIfTrue => exact areFound_append (hcheck _) hcontent
  | otherwise => exact hcontent
  | loop =>
    refine areFound_append (areFound_of_ne ?_) hcontent
    unfold loopChecks
    split <;> simp [request?]
  | macroDefinition =>
    dsimp only
    split
    · exact hcontent
    · exact hnone
  | macroCall name => exact hinput
  | native name =>
    have hchecks : AreFound env (elementChecks env m.location t) := by
      refine areFound_of_ne ?_
      unfold elementChecks
      split
      · intro e he
        obtain ⟨a, -, rfl⟩ := List.mem_map.mp he
        rfl
      · split <;> simp [request?]
    dsimp only
    split
    · exact hnone
    · refine areFound_append hchecks ?_
      split
      · exact hnone
      · exact hcontent
  | custom name request =>
    intro used hmem
    rcases List.mem_cons.mp hmem with h | hmem
    · cases h
      exact ⟨name, request?_of_kindOf hkind⟩
    · exact hinput used hmem

end Effect

theorem Node.areFound_effects (env : Env) :
    (∀ n : Node, Effect.AreFound env (n.effects env) ∧ ∀ slot, Effect.AreFound env (n.effectsFor env slot)) ∧
      ∀ ns : List Node, Effect.AreFound env (effectsIn env ns) ∧
        ∀ slot, Effect.AreFound env (effectsForIn env slot ns) := by
  have hnone : Effect.AreFound env [] := Effect.areFound_of_ne fun e he => (List.not_mem_nil he).elim
  apply Node.induct
  case leaf =>
    intro m l
    refine ⟨Effect.areFound_of_ne ?_, fun slot => hnone⟩
    cases l <;> simp [effects, leafEffects, Effect.request?]
  case tag =>
    intro m t children ih
    refine ⟨Effect.areFound_tagEffects m t children ih.1 ih.2, fun slot => ?_⟩
    rw [effectsFor]
    split
    · exact Effect.areFound_inputEffects m.location t children ih.1 ih.2
    · exact hnone
  case nil => exact ⟨hnone, fun slot => hnone⟩
  case cons =>
    intro n ns hn hns
    exact ⟨Effect.areFound_append hn.1 hns.1, fun slot => Effect.areFound_append (hn.2 slot) (hns.2 slot)⟩

-- A tag is recorded under its request, whether it is imported or used.
theorem Compiled.exists_name_of_tag {compiled : Compiled} {p : Program} (h : compiled.ViewsAgree env p)
    {request : String} (hmem : request ∈ compiled.metadata.tags) :
    ∃ name, env.registry.request? env.source name env.working = some request := by
  rcases (h.mem_tags request).mp hmem with himported | hused
  · obtain ⟨i, -, hi⟩ := List.mem_filterMap.mp himported
    cases i with
    | node n => cases hi
    | statement code => cases hi
    | external declaration =>
      obtain ⟨name, -, hname⟩ := Option.bind_eq_some_iff.mp hi
      exact ⟨name, hname⟩
  · obtain ⟨e, he, hrequest⟩ := List.mem_filterMap.mp hused
    cases e with
    | check location text => cases hrequest
    | hand marks text => cases hrequest
    | use used =>
      cases hrequest
      exact ((Node.areFound_effects env).2 _).1 request he

end

/-! ## What is recorded -/

theorem TagDefinition.IsFoundFrom.denotes_iff {d : TagDefinition} {p entry : Path} (h : d.IsFoundFrom p)
    (working : Option Path) {file : String} (hname : p.fileName = some file) (hentry : d.entry = some entry)
    (hslash : '\\' ∉ d.name.toList) (hup : Part.up ∉ p.parts) :
    p.Denotes (p.request entry.text working) entry ↔
      (isRelativeRequest entry.text = true → p.directory.place.names = []) := by
  obtain ⟨above, habove, found, names, hfound, hparts, hnames⟩ := h
  cases hentry.symm.trans hfound
  have hbackslash : ∀ s ∈ names, '\\' ∉ s.toList := fun s hs hmem => hslash (hnames s hs hmem)
  exact Path.denotes_entry_iff working hname hup habove hparts hbackslash

/-- What is recorded of a template that names its file. For the component, it denotes the file unless the path is
spelled as a request; so do the requests for tags, and they are what a session records and imports. -/
theorem requests_denote (p : Path) (file : String) (hname : p.fileName = some file) :
    (∀ (m : Metadata) (c : Companions) (working : Option Path), m.hasBrowserComponent = false →
      (m.hasComponent || m.capture.isYes) = true → '\\' ∉ file.toList →
        ∃ request, (m.finalize p c working).component = some request ∧
          (p.Denotes request p ↔
            (isRelativeRequest p.text = true → p.directory.place.names.length = p.directory.place.ups))) ∧
    (∀ (disk : Disk) (asked : List (Path × String)) (name : String) (d : TagDefinition) (working : Option Path),
      disk.IsNamed →
      ((Discovery.after disk asked).lookup p name).1 = some d → '\\' ∉ name.toList → Part.up ∉ p.parts →
        ∃ entry, d.entry = some entry ∧
          (p.Denotes (p.request entry.text working) entry ↔
            (isRelativeRequest entry.text = true → p.directory.place.names = []))) ∧
    ∀ (disk : Disk) (w : Workspace) (program : Program) (s t : Session) (compiled : Compiled),
      w.setting.registry = disk.registry → w.setting.text = standardText w.setting.options →
      program.moduleCode = none → (w.translate p program).run s = (.ok compiled, t) →
        ∃ module : Module, compiled.code = module.print ∧
          ∀ request ∈ compiled.metadata.tags, request ∈ module.importSources ∧
            ∃ name d entry, disk.lookupFresh p name = some d ∧ d.entry = some entry ∧
              request = p.request entry.text w.setting.working ∧
              (disk.IsNamed → '\\' ∉ name.toList → Part.up ∉ p.parts →
                (p.Denotes request entry ↔
                  (isRelativeRequest entry.text = true → p.directory.place.names = []))) := by
  refine ⟨?_, ?_, ?_⟩
  · intro m c working hbrowser hcomponent hslash
    refine ⟨p.request p.text working, ?_, Path.denotes_self_iff working hname hslash⟩
    simp [Metadata.finalize, Metadata.componentFile, hbrowser, hcomponent]
  · intro disk asked name d working hdisk hlookup hslash hup
    obtain ⟨hfrom, rfl⟩ := Discovery.isFoundFrom_of_lookup hdisk hlookup
    have hbelow := hfrom
    obtain ⟨_, _, entry, _, hentry, _⟩ := hbelow
    exact ⟨entry, hentry, hfrom.denotes_iff working hname hentry hslash hup⟩
  · intro disk w program s t compiled hregistry htext hcode hrun
    have hviews := w.viewsAgree_of_translate htext hcode (congrArg Prod.fst hrun)
    obtain ⟨module, hcode, himports⟩ := hviews.imports
    refine ⟨module, hcode, fun request hrequest => ⟨himports request hrequest, ?_⟩⟩
    obtain ⟨name, htag⟩ := Compiled.exists_name_of_tag hviews hrequest
    have hfound : disk.registry.request? p name w.setting.working = some request := hregistry ▸ htag
    obtain ⟨d, hd, hentry⟩ := Option.bind_eq_some_iff.mp hfound
    obtain ⟨entry, hentry, heq⟩ := Option.bind_eq_some_iff.mp hentry
    have heq : request = p.request entry.text w.setting.working := (Option.some.inj heq).symm
    refine ⟨name, d, entry, hd, hentry, heq, fun hdisk hslash hup => ?_⟩
    obtain ⟨hfrom, rfl⟩ := isFoundFrom_of_lookupFresh hdisk hd
    rw [heq]
    exact hfrom.denotes_iff _ hname hentry hslash hup

/-- A page with a component and a tag beside it. -/
theorem requests_denote_page :
    let p : Path := ⟨"src/page.marko"⟩
    let m : Metadata := { Metadata.ofPath p with hasComponent := true }
    let disk : Disk := ⟨fun directory =>
      if directory.parts = [.name "src", .name "components"] then some (.directory [("card.marko", .file)])
      else none⟩
    let page : Program := ⟨[.node (.tag ⟨false, ⟨1, 1⟩⟩ ⟨.static "card", [], none, []⟩ [])], none⟩
    let w : Workspace := ⟨.standard {} disk.registry, .ofTable [], []⟩
    (∃ request, (m.finalize p {}).component = some request ∧ p.Denotes request p) ∧
    (∃ entry, p.Denotes (p.request entry.text) entry ∧
      ((Discovery.after disk [(p, "card")]).lookup p "card").1 = some (.ofTemplate "card" entry)) ∧
    ∃ compiled t, (w.translate p page).run .new = (.ok compiled, t) ∧
      compiled.metadata.tags = ["./components/card.marko"] ∧
      ∃ module : Module, compiled.code = module.print ∧ "./components/card.marko" ∈ module.importSources := by
  intro p m disk page w
  obtain ⟨hcomponent, htags, hrecorded⟩ := requests_denote p "page.marko" (by decide +kernel)
  have hrelative : ¬isRelativeRequest p.text = true := by decide +kernel
  refine ⟨?_, ?_, ?_⟩
  · obtain ⟨request, hrequest, hdenotes⟩ := hcomponent m {} (some .root) rfl rfl (by decide +kernel)
    refine ⟨request, hrequest, ?_⟩
    rw [hdenotes]
    exact fun h => absurd h hrelative
  · have hdisk : disk.IsNamed := by
      intro directory es hfound e he
      have hes : some (FileTree.directory [("card.marko", .file)]) = some (.directory es) := by
        by_cases hparts : directory.parts = [.name "src", .name "components"]
        · exact (if_pos hparts).symm.trans hfound
        · cases (if_neg hparts).symm.trans hfound
      cases hes
      rw [List.mem_singleton.mp he]
      exact ⟨⟨by decide, by decide, by decide, by decide⟩, fun f hf => (List.not_mem_nil hf).elim⟩
    have hlookup : ((Discovery.after disk [(p, "card")]).lookup p "card").1 =
        some (.ofTemplate "card" ⟨"src/components/card.marko"⟩) := by decide +kernel
    obtain ⟨entry, hentry, hdenotes⟩ :=
      htags disk [(p, "card")] "card" _ (some .root) hdisk hlookup (by decide +kernel) (by decide +kernel)
    obtain rfl : entry = ⟨"src/components/card.marko"⟩ := (Option.some.inj hentry).symm
    have hnot : ¬isRelativeRequest "src/components/card.marko" = true := by decide +kernel
    refine ⟨⟨"src/components/card.marko"⟩, ?_, hlookup⟩
    rw [hdenotes]
    exact fun h => absurd h hnot
  · have hok : ((w.translate p page).run .new).1.toOption.map (·.metadata.tags) =
        some ["./components/card.marko"] := by decide +kernel
    obtain ⟨compiled, hrun, hused⟩ := exists_eq_ok_pair_of_map_eq_some hok
    obtain ⟨module, hcode, himports⟩ := hrecorded disk w page .new _ compiled rfl rfl rfl hrun
    exact ⟨compiled, _, hrun, hused, module, hcode, (himports _ (hused ▸ List.mem_singleton.mpr rfl)).1⟩

/-- A dot in front of the path of a page in a directory leads its requests elsewhere: the one for the page itself,
and the one for a tag beside it. -/
theorem exists_request_elsewhere :
    let p : Path := ⟨"./src/page.marko"⟩
    let m : Metadata := { Metadata.ofPath p with hasComponent := true }
    let tree : FileTree := .ofPaths ["src/components/card.marko"]
    let entry : Path := ⟨"./src/components/card.marko"⟩
    (m.finalize p {}).component = some "./src/page.marko" ∧ ¬p.Denotes "./src/page.marko" p ∧
      tree.registry.lookup p "card" = some (.ofTemplate "card" entry) ∧
      tree.registry.request? p "card" (some .root) = some "./src/components/card.marko" ∧
      ¬p.Denotes "./src/components/card.marko" entry := by
  intro p m tree entry
  refine ⟨by decide +kernel, ?_, by decide +kernel, by decide +kernel, ?_⟩
  · rw [Path.Denotes, if_pos (by decide +kernel)]
    decide +kernel
  · rw [Path.Denotes, if_pos (by decide +kernel)]
    decide +kernel

end TemplateCompiler
