import TemplateCompiler.Proofs.Lowering.Frames
import TemplateCompiler.Proofs.Session.Analysis
import TemplateCompiler.Proofs.Session.Records

/-!
# The history of a session

What a session has compiled before does not show in what it records and answers later, as long as no
file asks for its own summary. Each file that is asked for while others are in progress gets the summary
that the sources say (`run_fileSummary`), by both ways to come to a record.
-/

namespace TemplateCompiler.Workspace

/-! ## Files in progress -/

/-- The files in progress when a file is asked for: each leads to it by questions, no two of them are
the same, and all are among the sources. -/
structure IsStack (w : Workspace) (stack : List Path) (p : Path) : Prop where
  asks : ∀ f ∈ stack, Relation.TransGen w.Asks f p
  distinct : stack.Pairwise fun f g => f.same g = false
  loaded : ∀ f ∈ stack, (w.load f).isSome = true

section

variable {w : Workspace} {stack : List Path} {p g : Path} {program : Program}

theorem isStack_nil (w : Workspace) (p : Path) : w.IsStack [] p :=
  ⟨fun _ h => (List.not_mem_nil h).elim, .nil, fun _ h => (List.not_mem_nil h).elim⟩

theorem IsStack.push_distinct (hacyclic : w.IsAcyclic) (h : w.IsStack stack p) :
    (p :: stack).Pairwise fun f g => f.same g = false := by
  refine List.pairwise_cons.mpr ⟨fun f hf => ?_, h.distinct⟩
  rw [Bool.eq_false_iff]
  intro hsame
  exact Bool.eq_false_iff.mp (hacyclic f p (h.asks f hf)) (Path.same_symm hsame)

theorem IsStack.push_loaded (h : w.IsStack stack p) (hload : w.load p = some program) :
    ∀ f ∈ p :: stack, (w.load f).isSome = true := by
  intro f hf
  rcases List.mem_cons.mp hf with rfl | hf
  · rw [hload]
    rfl
  · exact h.loaded f hf

-- A file that is loaded goes on the stack before it asks for others.
theorem IsStack.push (hacyclic : w.IsAcyclic) (h : w.IsStack stack p)
    (hload : w.load p = some program) (hasks : w.Asks p g) : w.IsStack (p :: stack) g := by
  refine ⟨fun f hf => ?_, h.push_distinct hacyclic, h.push_loaded hload⟩
  rcases List.mem_cons.mp hf with rfl | hf
  · exact .single hasks
  · exact (h.asks f hf).tail hasks

/-- There are no more files in progress than sources. -/
theorem length_le_of_loaded {files : List Path} (hdistinct : files.Pairwise fun f g => f.same g = false)
    (hloaded : ∀ f ∈ files, (w.load f).isSome = true) : files.length ≤ w.sources.length := by
  have hnodup : (files.map Path.parts).Nodup := by
    rw [List.Nodup, List.pairwise_map]
    refine hdistinct.imp fun {f g} hne heq => ?_
    rw [(Path.same_iff f g).mpr heq] at hne
    exact Bool.noConfusion hne
  have hsubset : files.map Path.parts ⊆ w.sources.map fun e => e.1.parts := by
    intro parts hparts
    obtain ⟨f, hf, rfl⟩ := List.mem_map.mp hparts
    have hload := hloaded f hf
    rw [load, Path.find?, Option.isSome_map, List.find?_isSome] at hload
    obtain ⟨e, he, hsame⟩ := hload
    exact List.mem_map.mpr ⟨e, List.mem_reverse.mp he, (Path.same_iff _ _).mp hsame⟩
  have hlength := hnodup.length_le_of_subset hsubset
  rwa [List.length_map, List.length_map] at hlength

end

/-! ## Running -/

section

variable {w : Workspace} {ask : Path → StateM Session (Option Summary)} {p : Path}
  {program : Program}

-- Analysing a file: its companions are read, then its tags are judged.
theorem run_analyze (hw : w.IsFixed) (ask : Path → StateM Session (Option Summary)) (p : Path)
    (program : Program) (s : Session) :
    ∃ t : Session, t.records = s.records ∧ (w.analyze ask p program).run s =
      let r := (judgeAll w.setting.registry p ask program.occurrences (w.unjudged p program)).run t
      ((w.companionsOf p, r.1), r.2) := by
  have hcompanions : (w.storage.companions p s.readings).1 = w.companionsOf p :=
    hw.companions_eq_of_same (Path.same_refl p) _ _
  refine ⟨{ s with readings := (w.storage.companions p s.readings).2 }, rfl, ?_⟩
  unfold unjudged
  rw [← hcompanions]
  rfl

/-- A template is analysed as the sources say, if all that it asks for is answered so. -/
theorem run_analyze_of_answers (hw : w.IsFixed) (hprogram : w.template? p = some program)
    {I : Records → Prop} (hask : ∀ g s, w.Asks p g → I s.records →
      ((ask g).run s).1 = w.answer g ∧ I ((ask g).run s).2.records)
    {s : Session} (hs : I s.records) :
    ((w.analyze ask p program).run s).1 = (w.companionsOf p, w.findings p program) ∧
      I ((w.analyze ask p program).run s).2.records := by
  obtain ⟨t, hrecords, hrun⟩ := run_analyze hw ask p program s
  have hstart : (w.unjudged p program).capture.isYes = true ↔
      ∃ o ∈ ([] : List Occurrence), w.TagCaptures p program o := by
    have hno : (w.unjudged p program).capture.isYes = false :=
      congrArg Summary.capture (summary_unjudged w p program)
    simp [hno]
  obtain ⟨hfindings, hI⟩ := run_judgeAll (I := fun s : Session => I s.records) hprogram hask []
    program.occurrences _ t rfl (contains_macros_unjudged w p program) hstart (hrecords ▸ hs)
  rw [hrun]
  exact ⟨congrArg (Prod.mk (w.companionsOf p)) hfindings, hI⟩

/-- A file that is loaded is examined as the sources say, if all that it asks for is answered so. -/
theorem run_examine_of_answers (hw : w.IsFixed) (hload : w.load p = some program)
    {I : Records → Prop} (hask : ∀ g s, w.Asks p g → I s.records →
      ((ask g).run s).1 = w.answer g ∧ I ((ask g).run s).2.records)
    {s : Session} (hs : I s.records) :
    w.answer p = some ((w.examine ask p program).run s).1.summary ∧
      I ((w.examine ask p program).run s).2.records := by
  unfold examine
  cases hcode : program.moduleCode with
  | some code => exact ⟨answer_of_moduleCode hload hcode, hs⟩
  | none =>
    have hprogram := template?_eq_some_iff.mpr ⟨hload, hcode⟩
    obtain ⟨hfindings, hI⟩ := run_analyze_of_answers hw hprogram hask hs
    refine ⟨?_, hI⟩
    rw [answer_eq_summary_findings hprogram]
    exact congrArg (fun r : Companions × Metadata => some r.2.summary) hfindings.symm

/-! ## Summaries on demand -/

theorem run_fileSummary_of_analyzed {depth : Nat} {s : Session} {summary : Summary}
    (h : s.records.get? p = some (.analyzed summary)) :
    (w.fileSummary depth p).run s = (some summary, s) := by
  unfold fileSummary
  simp only [StateT.run_bind, StateT.run_get, pure_bind, h]
  rfl

theorem run_fileSummary_of_load_eq_none {depth : Nat} {s : Session}
    (h : s.records.get? p = none) (hload : w.load p = none) :
    (w.fileSummary depth p).run s = (none, { s with loads := s.loads ++ [p] }) := by
  unfold fileSummary
  simp only [StateT.run_bind, StateT.run_get, pure_bind, h, request, hload]
  rfl

-- A file without a record is examined while it is in progress.
theorem run_fileSummary_of_load {depth : Nat} {s : Session} (h : s.records.get? p = none)
    (hload : w.load p = some program) :
    ∃ t : Session, t.records = s.records.insert p .inProgress ∧
      (w.fileSummary (depth + 1) p).run s =
        let r := (w.examine (w.fileSummary depth) p program).run t
        (some r.1.summary, { r.2 with records := r.2.records.insert p (.analyzed r.1.summary) }) := by
  refine ⟨{ s with loads := s.loads ++ [p], records := s.records.insert p .inProgress }, rfl, ?_⟩
  rw [fileSummary]
  simp only [StateT.run_bind, StateT.run_get, pure_bind, h, request, hload]
  rfl

/-- The summary of a file that need not be examined. A file that leads to it is not in progress, since
otherwise it would lead to itself. -/
theorem run_fileSummary_of_settled (hacyclic : w.IsAcyclic) {stack : List Path} {depth : Nat}
    {s : Session} (hstack : w.IsStack stack p) (hs : w.Consistent stack s.records)
    (hsettled : s.records.get? p = none → w.load p = none) :
    ((w.fileSummary depth p).run s).1 = w.answer p ∧
      w.Consistent stack ((w.fileSummary depth p).run s).2.records := by
  cases hrecord : s.records.get? p with
  | none =>
    have hload := hsettled hrecord
    rw [run_fileSummary_of_load_eq_none hrecord hload, answer, hload]
    exact ⟨rfl, hs⟩
  | some record =>
    cases record with
    | inProgress =>
      obtain ⟨f, hf, hsame⟩ := hs.inProgress p hrecord
      rw [hacyclic f p (hstack.asks f hf)] at hsame
      cases hsame
    | analyzed summary =>
      rw [run_fileSummary_of_analyzed hrecord, hs.analyzed p summary hrecord]
      exact ⟨rfl, hs⟩

/-- A file that is asked for has the summary that the sources say. The records stay consistent. -/
theorem run_fileSummary (hw : w.IsFixed) (hacyclic : w.IsAcyclic) (depth : Nat) (stack : List Path)
    (p : Path) (s : Session) (hstack : w.IsStack stack p) (hs : w.Consistent stack s.records)
    (hdepth : w.sources.length ≤ stack.length + depth) :
    ((w.fileSummary depth p).run s).1 = w.answer p ∧
      w.Consistent stack ((w.fileSummary depth p).run s).2.records := by
  induction depth generalizing stack p s with
  | zero =>
    refine run_fileSummary_of_settled hacyclic hstack hs fun _ => ?_
    -- all sources are in progress, so that a further one would be one of them
    cases hload : w.load p with
    | none => rfl
    | some program =>
      have hlength := length_le_of_loaded (hstack.push_distinct hacyclic)
        (hstack.push_loaded hload)
      rw [List.length_cons] at hlength
      omega
  | succ depth ih =>
    by_cases hopen : s.records.get? p = none ∧ w.load p ≠ none
    · obtain ⟨hrecord, hload⟩ := hopen
      obtain ⟨program, hload⟩ := Option.ne_none_iff_exists'.mp hload
      obtain ⟨t, hrecords, hrun⟩ := run_fileSummary_of_load hrecord hload
      -- the file takes one step of the depth, and one more place on the stack
      have hask (g : Path) (u : Session) (hasks : w.Asks p g)
          (hu : w.Consistent (p :: stack) u.records) :
          ((w.fileSummary depth g).run u).1 = w.answer g ∧
            w.Consistent (p :: stack) ((w.fileSummary depth g).run u).2.records := by
        refine ih (p :: stack) g u (hstack.push hacyclic hload hasks) hu ?_
        rw [List.length_cons]
        omega
      obtain ⟨hanswer, ht⟩ := run_examine_of_answers hw hload hask (hrecords ▸ hs.start p)
      rw [hrun]
      exact ⟨hanswer.symm, ht.finish hw hanswer⟩
    · exact run_fileSummary_of_settled hacyclic hstack hs fun hrecord =>
        Classical.not_not.mp fun hload => hopen ⟨hrecord, hload⟩

/-! ## Compilation -/

/-- The result for a file with the right answers to all questions. -/
noncomputable def result (w : Workspace) (p : Path) (program : Program) : Except Error Compiled :=
  match program.moduleCode with
  | none => compileTemplate w.setting p (w.companionsOf p) (w.findings p program) program
  | some code => compileCode p code

theorem metadata_of_compileCode {code : String} {compiled : Compiled}
    (h : compileCode p code = .ok compiled) : compiled.metadata = Metadata.ofPath p := by
  unfold compileCode at h
  split at h
  · cases h
    rfl
  · cases h

-- A template is in progress while it is analysed, and has a record behind that if it compiles.
theorem run_translateTemplate_eq {s t : Session} {c : Companions} {m : Metadata}
    (h : (w.analyze (w.fileSummary w.sources.length) p program).run
      { s with records := s.records.insert p .inProgress } = ((c, m), t)) :
    (w.translateTemplate p program).run s =
      match compileTemplate w.setting p c m program with
      | .ok compiled => (.ok compiled,
          { t with records := t.records.insert p (.analyzed compiled.metadata.summary) })
      | .error e => (.error e, { t with records := t.records.erase p }) := by
  unfold translateTemplate setRecord
  simp only [StateT.run_bind, StateT.run_modify, pure_bind]
  rw [h]
  refine (pure_bind (m := Id) ((c, m), t) _).trans ?_
  cases compileTemplate w.setting p c m program <;> rfl

/-- A template is compiled as the sources say, and leaves the record that they say or none. -/
theorem run_translateTemplate (hw : w.IsFixed) (hacyclic : w.IsAcyclic)
    (hload : w.load p = some program) (hcode : program.moduleCode = none) {s : Session}
    (hs : w.Consistent [] s.records) :
    ((w.translateTemplate p program).run s).1 = w.result p program ∧
      w.Consistent [] ((w.translateTemplate p program).run s).2.records := by
  have hprogram := template?_eq_some_iff.mpr ⟨hload, hcode⟩
  have hask (g : Path) (u : Session) (hasks : w.Asks p g) (hu : w.Consistent [p] u.records) :
      ((w.fileSummary w.sources.length g).run u).1 = w.answer g ∧
        w.Consistent [p] ((w.fileSummary w.sources.length g).run u).2.records :=
    run_fileSummary hw hacyclic _ [p] g u ((isStack_nil w p).push hacyclic hload hasks) hu
      (Nat.le_add_left _ _)
  obtain ⟨hanalyzed, ht⟩ := run_analyze_of_answers hw hprogram
    (s := { s with records := s.records.insert p .inProgress }) hask (hs.start p)
  have hresult : w.result p program =
      compileTemplate w.setting p (w.companionsOf p) (w.findings p program) program := by
    rw [result, hcode]
  rcases hrun : (w.analyze (w.fileSummary w.sources.length) p program).run
    { s with records := s.records.insert p .inProgress } with ⟨⟨c, m⟩, t⟩
  rw [hrun] at hanalyzed ht
  obtain ⟨rfl, rfl⟩ := Prod.mk.inj hanalyzed
  rw [run_translateTemplate_eq hrun, hresult]
  cases hcompiled : compileTemplate w.setting p (w.companionsOf p) (w.findings p program) program with
  | error e => exact ⟨rfl, ht.abandon⟩
  | ok compiled =>
    -- lowering adds uses of tags and settles the metadata, but the summary is that of the analysis
    have hsummary : compiled.metadata.summary = (w.findings p program).summary := by
      rw [hw.setting] at hcompiled
      exact summary_of_compileTemplate hcompiled
    refine ⟨rfl, ht.finish hw ?_⟩
    rw [hsummary]
    exact answer_eq_summary_findings hprogram

/-- A file is compiled as the sources say. The records stay consistent. -/
theorem run_translate (hw : w.IsFixed) (hacyclic : w.IsAcyclic) (hload : w.load p = some program)
    {s : Session} (hs : w.Consistent [] s.records) :
    ((w.translate p program).run s).1 = w.result p program ∧
      w.Consistent [] ((w.translate p program).run s).2.records := by
  cases hcode : program.moduleCode with
  | none =>
    rw [translate, hcode]
    exact run_translateTemplate hw hacyclic hload hcode hs
  | some code =>
    rw [translate, result, hcode]
    dsimp only
    cases hcompiled : compileCode p code with
    | error e => exact ⟨rfl, hs⟩
    | ok compiled =>
      -- plain code is never in progress
      refine ⟨rfl, (hs.weaken p).finish hw ?_⟩
      rw [metadata_of_compileCode hcompiled]
      exact answer_of_moduleCode hload hcode

end

/-! ## Main result -/

/-- The sessions that come from a new one by compiling files from their sources, whether that succeeds
or not. -/
inductive Reachable (w : Workspace) : Session → Prop where
  | new : Reachable w .new
  | translate {s : Session} {p : Path} {program : Program} (h : Reachable w s)
      (hload : w.load p = some program) : Reachable w ((w.translate p program).run s).2

theorem Reachable.consistent {w : Workspace} (hw : w.IsFixed) (hacyclic : w.IsAcyclic) {s : Session}
    (h : w.Reachable s) : w.Consistent [] s.records := by
  induction h with
  | new => exact consistent_nil w
  | translate _ hload ih => exact (run_translate hw hacyclic hload ih).2

/-- A workspace with a list of definitions and a table of listings. -/
def ofTables (options : Options) (definitions : List TagDefinition)
    (listings : List (Path × List String)) (sources : List (Path × Program))
    (working : Option Path := some .root) : Workspace where
  setting := .standard options (.ofList definitions) working
  storage := .ofTable listings
  sources := sources

theorem isFixed_ofTables (options : Options) (definitions : List TagDefinition)
    (listings : List (Path × List String)) (sources : List (Path × Program)) (working : Option Path) :
    (ofTables options definitions listings sources working).IsFixed where
  lookup _ _ _ _ := rfl
  list _ _ _ _ h := Path.find?_eq_of_same h listings
  setting := rfl

/-- In a workspace where no file asks for its own summary, all that a session records of a file is what
the sources say of it, and each file is compiled as by a session that knows nothing yet. -/
theorem history_independent (options : Options) (definitions : List TagDefinition)
    (listings : List (Path × List String)) (sources : List (Path × Program)) (working : Option Path)
    (hacyclic : (ofTables options definitions listings sources working).IsAcyclic) (s : Session)
    (hs : (ofTables options definitions listings sources working).Reachable s) :
    let w := ofTables options definitions listings sources working
    (∀ g summary, s.records.summary? g = some summary →
      (summary.capture = true ↔ w.Captures g) ∧ summary.component = w.hasComponent g ∧
        summary.browser = w.hasBrowserComponent g) ∧
    ∀ f program, w.load f = some program →
      ((w.translate f program).run s).1 = ((w.translate f program).run .new).1 := by
  intro w
  have hw : w.IsFixed := isFixed_ofTables options definitions listings sources working
  have hconsistent : w.Consistent [] s.records := hs.consistent hw hacyclic
  constructor
  · intro g summary hsummary
    exact answer_eq_some
      (hconsistent.analyzed g summary (Records.summary?_eq_some_iff.mp hsummary))
  · intro f program hload
    rw [(run_translate hw hacyclic hload hconsistent).1,
      (run_translate hw hacyclic hload (consistent_nil w)).1]

/-- A page with a card that has a component, after the page was compiled. -/
theorem history_independent_card :
    let place : Marks := ⟨false, ⟨1, 1⟩⟩
    let page : Program := ⟨[.node (.tag place ⟨.static "card", [], none, ["item"]⟩
      [.leaf place (.placeholder "item.name" true)])], none⟩
    let card : Program := ⟨[.node (.leaf place (.component "class \x7b \x7d"))], none⟩
    let w := ofTables {} [.ofTemplate "card" ⟨"/app/card.marko"⟩] []
      [(⟨"/app/page.marko"⟩, page), (⟨"/app/card.marko"⟩, card)]
    let s := ((w.translate ⟨"/app/page.marko"⟩ page).run .new).2
    w.IsAcyclic ∧ w.Reachable s ∧
      (∀ g summary, s.records.summary? g = some summary →
        (summary.capture = true ↔ w.Captures g) ∧ summary.component = w.hasComponent g ∧
          summary.browser = w.hasBrowserComponent g) ∧
      ∀ f program, w.load f = some program →
        ((w.translate f program).run s).1 = ((w.translate f program).run .new).1 := by
  intro place page card w s
  have hne : (Path.mk "/app/card.marko").same ⟨"/app/page.marko"⟩ = false := by decide +kernel
  have hpage : w.load ⟨"/app/page.marko"⟩ = some page := by
    show Path.find? _ [(_, card), (_, page)] = some page
    rw [Path.find?_cons, hne, if_neg Bool.false_ne_true, Path.find?_cons, if_pos (Path.same_refl _)]
  have hcard : w.template? ⟨"/app/card.marko"⟩ = some card := by
    have hload : w.load ⟨"/app/card.marko"⟩ = some card := by
      show Path.find? _ [(_, card), (_, page)] = some card
      rw [Path.find?_cons, if_pos (Path.same_refl _)]
    rw [template?, hload]
    rfl
  -- only the card is asked for, and it has no tags to ask with
  have hasks (p q : Path) (h : w.Asks p q) :
      q = ⟨"/app/card.marko"⟩ ∧ p.same ⟨"/app/card.marko"⟩ = false := by
    obtain ⟨program, before, o, after, hprogram, hsplit, ⟨-, -, owner, name, d, -, -, hlookup, hd⟩, -⟩ := h
    constructor
    · have hmem := List.mem_of_find?_eq_some hlookup
      obtain rfl : d = .ofTemplate "card" ⟨"/app/card.marko"⟩ := by simpa using hmem
      cases hd
      rfl
    · rw [Bool.eq_false_iff]
      intro hsame
      rw [template?_eq_of_same hsame, hcard] at hprogram
      obtain rfl : card = program := Option.some.inj hprogram
      have hnil : card.occurrences = [] := rfl
      rw [hnil] at hsplit
      simp at hsplit
  have hacyclic : w.IsAcyclic := by
    intro p q h
    obtain ⟨_, hfirst, -⟩ := Relation.TransGen.head'_iff.mp h
    obtain ⟨_, -, hlast⟩ := Relation.TransGen.tail'_iff.mp h
    rw [(hasks _ q hlast).1]
    exact (hasks p _ hfirst).2
  have hs : w.Reachable s := .translate .new hpage
  exact ⟨hacyclic, hs, history_independent {} [.ofTemplate "card" ⟨"/app/card.marko"⟩] []
    [(⟨"/app/page.marko"⟩, page), (⟨"/app/card.marko"⟩, card)] _ hacyclic s hs⟩

end TemplateCompiler.Workspace
