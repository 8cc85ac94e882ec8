import TemplateCompiler.Proofs.Render.Identifiers
import TemplateCompiler.Proofs.Session.ComponentClasses
import TemplateCompiler.Proofs.Session.Loading

/-!
# Readings of storage

How often storage is read while a file is compiled. The directory of each template that is analysed is
listed once, before its tags are judged, so that the listings come in the order of the loads: the record
of a template is made from the listing at its own place (`Reads`). Behind that the companions are
remembered, and asking for them again before the module is assembled reads nothing
(`run_translateAskingAgain`).
-/

namespace TemplateCompiler

/-! ## Listings -/

/-- The number of listings that it takes to find the companions of a file: a path without a file name has
none. -/
def Path.listings (p : Path) : Nat := if p.fileStem.isSome then 1 else 0

namespace Storage

variable (storage : Storage) (p : Path) (n : Nat)

theorem readings_companions : (storage.companions p n).2 = n + p.listings := by
  unfold companions Path.listings
  cases p.fileStem <;> rfl

/-- A directory that cannot be listed has no companions. -/
theorem companions_of_list_eq_none (h : storage.list n p.directory = none) :
    (storage.companions p n).1 = {} := by
  unfold companions
  cases p.fileStem with
  | none => rfl
  | some stem =>
    rw [h]
    rfl

end Storage

namespace Workspace

open Render

variable {w : Workspace} {s t u : Session} {requests : List Path}

/-! ## Files that are listed -/

/-- The directory of the file is listed when it is loaded: it is a template, and its path has a file
name. -/
def isListed (w : Workspace) (q : Path) : Bool := (w.template? q).isSome && q.fileStem.isSome

theorem isListed_of_template? {q : Path} {program : Program} (h : w.template? q = some program) :
    w.isListed q = q.fileStem.isSome := by
  rw [isListed, h]
  rfl

theorem isListed_of_eq_none {q : Path} (h : w.template? q = none) : w.isListed q = false := by
  rw [isListed, h]
  rfl

/-- The record of a template says of its component what is shown by the listing that `n` others went
before. -/
def IsRecordedFrom (w : Workspace) (r : Records) (q : Path) (n : Nat) : Prop :=
  let c := (w.storage.companions q n).1
  ∃ (program : Program) (capture : Bool), w.template? q = some program ∧
    r.get? q = some (.analyzed ⟨capture, c.component.isSome || program.hasClass, c.browser.isSome⟩)

/-- From one session to the other the given files were requested. One listing was made for each template
among them, from which it has its record, and all records of before are still there. -/
structure Reads (w : Workspace) (s t : Session) (requests : List Path) : Prop where
  loads : t.loads = s.loads ++ requests
  readings : t.readings = s.readings + (requests.filter w.isListed).length
  kept : ∀ q record, s.records.get? q = some record → t.records.get? q = some record
  recorded : ∀ e ∈ (requests.filter w.isListed).zipIdx s.readings, w.IsRecordedFrom t.records e.1 e.2

namespace Reads

theorem refl (w : Workspace) (s : Session) : w.Reads s s [] :=
  ⟨(List.append_nil _).symm, rfl, fun _ _ h => h, fun _ h => (List.not_mem_nil h).elim⟩

theorem trans {more : List Path} (hst : w.Reads s t requests) (htu : w.Reads t u more) :
    w.Reads s u (requests ++ more) := by
  refine ⟨?_, ?_, fun q record h => htu.kept q record (hst.kept q record h), fun e he => ?_⟩
  · rw [htu.loads, hst.loads, List.append_assoc]
  · rw [htu.readings, hst.readings, List.filter_append, List.length_append, Nat.add_assoc]
  · rw [List.filter_append, List.zipIdx_append, ← hst.readings] at he
    rcases List.mem_append.mp he with he | he
    · obtain ⟨program, capture, hprogram, hrecord⟩ := hst.recorded e he
      exact ⟨program, capture, hprogram, htu.kept _ _ hrecord⟩
    · exact htu.recorded e he

-- The templates that were requested are settled, so that none of them is a file in progress.
theorem recorded_insert {p : Path} (h : w.Reads s t requests)
    (hp : s.records.get? p = some .inProgress) {r : Records}
    (hr : ∀ q, p.same q = false → r.get? q = t.records.get? q) :
    ∀ e ∈ (requests.filter w.isListed).zipIdx s.readings, w.IsRecordedFrom r e.1 e.2 := by
  intro e he
  obtain ⟨program, capture, hprogram, hrecord⟩ := h.recorded e he
  refine ⟨program, capture, hprogram, ?_⟩
  rw [hr e.1, hrecord]
  rw [Bool.eq_false_iff]
  intro hsame
  have hopen := h.kept p _ hp
  rw [Records.get?_eq_of_same hsame, hrecord] at hopen
  cases hopen

/-- A file that was listed first, and for which others were requested then, gets its record. -/
theorem finish {p : Path} {summary : Summary} (hrecord : s.records.get? p = none)
    (h : w.Reads { examining s p with readings := s.readings + if w.isListed p then 1 else 0 } t requests)
    (hsummary : w.isListed p = true → ∃ program, w.template? p = some program ∧
      summary.component = ((w.storage.companions p s.readings).1.component.isSome || program.hasClass) ∧
      summary.browser = (w.storage.companions p s.readings).1.browser.isSome) :
    w.Reads s { t with records := t.records.insert p (.analyzed summary) } (p :: requests) := by
  have hopen : (examining s p).records.get? p = some .inProgress := by
    rw [examining, Records.get?_insert, if_pos (Path.same_refl p)]
  have hother (q : Path) (hne : p.same q = false) :
      (t.records.insert p (.analyzed summary)).get? q = t.records.get? q := by
    rw [Records.get?_insert, hne, if_neg Bool.false_ne_true]
  -- the mark of a file in progress gives way to the record, all other records stay
  have hlater := h.recorded_insert hopen hother
  refine ⟨?_, ?_, fun q record hq => ?_, fun e he => ?_⟩
  · rw [h.loads, examining, List.append_assoc]
    rfl
  · show t.readings = _
    rw [h.readings, List.filter_cons]
    cases w.isListed p
    · rfl
    · rw [if_pos rfl, if_pos rfl, List.length_cons, Nat.add_assoc, Nat.add_comm 1]
  · have hne : p.same q = false := by
      rw [Bool.eq_false_iff]
      intro hsame
      rw [← Records.get?_eq_of_same hsame, hrecord] at hq
      cases hq
    show (t.records.insert p (.analyzed summary)).get? q = some record
    rw [hother q hne]
    apply h.kept
    rw [examining, Records.get?_insert, hne, if_neg Bool.false_ne_true]
    exact hq
  · rw [List.filter_cons] at he
    cases hlisted : w.isListed p with
    | false =>
      rw [hlisted, if_neg Bool.false_ne_true] at he
      rw [hlisted] at hlater
      exact hlater e he
    | true =>
      rw [hlisted, if_pos rfl, List.zipIdx_cons] at he
      rw [hlisted] at hlater
      rcases List.mem_cons.mp he with rfl | he
      · obtain ⟨program, hprogram, hcomponent, hbrowser⟩ := hsummary hlisted
        refine ⟨program, summary.capture, hprogram, ?_⟩
        show (t.records.insert p (.analyzed summary)).get? p = _
        rw [Records.get?_insert, if_pos (Path.same_refl p), ← hcomponent, ← hbrowser]
      · exact hlater e he

end Reads

/-! ## Analysis -/

section

variable {ask : Path → StateM Session (Option Summary)} {p : Path} {program : Program}

/-- A file is analysed with the companions of one listing, which is made before others are asked for. -/
theorem run_analyze_of_reads (hask : ∀ g u, ∃ requests, w.Reads u ((ask g).run u).2 requests) (p : Path)
    (program : Program) (s : Session) :
    let c := (w.storage.companions p s.readings).1
    ∃ (capture : Capture) (t : Session) (requests : List Path),
      (w.analyze ask p program).run s = ((c, { prepared p c program with capture }), t) ∧
      w.Reads { s with readings := s.readings + p.listings } t requests := by
  intro c
  let start : Session := { s with readings := s.readings + p.listings }
  have hkept (g : Path) (u : Session) (hu : ∃ requests, w.Reads start u requests) :
      (ask g).run u = (ask g).run u ∧ ∃ requests, w.Reads start ((ask g).run u).2 requests := by
    obtain ⟨before, hbefore⟩ := hu
    obtain ⟨more, hmore⟩ := hask g u
    exact ⟨rfl, before ++ more, hbefore.trans hmore⟩
  have hjudged := run_judgeAll_congr w.setting.registry p hkept program.occurrences (prepared p c program)
    ⟨[], Reads.refl w start⟩
  obtain ⟨capture, hcapture⟩ := judgeAll_eq w.setting.registry p ask program.occurrences
    (prepared p c program) start
  obtain ⟨requests, hreads⟩ := hjudged.2
  refine ⟨capture, _, requests, ?_, hreads⟩
  rw [analyze_run, w.storage.readings_companions]
  dsimp only
  rw [hcapture]

/-- What one round reads, if each answer for another file reads what its own requests take. -/
theorem reads_summaryRound (hask : ∀ g u, ∃ requests, w.Reads u ((ask g).run u).2 requests) (p : Path)
    (s : Session) : ∃ requests, w.Reads s ((w.summaryRound ask p).run s).2 requests := by
  cases hrecord : s.records.get? p with
  | some record =>
    rw [run_summaryRound_of_some hrecord]
    exact ⟨[], Reads.refl w s⟩
  | none =>
    cases hload : w.load p with
    | none =>
      have hlisted : w.isListed p = false := isListed_of_eq_none (by rw [template?, hload]; rfl)
      rw [run_summaryRound_of_load_eq_none hrecord hload]
      refine ⟨[p], rfl, ?_, fun _ _ h => h, fun e he => ?_⟩
      · rw [List.filter_singleton, hlisted]
        rfl
      · rw [List.filter_singleton, hlisted] at he
        exact (List.not_mem_nil he).elim
    | some program =>
      rw [run_summaryRound_of_load ask hrecord hload]
      cases hcode : program.moduleCode with
      | some code =>
        -- plain code is neither listed nor analysed
        have hlisted : w.isListed p = false :=
          isListed_of_eq_none (by rw [template?, hload, Option.filter_some, hcode]; rfl)
        have hexamine : (w.examine ask p program).run (examining s p) =
            (Metadata.ofPath p, examining s p) := by
          rw [examine, hcode]
          rfl
        rw [hexamine]
        refine ⟨[p], Reads.finish hrecord ?_ fun h => ?_⟩
        · rw [hlisted]
          exact Reads.refl w _
        · rw [hlisted] at h
          cases h
      | none =>
        have hprogram := template?_eq_some_iff.mpr ⟨hload, hcode⟩
        obtain ⟨capture, t, requests, hrun, hreads⟩ :=
          run_analyze_of_reads hask p program (examining s p)
        have hexamine : (w.examine ask p program).run (examining s p) =
            ({ prepared p (w.storage.companions p s.readings).1 program with capture }, t) := by
          rw [examine, hcode]
          show (w.analyze ask p program >>= fun r => pure r.2).run (examining s p) = _
          rw [StateT.run_bind, hrun]
          rfl
        rw [hexamine]
        refine ⟨p :: requests, Reads.finish hrecord ?_ fun _ => ⟨program, hprogram, ?_, ?_⟩⟩
        · rw [isListed_of_template? hprogram]
          exact hreads
        · rw [prepared_eq]
          rfl
        · rw [prepared_eq]
          rfl

/-- The summary of a file takes one listing for each template that is loaded for it. -/
theorem reads_fileSummary (w : Workspace) (p : Path) (s : Session) :
    ∃ requests, w.Reads s ((w.fileSummary w.sources.length p).run s).2 requests := by
  have hiterate (depth : Nat) : ∀ p s, ∃ requests,
      w.Reads s ((w.summaryRound^[depth] (fun _ => pure none) p).run s).2 requests := by
    induction depth with
    | zero => exact fun p s => ⟨[], Reads.refl w s⟩
    | succ depth ih =>
      rw [Function.iterate_succ_apply']
      exact reads_summaryRound ih
  rw [← w.iterate_summaryRound_eq fun _ => pure none]
  exact hiterate _ p s

end

-- After the analysis of a template only its own record changes.
theorem frame_translateTemplate {p : Path} {program : Program} {c : Companions} {m : Metadata}
    (h : (w.analyze (w.fileSummary w.sources.length) p program).run
      { s with records := s.records.insert p .inProgress } = ((c, m), u)) :
    let t := ((w.translateTemplate p program).run s).2
    t.loads = u.loads ∧ t.readings = u.readings ∧
      ∀ q, p.same q = false → t.records.get? q = u.records.get? q := by
  rw [run_translateTemplate_eq h]
  cases compileTemplate w.setting p c m program with
  | ok compiled =>
    refine ⟨rfl, rfl, fun q hne => ?_⟩
    rw [Records.get?_insert, hne, if_neg Bool.false_ne_true]
  | error e =>
    refine ⟨rfl, rfl, fun q hne => ?_⟩
    rw [Records.get?_erase, hne, if_neg Bool.false_ne_true]

/-! ## Asking again -/

/-- The companions that are remembered are the same in both states. -/
def SameCompanions (s t : State) : Prop := t.metadata.companions = s.metadata.companions

theorem isKept_sameCompanions : IsKept SameCompanions := by
  have hrefl (s : State) : SameCompanions s s := rfl
  refine ⟨⟨⟨hrefl, fun s t u hst htu => htu.trans hst, fun _ _ => rfl, fun _ _ _ _ => rfl,
    fun request s => ?_⟩, fun _ => rfl⟩, moves_macroFunction hrefl fun _ _ _ => rfl, fun _ _ => rfl⟩
  show (s.metadata.addTag request).companions = s.metadata.companions
  unfold Metadata.addTag
  split <;> rfl

/-- Lowers what is rendered and assembles the module around it, with the companions that are asked for in
between. -/
def compileScopesAskingAgain (w : Workspace) (env : Env) (definition : String) (items : List ModuleItem)
    (component : Option String) (rendered : List Node) (start : State) :
    StateM Session (Except Error Compiled) :=
  match outcome (lowerAll env rendered) start with
  | (.error e, _) => pure (.error e)
  | (.ok ops, t) => do
    let (c, m) ← w.companions env.source t.metadata
    pure (Compiled.ofRun (outcome (assemble env.options env.source c {
      moduleScope := items
      body := textOps definition ops
      component := t.component.or component
      definition } env.working) { t with metadata := m }))

/-- Compiles an analysed template, where its companions are asked for anew before the module is
assembled. -/
def compileAskingAgain (w : Workspace) (p : Path) (m : Metadata) (program : Program) :
    StateM Session (Except Error Compiled) :=
  let program := program.classify w.setting.registry p
  let (definition, names) := (Names.mk []).reserveAll program.declaredNames |>.generate "component"
  let scopes := program.scopes
  let (items, component, m) := moduleScope w.setting.registry p w.setting.working scopes.moduleScope m
  w.compileScopesAskingAgain (w.setting.env p m.macros) definition items component scopes.renderScope
    (.start names m .empty)

/-- Compiles the template of a file, where its companions are asked for twice. -/
def translateAskingAgain (w : Workspace) (p : Path) (program : Program) :
    StateM Session (Except Error Compiled) := do
  setRecord p .inProgress
  let (_, m) ← w.analyze (w.fileSummary w.sources.length) p program
  match ← w.compileAskingAgain p m program with
  | .ok compiled =>
    setRecord p (.analyzed compiled.metadata.summary)
    pure (.ok compiled)
  | .error e =>
    modify fun s => { s with records := s.records.erase p }
    pure (.error e)

theorem run_companions_of_some {p : Path} {m : Metadata} {c : Companions} (h : m.companions = some c)
    (s : Session) : (w.companions p m).run s = ((c, m), s) := by
  show (let r := m.resolveCompanions w.storage p s.readings
    ((r.1, r.2.1), { s with readings := r.2.2 })) = _
  rw [Metadata.resolveCompanions_of_some h]

-- Lowering leaves the companions remembered, so that storage is not read for them again.
theorem run_compileScopesAskingAgain {env : Env} {c : Companions} {start : State}
    (h : start.metadata.companions = some c)
    (htext : ∀ marks v, Moves SameCompanions (env.text marks v)) (definition : String)
    (items : List ModuleItem) (component : Option String) (rendered : List Node) (s : Session) :
    (w.compileScopesAskingAgain env definition items component rendered start).run s =
      (Compiled.ofRun (outcome (compileScopes env c definition items component rendered) start), s) := by
  unfold compileScopesAskingAgain compileScopes
  rw [outcome_bind]
  rcases hops : outcome (lowerAll env rendered) start with ⟨e | ops, t⟩
  · rfl
  · have hkept : SameCompanions start t :=
      ((moves_lower_of_text env isKept_sameCompanions htext).2 rendered).1.rel hops
    dsimp only
    rw [StateT.run_bind, run_companions_of_some (hkept.trans h)]
    rfl

theorem run_compileAskingAgain {p : Path} {m : Metadata} {c : Companions} (h : m.companions = some c)
    (htext : ∀ marks v, Moves SameCompanions (w.setting.text marks v)) (program : Program) (s : Session) :
    (w.compileAskingAgain p m program).run s = (compileTemplate w.setting p c m program, s) := by
  rw [compileTemplate_eq, ← program.declaredNames_classify w.setting.registry p]
  refine run_compileScopesAskingAgain ?_ htext _ _ _ _ s
  obtain ⟨tags, hscope⟩ := exists_tags_moduleScope w.setting.registry p w.setting.working
    (program.classify w.setting.registry p).scopes.moduleScope m
  show (moduleScope w.setting.registry p w.setting.working _ m).2.2.companions = some c
  rw [hscope]
  exact h

/-- Asking for the companions again changes nothing, neither the result nor what is read. -/
theorem run_translateAskingAgain (htext : ∀ marks v, Moves SameCompanions (w.setting.text marks v))
    (p : Path) (program : Program) (s : Session) :
    (w.translateAskingAgain p program).run s = (w.translateTemplate p program).run s := by
  obtain ⟨c, m, t, hsome, hrun⟩ : ∃ c m t, m.companions = some c ∧
      (w.analyze (w.fileSummary w.sources.length) p program).run
        { s with records := s.records.insert p .inProgress } = ((c, m), t) := by
    obtain ⟨capture, t, requests, hrun, -⟩ := run_analyze_of_reads w.reads_fileSummary p program
      { s with records := s.records.insert p .inProgress }
    exact ⟨_, _, t, by rw [prepared_eq], hrun⟩
  rw [run_translateTemplate_eq hrun]
  unfold translateAskingAgain setRecord
  simp only [StateT.run_bind, StateT.run_modify, pure_bind]
  rw [hrun]
  refine (pure_bind (m := Id) ((c, m), t) _).trans ?_
  rw [run_compileAskingAgain hsome htext]
  refine (pure_bind (m := Id) (compileTemplate w.setting p c m program, t) _).trans ?_
  cases compileTemplate w.setting p c m program <;> rfl

/-! ## Main result -/

/-- Compiling a template lists its own directory first, and then that of each template that is loaded for
it, once each and in the order of the loads, however the listings change or fail in between; each of them is
judged by its own listing. The template is analysed and its module is assembled with the companions that
its listing shows, which are remembered: to ask for them again for the module makes no difference. A
directory that cannot be listed counts as one without companions. -/
theorem readings_translate (w : Workspace) (p : Path) (program : Program) (s : Session)
    (hcode : program.moduleCode = none) :
    let t := ((w.translate p program).run s).2
    let c := (w.storage.companions p s.readings).1
    (∃ requests, t.loads = s.loads ++ requests ∧
      (requests.filter fun q => (w.load q).isSome).Pairwise (fun q r => q.same r = false) ∧
      (∀ q ∈ requests, q.same p = false) ∧
      t.readings = s.readings + p.listings + (requests.filter w.isListed).length ∧
      ∀ e ∈ (requests.filter w.isListed).zipIdx (s.readings + p.listings),
        w.IsRecordedFrom t.records e.1 e.2) ∧
    (∃ m : Metadata, m.companions = some c ∧
      m.hasComponent = (c.component.isSome || program.hasClass) ∧
      m.hasBrowserComponent = c.browser.isSome ∧
      ((w.translate p program).run s).1 = compileTemplate w.setting p c m program) ∧
    ((∀ marks v, Moves SameCompanions (w.setting.text marks v)) →
      (w.translateAskingAgain p program).run s = (w.translate p program).run s) ∧
    ∀ q n, w.storage.list n q.directory = none → (w.storage.companions q n).1 = {} := by
  intro t c
  have htranslate : w.translate p program = w.translateTemplate p program := by
    rw [translate, hcode]
  obtain ⟨capture, u, requests, hrun, hreads⟩ := run_analyze_of_reads w.reads_fileSummary p program
    { s with records := s.records.insert p .inProgress }
  have hcompiled := run_translateTemplate_eq hrun
  rw [← htranslate] at hcompiled
  refine ⟨⟨requests, ?_⟩, ⟨{ prepared p c program with capture }, ?_⟩, fun htext => ?_,
    fun q n h => w.storage.companions_of_list_eq_none q n h⟩
  · have hopen : (s.records.insert p .inProgress).get? p = some .inProgress := by
      rw [Records.get?_insert, if_pos (Path.same_refl p)]
    obtain ⟨hloads, hreadings, hrecords⟩ := frame_translateTemplate hrun
    rw [← htranslate] at hloads hreadings hrecords
    obtain ⟨others, hothers, honce, hself⟩ := (w.compiles_translate p program s).requests
    have hloads' : t.loads = s.loads ++ requests := hloads.trans hreads.loads
    -- both are what the same log has grown by
    obtain rfl : requests = others := List.append_cancel_left (hloads'.symm.trans hothers)
    exact ⟨hloads', honce, hself, hreadings.trans hreads.readings, hreads.recorded_insert hopen hrecords⟩
  · refine ⟨by rw [prepared_eq], by rw [prepared_eq], by rw [prepared_eq], ?_⟩
    rw [hcompiled]
    cases compileTemplate w.setting p c { prepared p c program with capture } program <;> rfl
  · rw [htranslate]
    exact run_translateAskingAgain htext p program s

/-- A page with a component file and a card, whose directory cannot be listed when the card is loaded. -/
theorem readings_translate_page :
    let page : Program := ⟨[.node (.tag ⟨false, ⟨1, 1⟩⟩ ⟨.static "card", [], none, ["item"]⟩ [])], none⟩
    let p : Path := ⟨"/app/page.marko"⟩
    let w : Workspace := {
      setting := .standard {} (.ofList [.ofTemplate "card" ⟨"/app/card.marko"⟩])
      storage := ⟨fun n _ => if n = 0 then some ["page.component.js", "card.component.js"] else none⟩
      sources := [(⟨"/app/card.marko"⟩, page)] }
    let t := ((w.translate p page).run .new).2
    let c := (w.storage.companions p 0).1
    page.moduleCode = none ∧ c = { component := some "./page.component.js" } ∧
      t.loads = [⟨"/app/card.marko"⟩] ∧ t.readings = 2 ∧
      t.records.get? ⟨"/app/card.marko"⟩ = some (.analyzed ⟨false, false, false⟩) ∧
      (∃ requests, t.loads = [] ++ requests ∧
        (requests.filter fun q => (w.load q).isSome).Pairwise (fun q r => q.same r = false) ∧
        (∀ q ∈ requests, q.same p = false) ∧
        t.readings = 0 + p.listings + (requests.filter w.isListed).length ∧
        ∀ e ∈ (requests.filter w.isListed).zipIdx (0 + p.listings),
          w.IsRecordedFrom t.records e.1 e.2) ∧
      (∃ m : Metadata, m.companions = some c ∧
        m.hasComponent = (c.component.isSome || page.hasClass) ∧
        m.hasBrowserComponent = c.browser.isSome ∧
        ((w.translate p page).run .new).1 = compileTemplate w.setting p c m page) ∧
      (w.translateAskingAgain p page).run .new = (w.translate p page).run .new := by
  intro page p w t c
  obtain ⟨hrequests, hcompiled, hagain, -⟩ := readings_translate w p page .new rfl
  exact ⟨rfl, by decide +kernel, by decide +kernel, by decide +kernel, by decide +kernel, hrequests,
    hcompiled, hagain fun _ _ _ => rfl⟩

end Workspace

end TemplateCompiler
