import TemplateCompiler.Proofs.Session.Loading

/-!
# References in a circle

A file in progress has no summary yet, and a file that asks for it in the meantime is settled without
it. What is recorded of a file in a circle therefore depends on which of the files was compiled first
(`exists_stale_summary`). It stays between two bounds that only the sources decide: state that is said
to be captured is captured (`Captures`), and state that is captured without a reference back to the
file that hands it on is said to be (`SurelyCaptures`). Where the bounds meet, the order does not matter.
-/

namespace TemplateCompiler.Workspace

/-! ## References -/

/-- A template refers to another one: one of its tags is left to it. -/
def RefersTo (w : Workspace) (p g : Path) : Prop :=
  ∃ program o, w.template? p = some program ∧ o ∈ program.occurrences ∧ w.Consults p program o g

/-- References lead from a file to another one, or to itself. -/
def Reaches (w : Workspace) (p q : Path) : Prop :=
  ∃ r, Relation.ReflTransGen w.RefersTo p r ∧ r.same q = true

/-- A template captures state, and none of those that say so refers back to the one that asks. -/
inductive SurelyCaptures (w : Workspace) : Path → Prop where
  | dynamic {p : Path} {program : Program} {o : Occurrence} {target : String}
      (hprogram : w.template? p = some program) (ho : o ∈ program.occurrences)
      (hparams : o.tag.params ≠ []) (hname : o.tag.name = .dynamic target) : SurelyCaptures w p
  | template {p g : Path} {program : Program} {o : Occurrence}
      (hprogram : w.template? p = some program) (ho : o ∈ program.occurrences)
      (hg : w.Consults p program o g) (hback : ¬w.Reaches g p) (h : SurelyCaptures w g) :
      SurelyCaptures w p
  | component {p g : Path} {program : Program} {o : Occurrence}
      (hprogram : w.template? p = some program) (ho : o ∈ program.occurrences)
      (hg : w.Consults p program o g) (hback : ¬w.Reaches g p) (hcomponent : w.hasComponent g = true)
      (hbrowser : w.hasBrowserComponent g = false) : SurelyCaptures w p

/-- A tag is one for which a template surely captures state. -/
def TagSurelyCaptures (w : Workspace) (p : Path) (program : Program) (o : Occurrence) : Prop :=
  (o.tag.params ≠ [] ∧ ∃ target, o.tag.name = .dynamic target) ∨
  ∃ g, w.Consults p program o g ∧ ¬w.Reaches g p ∧
    (w.SurelyCaptures g ∨ w.hasComponent g = true ∧ w.hasBrowserComponent g = false)

section

variable {w : Workspace} {p q g : Path} {program : Program} {o : Occurrence}

theorem surelyCaptures_iff :
    w.SurelyCaptures p ↔ ∃ program, w.template? p = some program ∧
      ∃ o ∈ program.occurrences, w.TagSurelyCaptures p program o := by
  constructor
  · intro h
    cases h with
    | dynamic hprogram ho hparams hname => exact ⟨_, hprogram, _, ho, .inl ⟨hparams, _, hname⟩⟩
    | template hprogram ho hg hback h => exact ⟨_, hprogram, _, ho, .inr ⟨_, hg, hback, .inl h⟩⟩
    | component hprogram ho hg hback hcomponent hbrowser =>
      exact ⟨_, hprogram, _, ho, .inr ⟨_, hg, hback, .inr ⟨hcomponent, hbrowser⟩⟩⟩
  · rintro ⟨program, hprogram, o, ho, ⟨hparams, target, hname⟩ |
      ⟨g, hg, hback, h | ⟨hcomponent, hbrowser⟩⟩⟩
    · exact .dynamic hprogram ho hparams hname
    · exact .template hprogram ho hg hback h
    · exact .component hprogram ho hg hback hcomponent hbrowser

theorem tagSurelyCaptures_iff_of_consults (h : w.Consults p program o g) :
    w.TagSurelyCaptures p program o ↔
      ¬w.Reaches g p ∧
        (w.SurelyCaptures g ∨ w.hasComponent g = true ∧ w.hasBrowserComponent g = false) := by
  constructor
  · rintro (⟨-, target, hdynamic⟩ | ⟨g', hg', hsure⟩)
    · have hstatic := h.2.1
      rw [hdynamic] at hstatic
      obtain ⟨name, hname, -⟩ := hstatic
      cases hname
    · rwa [consults_unique h hg']
  · exact fun hsure => .inr ⟨g, h, hsure⟩

theorem reaches_of_same (h : p.same q = true) : w.Reaches p q := ⟨p, .refl, h⟩

theorem reaches_iff_of_same (h : p.same q = true) : w.Reaches g p ↔ w.Reaches g q := by
  constructor
  · rintro ⟨r, hr, hsame⟩
    exact ⟨r, hr, Path.same_trans hsame h⟩
  · rintro ⟨r, hr, hsame⟩
    exact ⟨r, hr, Path.same_trans hsame (Path.same_symm h)⟩

namespace IsFixed

variable (hw : w.IsFixed)
include hw

theorem refersTo_of_same (h : p.same q = true) (hg : w.RefersTo p g) : w.RefersTo q g := by
  obtain ⟨program, o, hprogram, ho, hconsults⟩ := hg
  rw [template?_eq_of_same h] at hprogram
  exact ⟨program, o, hprogram, ho, (hw.consults_iff_of_same h).mp hconsults⟩

-- References lead on from each spelling of a file.
theorem reaches_tail (h : w.Reaches q p) (hg : w.RefersTo p g) : w.Reaches q g := by
  obtain ⟨r, hr, hsame⟩ := h
  exact ⟨g, hr.tail (hw.refersTo_of_same (Path.same_symm hsame) hg), Path.same_refl g⟩

theorem surelyCaptures_iff_of_same (h : p.same q = true) :
    w.SurelyCaptures p ↔ w.SurelyCaptures q := by
  rw [surelyCaptures_iff, surelyCaptures_iff, template?_eq_of_same h]
  unfold TagSurelyCaptures
  simp only [hw.consults_iff_of_same h, reaches_iff_of_same h]

end IsFixed

/-! ## Bounds -/

/-- A summary is one that a file may get: its flags are right, and the captured state is between what
is surely captured and what is captured. -/
structure Bounds (w : Workspace) (p : Path) (s : Summary) : Prop where
  loaded : (w.load p).isSome = true
  component : s.component = w.hasComponent p
  browser : s.browser = w.hasBrowserComponent p
  captures : s.capture = true → w.Captures p
  capture : w.SurelyCaptures p → s.capture = true

theorem Bounds.of_same (hw : w.IsFixed) (h : p.same q = true) {s : Summary} (hs : w.Bounds p s) :
    w.Bounds q s where
  loaded := by
    rw [← load_eq_of_same h]
    exact hs.loaded
  component := hs.component.trans (hw.hasComponent_eq_of_same h)
  browser := hs.browser.trans (hw.hasBrowserComponent_eq_of_same h)
  captures hcapture := (hw.captures_iff_of_same h).mp (hs.captures hcapture)
  capture hsure := hs.capture ((hw.surelyCaptures_iff_of_same h).mpr hsure)

-- Where the bounds meet there is one summary only.
theorem Bounds.unique {s t : Summary} (hs : w.Bounds p s) (ht : w.Bounds p t)
    (hmeet : w.Captures p → w.SurelyCaptures p) : s = t := by
  have hcapture : s.capture = t.capture := by
    rw [Bool.eq_iff_iff]
    exact ⟨fun h => ht.capture (hmeet (hs.captures h)), fun h => hs.capture (hmeet (ht.captures h))⟩
  have hcomponent : s.component = t.component := hs.component.trans ht.component.symm
  have hbrowser : s.browser = t.browser := hs.browser.trans ht.browser.symm
  cases s
  cases t
  congr

theorem Bounds.exposes {s : Summary} (hs : w.Bounds p s) (h : s.exposesState = true) :
    w.Captures p ∨ w.hasComponent p = true ∧ w.hasBrowserComponent p = false := by
  rw [Summary.exposesState, Bool.or_eq_true, Bool.and_eq_true, Bool.not_eq_true', hs.component,
    hs.browser] at h
  exact h.imp_left hs.captures

theorem Bounds.exposesState {s : Summary} (hs : w.Bounds p s)
    (h : w.SurelyCaptures p ∨ w.hasComponent p = true ∧ w.hasBrowserComponent p = false) :
    s.exposesState = true := by
  rw [Summary.exposesState, Bool.or_eq_true, Bool.and_eq_true, Bool.not_eq_true', hs.component,
    hs.browser]
  exact h.imp_left hs.capture

-- A file that is not among the sources exposes nothing.
theorem isSome_load_of_exposes
    (h : w.SurelyCaptures p ∨ w.hasComponent p = true ∧ w.hasBrowserComponent p = false) :
    (w.load p).isSome = true := by
  have htemplate : ∃ program, w.template? p = some program := by
    rcases h with h | ⟨h, -⟩
    · obtain ⟨program, hprogram, -⟩ := surelyCaptures_iff.mp h
      exact ⟨program, hprogram⟩
    · rw [hasComponent, Option.any_eq_true] at h
      obtain ⟨program, hprogram, -⟩ := h
      exact ⟨program, hprogram⟩
  obtain ⟨program, hprogram⟩ := htemplate
  rw [(template?_eq_some_iff.mp hprogram).1]
  rfl

theorem bounds_of_moduleCode {code : String} (hload : w.load p = some program)
    (hcode : program.moduleCode = some code) : w.Bounds p (Metadata.ofPath p).summary := by
  have hanswer := answer_eq_some (answer_of_moduleCode hload hcode)
  refine ⟨by rw [hload]; rfl, hanswer.2.1, hanswer.2.2, hanswer.1.mp, fun h => ?_⟩
  obtain ⟨template, htemplate, -⟩ := surelyCaptures_iff.mp h
  rw [template?_eq_some_iff, hload] at htemplate
  obtain ⟨rfl, hnone⟩ := htemplate.imp_left Option.some.inj
  rw [hcode] at hnone
  cases hnone

end

/-! ## Judging -/

section

variable {w : Workspace} {p g : Path} {program : Program} {o : Occurrence}
  {ask : Path → StateM Session (Option Summary)} {I : Session → Prop}

/-- An answer for a file that another one refers to: a summary that it may get, or none, if it is not
among the sources or refers back. -/
def Admits (w : Workspace) (p g : Path) : Option Summary → Prop
  | some s => w.Bounds g s
  | none => (w.load g).isSome = true → w.Reaches g p

/-- One more tag takes the record of a file into the bounds for that tag. -/
theorem run_judge_bounds (hprogram : w.template? p = some program) (ho : o ∈ program.occurrences)
    (hask : ∀ g s, w.RefersTo p g → I s →
      w.Admits p g ((ask g).run s).1 ∧ I ((ask g).run s).2)
    {m : Metadata} (hmacros : ∀ name, m.macros.contains name = true ↔ name ∈ program.macroNames)
    {s : Session} (hs : I s) :
    let r := (o.judge w.setting.registry p ask m).run s
    I r.2 ∧
      (r.1.2.capture.isYes = true → m.capture.isYes = true ∨ w.TagCaptures p program o) ∧
      (m.capture.isYes = true ∨ w.TagSurelyCaptures p program o → r.1.2.capture.isYes = true) := by
  intro r
  have hr : r = (o.judge w.setting.registry p ask m).run s := rfl
  unfold Occurrence.judge at hr
  cases hyes : m.capture.isYes with
  | true =>
    rw [hyes, if_pos rfl] at hr
    rw [hr]
    exact ⟨hs, fun _ => .inl rfl, fun _ => hyes⟩
  | false =>
    rw [hyes, if_neg Bool.false_ne_true] at hr
    cases hverdict : o.verdict w.setting.registry p m.macros with
    | no =>
      rw [hverdict] at hr
      rw [hr]
      refine ⟨hs, fun h => ?_, ?_⟩
      · exact absurd (hyes.symm.trans h) Bool.false_ne_true
      · rintro (h | hdynamic | ⟨g, hg, -⟩)
        · cases h
        · rw [Occurrence.verdict_eq_yes_iff.mpr hdynamic] at hverdict
          cases hverdict
        · rw [(verdict_eq_ask_iff hmacros).mpr hg] at hverdict
          cases hverdict
    | yes =>
      rw [hverdict] at hr
      rw [hr]
      refine ⟨hs, fun _ => .inr (.inl (Occurrence.verdict_eq_yes_iff.mp hverdict)), fun _ => ?_⟩
      exact Capture.isYes_record m.capture true
    | ask g =>
      -- the answer of the other file decides, and it is within the bounds for that file or there is none
      have hg := (verdict_eq_ask_iff hmacros).mp hverdict
      have hanswer := hask g s ⟨program, o, hprogram, ho, hg⟩ hs
      rw [hverdict] at hr
      dsimp only at hr
      rw [StateT.run_bind] at hr
      rw [tagCaptures_iff_of_consults hg, tagSurelyCaptures_iff_of_consults hg]
      rcases hrun : (ask g).run s with ⟨_ | summary, t⟩
      · rw [hrun] at hr hanswer
        rw [hr]
        refine ⟨hanswer.2, fun h => absurd (hyes.symm.trans h) Bool.false_ne_true, ?_⟩
        rintro (h | ⟨hback, hsure⟩)
        · cases h
        -- no answer means a file that is being compiled further up
        · exact absurd (hanswer.1 (isSome_load_of_exposes hsure)) hback
      · rw [hrun] at hr hanswer
        have hbounds : w.Bounds g summary := hanswer.1
        have hcapture : r.1.2.capture.isYes = summary.exposesState := by
          rw [hr]
          show (m.capture.record summary.exposesState).isYes = _
          rw [Capture.isYes_record, hyes, Bool.or_false]
        rw [hcapture]
        refine ⟨by rw [hr]; exact hanswer.2, fun h => .inr (hbounds.exposes h), ?_⟩
        rintro (h | ⟨-, hsure⟩)
        · cases h
        · exact hbounds.exposesState hsure

theorem run_judgeAll_bounds (hprogram : w.template? p = some program)
    (hask : ∀ g s, w.RefersTo p g → I s →
      w.Admits p g ((ask g).run s).1 ∧ I ((ask g).run s).2)
    (occurrences : List Occurrence) (hsub : occurrences ⊆ program.occurrences) (m : Metadata)
    (hmacros : ∀ name, m.macros.contains name = true ↔ name ∈ program.macroNames)
    {s : Session} (hs : I s) :
    let r := (judgeAll w.setting.registry p ask occurrences m).run s
    I r.2 ∧
      (r.1.capture.isYes = true →
        m.capture.isYes = true ∨ ∃ o ∈ occurrences, w.TagCaptures p program o) ∧
      ((m.capture.isYes = true ∨ ∃ o ∈ occurrences, w.TagSurelyCaptures p program o) →
        r.1.capture.isYes = true) := by
  induction occurrences generalizing m s with
  | nil =>
    refine ⟨hs, fun h => .inl h, ?_⟩
    rintro (h | ⟨o, ho, -⟩)
    · exact h
    · exact (List.not_mem_nil ho).elim
  | cons o rest ih =>
    have ho : o ∈ program.occurrences := hsub List.mem_cons_self
    have hone := run_judge_bounds hprogram ho hask hmacros hs
    obtain ⟨capture, hframe⟩ := judge_eq w.setting.registry p ask o m s
    -- judging a tag records no macros
    have hmacros' : ∀ name,
        ((o.judge w.setting.registry p ask m).run s).1.2.macros.contains name = true ↔
          name ∈ program.macroNames := by
      rw [hframe]
      exact hmacros
    have hrest := ih (fun o' ho' => hsub (List.mem_cons_of_mem o ho'))
      ((o.judge w.setting.registry p ask m).run s).1.2 hmacros' hone.1
    refine ⟨hrest.1, fun h => ?_, fun h => hrest.2.2 ?_⟩
    · rcases hrest.2.1 h with h | ⟨o', ho', h⟩
      · rcases hone.2.1 h with h | h
        · exact .inl h
        · exact .inr ⟨o, List.mem_cons_self, h⟩
      · exact .inr ⟨o', List.mem_cons_of_mem o ho', h⟩
    · rcases h with h | ⟨o', ho', h⟩
      · exact .inl (hone.2.2 (.inl h))
      · rcases List.mem_cons.mp ho' with rfl | ho'
        · exact .inl (hone.2.2 (.inr h))
        · exact .inr ⟨o', ho', h⟩

-- Companions are the same at each reading of storage.
theorem prepared_eq_unjudged (hw : w.IsFixed) (p : Path) (program : Program) (n : Nat) :
    prepared p (w.storage.companions p n).1 program = w.unjudged p program := by
  rw [hw.companions_eq_of_same (Path.same_refl p) n 0]
  rfl

/-! ## Summaries on demand -/

/-- All summaries in the records are within their bounds. -/
def AreBounded (w : Workspace) (r : Records) : Prop :=
  ∀ q s, r.get? q = some (.analyzed s) → w.Bounds q s

theorem AreBounded.insert_inProgress {r : Records} (h : w.AreBounded r) (p : Path) :
    w.AreBounded (r.insert p .inProgress) := by
  intro q s hq
  rw [Records.get?_insert] at hq
  split at hq
  · cases hq
  · exact h q s hq

theorem AreBounded.insert (hw : w.IsFixed) {r : Records} (h : w.AreBounded r) {summary : Summary}
    (hs : w.Bounds p summary) : w.AreBounded (r.insert p (.analyzed summary)) := by
  intro q s hq
  rw [Records.get?_insert] at hq
  split at hq
  · rename_i hsame
    cases hq
    exact hs.of_same hw hsame
  · exact h q s hq

theorem AreBounded.erase {r : Records} (h : w.AreBounded r) (p : Path) :
    w.AreBounded (r.erase p) := by
  intro q s hq
  rw [Records.get?_erase] at hq
  split at hq
  · cases hq
  · exact h q s hq

/-- How a request for a summary ends: with a summary within its bounds, or without one, if the file is
in progress or not among the sources. The records stay within their bounds. -/
structure Responds (w : Workspace) (p : Path) (s : Session) (r : Option Summary × Session) : Prop where
  summary : ∀ summary, r.1 = some summary → w.Bounds p summary
  missing : r.1 = none → (w.load p).isSome = true → s.records.get? p = some .inProgress
  bounded : w.AreBounded r.2.records
  grows : w.Grows s r.2

/-- All files in progress lead to a file. -/
def LeadsTo (w : Workspace) (r : Records) (p : Path) : Prop :=
  ∀ q, r.get? q = some .inProgress → w.Reaches q p

theorem LeadsTo.insert {r : Records} (h : w.LeadsTo r p) :
    w.LeadsTo (r.insert p .inProgress) p := by
  intro q hq
  rw [Records.get?_insert] at hq
  split at hq
  · exact reaches_of_same (Path.same_symm ‹_›)
  · exact h q hq

variable (ask) in
/-- A template in progress is analysed within its bounds, if all that it refers to is answered within
theirs. -/
theorem run_analyze_bounds (hw : w.IsFixed) (hprogram : w.template? p = some program) (s : Session)
    (hs : w.AreBounded s.records) (hleads : w.LeadsTo s.records p)
    (hask : ∀ g u, w.Grows s u → w.AreBounded u.records → w.LeadsTo u.records g →
      w.Responds g u ((ask g).run u)) :
    w.Bounds p ((w.analyze ask p program).run s).1.2.summary ∧
      w.AreBounded ((w.analyze ask p program).run s).2.records ∧
      w.Grows s ((w.analyze ask p program).run s).2 := by
  have hanswers (g : Path) (u : Session) (hg : w.RefersTo p g)
      (hu : w.AreBounded u.records ∧ w.Grows s u) :
      w.Admits p g ((ask g).run u).1 ∧
        w.AreBounded ((ask g).run u).2.records ∧ w.Grows s ((ask g).run u).2 := by
    have hprogress (q : Path) (hq : u.records.get? q = some .inProgress) : w.Reaches q p :=
      hleads q (hu.2.settled q hq)
    have hresponds := hask g u hu.2 hu.1 fun q hq => hw.reaches_tail (hprogress q hq) hg
    refine ⟨?_, hresponds.bounded, hu.2.trans hresponds.grows⟩
    cases hanswer : ((ask g).run u).1 with
    | some summary => exact hresponds.summary summary hanswer
    | none => exact fun hsome => hprogress g (hresponds.missing hanswer hsome)
  rw [analyze_run]
  dsimp only
  rw [prepared_eq_unjudged hw]
  have hjudged := run_judgeAll_bounds hprogram hanswers program.occurrences (List.Subset.refl _)
    (w.unjudged p program) (contains_macros_unjudged w p program)
    (s := { s with readings := (w.storage.companions p s.readings).2 }) ⟨hs, Grows.of_eq rfl rfl⟩
  obtain ⟨capture, hframe⟩ := judgeAll_eq w.setting.registry p ask program.occurrences
    (w.unjudged p program) { s with readings := (w.storage.companions p s.readings).2 }
  have hstart := summary_unjudged w p program
  have hno : ¬(w.unjudged p program).capture.isYes = true := by
    rw [show (w.unjudged p program).capture.isYes = false from congrArg Summary.capture hstart]
    exact Bool.false_ne_true
  refine ⟨⟨?_, ?_, ?_, fun h => ?_, fun h => ?_⟩, hjudged.1⟩
  · rw [(template?_eq_some_iff.mp hprogram).1]
    rfl
  · rw [hframe, hasComponent, hprogram]
    exact congrArg Summary.component hstart
  · rw [hframe, hasBrowserComponent, hprogram]
    exact congrArg Summary.browser hstart
  · rw [captures_iff]
    exact ⟨program, hprogram, (hjudged.2.1 h).resolve_left hno⟩
  · obtain ⟨program', hprogram', hsure⟩ := surelyCaptures_iff.mp h
    rw [hprogram] at hprogram'
    obtain rfl := Option.some.inj hprogram'
    exact hjudged.2.2 (.inr hsure)

variable (ask) in
/-- A file that is in progress is examined within its bounds, if all that it refers to is answered
within theirs. -/
theorem run_examine_bounds (hw : w.IsFixed) (hload : w.load p = some program) (s : Session)
    (hs : w.AreBounded s.records) (hleads : w.LeadsTo s.records p)
    (hask : ∀ g u, w.Grows s u → w.AreBounded u.records → w.LeadsTo u.records g →
      w.Responds g u ((ask g).run u)) :
    w.Bounds p ((w.examine ask p program).run s).1.summary ∧
      w.AreBounded ((w.examine ask p program).run s).2.records ∧
      w.Grows s ((w.examine ask p program).run s).2 := by
  unfold examine
  cases hcode : program.moduleCode with
  | some code => exact ⟨bounds_of_moduleCode hload hcode, hs, Grows.refl w s⟩
  | none =>
    exact run_analyze_bounds ask hw (template?_eq_some_iff.mpr ⟨hload, hcode⟩) s hs hleads hask

variable (ask) in
/-- One round, where the answers for other files are as they should be as long as there are fewer
sources without a record. -/
theorem run_summaryRound_bounds (hw : w.IsFixed) (p : Path) (s : Session)
    (hs : w.AreBounded s.records) (hleads : w.LeadsTo s.records p)
    (hask : ∀ g u, w.pending u.records < w.pending s.records → w.AreBounded u.records →
      w.LeadsTo u.records g → w.Responds g u ((ask g).run u)) :
    w.Responds p s ((w.summaryRound ask p).run s) := by
  cases hrecord : s.records.get? p with
  | some record =>
    rw [run_summaryRound_of_some hrecord]
    refine ⟨fun summary h => ?_, fun h _ => ?_, hs, Grows.refl w s⟩
    · cases record with
      | inProgress => cases h
      | analyzed summary' =>
        cases h
        exact hs p summary hrecord
    · cases record with
      | inProgress => exact hrecord
      | analyzed summary => cases h
  | none =>
    cases hload : w.load p with
    | none =>
      rw [run_summaryRound_of_load_eq_none hrecord hload]
      refine ⟨fun summary h => ?_, fun _ h => ?_, hs, Grows.request hrecord hload⟩
      · cases h
      · rw [hload] at h
        cases h
    | some program =>
      -- with the mark of the file there is one source fewer without a record
      have hlt := pending_insert_lt hrecord hload .inProgress
      have hexamined := run_examine_bounds ask hw hload (examining s p) (hs.insert_inProgress p)
        hleads.insert fun g u hu => hask g u (Nat.lt_of_le_of_lt hu.pending_le hlt)
      rw [run_summaryRound_of_load ask hrecord hload]
      refine ⟨fun summary h => ?_, fun h => ?_, hexamined.2.1.insert hw hexamined.1,
        hexamined.2.2.finish hrecord⟩
      · cases h
        exact hexamined.1
      · cases h

theorem run_fileSummary_bounds (hw : w.IsFixed) (depth : Nat) (p : Path) (s : Session)
    (hs : w.AreBounded s.records) (hleads : w.LeadsTo s.records p)
    (hdepth : w.pending s.records ≤ depth) : w.Responds p s ((w.fileSummary depth p).run s) := by
  induction depth generalizing p s with
  | zero =>
    have hzero : w.pending s.records = 0 := Nat.le_zero.mp hdepth
    rw [run_fileSummary_zero (fun _ => pure none) (load_eq_none_of_pending hzero)]
    exact run_summaryRound_bounds _ hw p s hs hleads fun g u hu => by omega
  | succ depth ih =>
    rw [fileSummary_succ]
    exact run_summaryRound_bounds _ hw p s hs hleads fun g u hu hbounded hleads =>
      ih g u hbounded hleads (by omega)

/-! ## Compilation -/

theorem run_translateTemplate_bounds (hw : w.IsFixed) (hprogram : w.template? p = some program)
    (s : Session) (hs : w.AreBounded s.records)
    (hsettled : ∀ q, s.records.get? q ≠ some .inProgress) :
    w.AreBounded ((w.translateTemplate p program).run s).2.records := by
  have hleads : w.LeadsTo s.records p := fun q hq => absurd hq (hsettled q)
  have hanalyzed := run_analyze_bounds (w.fileSummary w.sources.length) hw hprogram
    { s with records := s.records.insert p .inProgress } (hs.insert_inProgress p) hleads.insert
    fun g u _ hbounded hleads => run_fileSummary_bounds hw _ g u hbounded hleads (w.pending_le _)
  rcases hrun : (w.analyze (w.fileSummary w.sources.length) p program).run
    { s with records := s.records.insert p .inProgress } with ⟨⟨c, m⟩, u⟩
  rw [hrun] at hanalyzed
  rw [run_translateTemplate_eq hrun]
  cases hcompiled : compileTemplate w.setting p c m program with
  | error e => exact hanalyzed.2.1.erase p
  | ok compiled =>
    have hsummary : compiled.metadata.summary = m.summary := by
      rw [hw.setting] at hcompiled
      exact summary_of_compileTemplate hcompiled
    refine hanalyzed.2.1.insert hw ?_
    rw [hsummary]
    exact hanalyzed.1

theorem run_translate_bounds (hw : w.IsFixed) (hload : w.load p = some program) (s : Session)
    (hs : w.AreBounded s.records) (hsettled : ∀ q, s.records.get? q ≠ some .inProgress) :
    w.AreBounded ((w.translate p program).run s).2.records := by
  unfold translate
  cases hcode : program.moduleCode with
  | none =>
    exact run_translateTemplate_bounds hw (template?_eq_some_iff.mpr ⟨hload, hcode⟩) s hs hsettled
  | some code =>
    dsimp only
    cases hcompiled : compileCode p code with
    | error e => exact hs
    | ok compiled =>
      refine hs.insert hw ?_
      rw [metadata_of_compileCode hcompiled]
      exact bounds_of_moduleCode hload hcode

end

/-! ## Main result -/

theorem Reachable.arises {w : Workspace} {s : Session} (h : w.Reachable s) : w.Arises s := by
  induction h with
  | new => exact .new
  | translate _ _ ih => exact ih.translate _ _

theorem Reachable.areBounded {w : Workspace} (hw : w.IsFixed) {s : Session} (h : w.Reachable s) :
    w.AreBounded s.records := by
  induction h with
  | new => exact fun q s hq => by cases hq
  | translate h hload ih => exact run_translate_bounds hw hload _ ih h.arises.not_inProgress

-- A session that knows nothing loads a file that is asked for, and records its summary.
theorem exists_bounds_of_load {w : Workspace} (hw : w.IsFixed) {p : Path}
    (hload : (w.load p).isSome = true) :
    ∃ fresh, ((w.fileSummary w.sources.length p).run .new).2.records.summary? p = some fresh ∧
      w.Bounds p fresh := by
  obtain ⟨program, hload⟩ := Option.isSome_iff_exists.mp hload
  have hresponds := run_fileSummary_bounds hw w.sources.length p .new
    (fun q s hq => by cases hq) (fun q hq => by cases hq) (w.pending_le _)
  have hrun := run_summaryRound_of_load (w.fileSummary w.sources.length)
    (s := .new) rfl hload
  rw [summaryRound_fileSummary] at hrun
  refine ⟨_, ?_, hresponds.summary _ (congrArg Prod.fst hrun)⟩
  rw [hrun, Records.summary?_eq_some_iff, Records.get?_insert, if_pos (Path.same_refl p)]

/-- In each session that compiles files from their sources, the summary of a file and the one that a
session which knows nothing records of it are within the same bounds. They are the same where state that
is captured is surely captured. -/
theorem summary_eq_fresh (w : Workspace) (hw : w.IsFixed) (s : Session) (hs : w.Reachable s) (g : Path)
    (held : Summary) (hheld : s.records.summary? g = some held) :
    ∃ fresh, ((w.fileSummary w.sources.length g).run .new).2.records.summary? g = some fresh ∧
      w.Bounds g held ∧ w.Bounds g fresh ∧
      ((w.Captures g → w.SurelyCaptures g) → fresh = held) := by
  have hbounds := hs.areBounded hw g held (Records.summary?_eq_some_iff.mp hheld)
  obtain ⟨fresh, hfresh, hfreshBounds⟩ := exists_bounds_of_load hw hbounds.loaded
  exact ⟨fresh, hfresh, hbounds, hfreshBounds, hfreshBounds.unique hbounds⟩

-- Of two sources the later one is looked at first.
theorem load_of_sources_eq_pair {w : Workspace} {p q : Path} {program other : Program}
    (hsources : w.sources = [(p, program), (q, other)]) (hne : q.same p = false) :
    w.load p = some program ∧ w.load q = some other := by
  rw [load, load, hsources]
  show p.find? [(q, other), (p, program)] = _ ∧ q.find? [(q, other), (p, program)] = _
  rw [Path.find?_cons, Path.find?_cons, Path.find?_cons, hne, if_neg Bool.false_ne_true,
    if_pos (Path.same_refl p), if_pos (Path.same_refl q)]
  exact ⟨rfl, rfl⟩

/-- Two cards that refer to each other, of which the first also lets rendering choose a tag, after the
second one was compiled. -/
theorem summary_eq_fresh_cards :
    let place : Marks := ⟨false, ⟨1, 1⟩⟩
    let link (name : TagName) : Item := .node (.tag place ⟨name, [], none, ["item"]⟩ [])
    let alpha : Program := ⟨[link (.static "beta"), link (.dynamic "input.as")], none⟩
    let beta : Program := ⟨[link (.static "alpha")], none⟩
    let w := ofTables {} [.ofTemplate "alpha" ⟨"/app/alpha.marko"⟩, .ofTemplate "beta" ⟨"/app/beta.marko"⟩]
      [] [(⟨"/app/alpha.marko"⟩, alpha), (⟨"/app/beta.marko"⟩, beta)]
    let s := ((w.translate ⟨"/app/beta.marko"⟩ beta).run .new).2
    w.IsFixed ∧ w.Reachable s ∧ s.records.summary? ⟨"/app/alpha.marko"⟩ = some ⟨true, false, false⟩ ∧
      ∃ fresh, ((w.fileSummary w.sources.length ⟨"/app/alpha.marko"⟩).run .new).2.records.summary?
          ⟨"/app/alpha.marko"⟩ = some fresh ∧
        w.Bounds ⟨"/app/alpha.marko"⟩ ⟨true, false, false⟩ ∧ w.Bounds ⟨"/app/alpha.marko"⟩ fresh ∧
        fresh = ⟨true, false, false⟩ := by
  intro place link alpha beta w s
  have hw : w.IsFixed := isFixed_ofTables _ _ _ _ _
  have hload := load_of_sources_eq_pair (w := w) rfl
    (show (Path.mk "/app/beta.marko").same ⟨"/app/alpha.marko"⟩ = false by decide +kernel)
  have hs : w.Reachable s := .translate .new hload.2
  have hheld : s.records.summary? ⟨"/app/alpha.marko"⟩ = some ⟨true, false, false⟩ := by
    decide +kernel
  have hsure : w.SurelyCaptures ⟨"/app/alpha.marko"⟩ :=
    .dynamic (template?_eq_some_iff.mpr ⟨hload.1, rfl⟩)
      (o := ⟨⟨.dynamic "input.as", [], none, ["item"]⟩, []⟩) (by decide) (by decide) rfl
  obtain ⟨fresh, hfresh, hheldBounds, hfreshBounds, heq⟩ :=
    summary_eq_fresh w hw s hs ⟨"/app/alpha.marko"⟩ ⟨true, false, false⟩ hheld
  exact ⟨hw, hs, hheld, fresh, hfresh, hheldBounds, hfreshBounds, heq fun _ => hsure⟩

/-- The bounds need not meet. The first of two cards that refer to each other has a component, so that
the second one captures state; but if the first one is compiled before anything else, the second one is
settled while the first one is in progress. -/
theorem exists_stale_summary :
    let place : Marks := ⟨false, ⟨1, 1⟩⟩
    let link (name : String) : Item := .node (.tag place ⟨.static name, [], none, ["item"]⟩ [])
    let alpha : Program := ⟨[.node (.leaf place (.component "class \x7b \x7d")), link "beta"], none⟩
    let beta : Program := ⟨[link "alpha"], none⟩
    let w := ofTables {} [.ofTemplate "alpha" ⟨"/app/alpha.marko"⟩, .ofTemplate "beta" ⟨"/app/beta.marko"⟩]
      [] [(⟨"/app/alpha.marko"⟩, alpha), (⟨"/app/beta.marko"⟩, beta)]
    let first := (w.translate ⟨"/app/alpha.marko"⟩ alpha).run .new
    first.1.toOption.isSome = true ∧ w.Reachable first.2 ∧
      first.2.records.summary? ⟨"/app/beta.marko"⟩ = some ⟨false, false, false⟩ ∧
      ((w.fileSummary w.sources.length ⟨"/app/beta.marko"⟩).run .new).2.records.summary?
        ⟨"/app/beta.marko"⟩ = some ⟨true, false, false⟩ := by
  intro place link alpha beta w first
  have hload := load_of_sources_eq_pair (w := w) rfl
    (show (Path.mk "/app/beta.marko").same ⟨"/app/alpha.marko"⟩ = false by decide +kernel)
  exact ⟨by decide +kernel, .translate .new hload.1, by decide +kernel, by decide +kernel⟩

end TemplateCompiler.Workspace
