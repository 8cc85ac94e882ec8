import Mathlib.Logic.Basic
import TemplateCompiler.Proofs.Analysis.Verdicts

/-!
# What is known of a file after analysis

Whether a file captures state is recorded tag by tag. Each tag finds out something or nothing
(`Occurrence.finding?`), and only which findings there are counts, not in which order they are made
(`Capture.recordAll_perm`). So what is known in the end can be said of the tags of the file together
(`Program.capture_analyze_iff`).
-/

namespace TemplateCompiler

/-! ## Findings -/

namespace Capture

/-- What is known after some more answers. -/
def recordAll (c : Capture) (findings : List Bool) : Capture := findings.foldl record c

theorem recordAll_eq_yes_iff {c : Capture} {findings : List Bool} :
    c.recordAll findings = .yes ↔ c = .yes ∨ true ∈ findings := by
  induction findings generalizing c with
  | nil => simp [recordAll]
  | cons detected findings ih =>
    have hstep : c.record detected = .yes ↔ c = .yes ∨ detected = true := by
      cases c <;> cases detected <;> decide
    show (c.record detected).recordAll findings = .yes ↔ _
    rw [ih, hstep, List.mem_cons, or_assoc, eq_comm (a := detected)]

theorem recordAll_eq_unknown_iff {c : Capture} {findings : List Bool} :
    c.recordAll findings = .unknown ↔ c = .unknown ∧ findings = [] := by
  induction findings generalizing c with
  | nil => simp [recordAll]
  | cons detected findings ih =>
    have hstep : c.record detected ≠ .unknown := by
      cases c <;> cases detected <;> decide
    show (c.record detected).recordAll findings = .unknown ↔ _
    rw [ih]
    simp [hstep]

theorem eq_no_iff {c : Capture} : c = .no ↔ c ≠ .yes ∧ c ≠ .unknown := by
  cases c <;> decide

/-- The order of the answers does not matter. -/
theorem recordAll_perm {c : Capture} {as bs : List Bool} (h : as.Perm bs) : c.recordAll as = c.recordAll bs := by
  have hyes : c.recordAll as = .yes ↔ c.recordAll bs = .yes := by
    rw [recordAll_eq_yes_iff, recordAll_eq_yes_iff, h.mem_iff]
  have hunknown : c.recordAll as = .unknown ↔ c.recordAll bs = .unknown := by
    rw [recordAll_eq_unknown_iff, recordAll_eq_unknown_iff, ← List.length_eq_zero_iff, h.length_eq,
      List.length_eq_zero_iff]
  cases hbs : c.recordAll bs with
  | yes => exact hyes.mpr hbs
  | unknown => exact hunknown.mpr hbs
  | no =>
    rw [hbs] at hyes hunknown
    exact eq_no_iff.mpr ⟨fun h => (by cases hyes.mp h), fun h => (by cases hunknown.mp h)⟩

end Capture

theorem Metadata.foldl_recordCapture_eq (findings : List Bool) (m : Metadata) :
    findings.foldl recordCapture m = { m with capture := m.capture.recordAll findings } := by
  induction findings generalizing m with
  | nil => rfl
  | cons detected findings ih => exact ih (m.recordCapture detected)

namespace Occurrence

/-- A tag for which state is captured: it binds names and is chosen at rendering, or it is left to a template that
captures state itself or has a component that runs on the server, as its summary says. -/
def Captures (o : Occurrence) (registry : TagRegistry) (source : Path) (macros : List String)
    (answer : Path → Option Summary) : Prop :=
  (o.tag.params ≠ [] ∧ ∃ target, o.tag.name = .dynamic target) ∨
  ∃ template s, o.Consults registry source macros template ∧ answer template = some s ∧
    (s.capture = true ∨ s.component = true ∧ s.browser = false)

/-- A tag is left to a template that there is a summary of. -/
def IsAnswered (o : Occurrence) (registry : TagRegistry) (source : Path) (macros : List String)
    (answer : Path → Option Summary) : Prop :=
  ∃ template s, o.Consults registry source macros template ∧ answer template = some s

/-- Whether a tag is found to capture state. Nothing is found out of tags that are of no interest, and of those that
are left to a template without a summary. -/
def finding? (o : Occurrence) (registry : TagRegistry) (source : Path) (macros : List String)
    (answer : Path → Option Summary) : Option Bool :=
  match o.verdict registry source macros with
  | .no => none
  | .yes => some true
  | .ask template => (answer template).map Summary.exposesState

section

variable {o : Occurrence} {registry : TagRegistry} {source : Path} {macros macros' : List String}
  {answer : Path → Option Summary}

theorem finding?_congr (h : ∀ name, name ∈ macros ↔ name ∈ macros') :
    o.finding? registry source macros answer = o.finding? registry source macros' answer := by
  have hcontains : macros.contains = macros'.contains := by
    funext name
    rw [Bool.eq_iff_iff, List.contains_iff_mem, List.contains_iff_mem, h]
  unfold finding? verdict
  rw [hcontains]

theorem exposesState_iff {s : Summary} :
    s.exposesState = true ↔ s.capture = true ∨ s.component = true ∧ s.browser = false := by
  simp [Summary.exposesState]

theorem finding?_eq_some_true_iff :
    o.finding? registry source macros answer = some true ↔ o.Captures registry source macros answer := by
  unfold finding? Captures
  rw [← verdict_eq_yes_iff]
  simp only [← verdict_eq_ask_iff]
  cases o.verdict registry source macros with
  | no => simp
  | yes => simp
  | ask template => simp [← exposesState_iff]

theorem finding?_eq_none_iff :
    o.finding? registry source macros answer = none ↔
      ¬(o.tag.params ≠ [] ∧ ∃ target, o.tag.name = .dynamic target) ∧
        ¬o.IsAnswered registry source macros answer := by
  unfold finding? IsAnswered
  rw [← verdict_eq_yes_iff]
  simp only [← verdict_eq_ask_iff]
  cases o.verdict registry source macros with
  | no => simp
  | yes => simp
  | ask template => simp [Option.eq_none_iff_forall_ne_some]

end

end Occurrence

/-! ## Runs -/

section

variable {σ : Type} {registry : TagRegistry} {source : Path} {ask : Path → StateM σ (Option Summary)}
  {answer : Path → Option Summary}

/-- One tag adds what is found out of it. -/
theorem record_judge (hask : ∀ template s, ((ask template).run s).1 = answer template) (o : Occurrence)
    (m : Metadata) (s : σ) :
    ((o.judge registry source ask m).run s).1.2 =
      (o.finding? registry source m.macros answer).toList.foldl Metadata.recordCapture m := by
  by_cases hyes : m.capture = .yes
  · rw [judge_of_yes o hyes, Metadata.foldl_recordCapture_eq, Capture.recordAll_eq_yes_iff.mpr (.inl hyes), ← hyes]
    rfl
  · rw [judge_eq_outcome o hyes, Occurrence.finding?]
    cases o.verdict registry source m.macros with
    | no => rfl
    | yes => rfl
    | ask template =>
      have hanswer := hask template s
      rw [Verdict.outcome, StateT.run_bind]
      rcases hrun : (ask template).run s with ⟨found, t⟩
      rw [hrun] at hanswer
      subst hanswer
      dsimp only
      cases answer template <;> rfl

/-- All tags together add what is found out of each of them. -/
theorem record_judgeAll (hask : ∀ template s, ((ask template).run s).1 = answer template) (os : List Occurrence)
    (m : Metadata) (s : σ) :
    ((judgeAll registry source ask os m).run s).1 =
      { m with capture := m.capture.recordAll (os.filterMap (·.finding? registry source m.macros answer)) } := by
  rw [← Metadata.foldl_recordCapture_eq]
  -- induction on the tags that are left; the macros stay the same, so that the findings do
  induction os generalizing m s with
  | nil => rfl
  | cons o os ih =>
    have hjudge : ((o.judge registry source ask m).run s).1.2 =
        (o.finding? registry source m.macros answer).toList.foldl Metadata.recordCapture m := record_judge hask o m s
    have hmacros : ((o.judge registry source ask m).run s).1.2.macros = m.macros := by
      rw [hjudge, Metadata.foldl_recordCapture_eq]
    rw [run_judgeAll_cons, ih, hmacros, hjudge, ← List.foldl_append, List.filterMap_cons]
    cases o.finding? registry source m.macros answer <;> rfl

end

/-! ## Programs -/

namespace Program

/-- The tags of a file, and so its macros, do not depend on the order of its nodes, except for their own order. -/
theorem occurrences_perm {p q : Program} (h : q.nodes.Perm p.nodes) : q.occurrences.Perm p.occurrences := by
  rw [occurrences, occurrences, Node.occurrencesIn_eq_flatMap, Node.occurrencesIn_eq_flatMap]
  exact h.flatMap_right _

theorem mem_macroNames_of_perm {p q : Program} (h : q.nodes.Perm p.nodes) (name : String) :
    name ∈ q.macroNames ↔ name ∈ p.macroNames :=
  ((occurrences_perm h).filterMap _).mem_iff

section

variable {σ : Type} {registry : TagRegistry} {source : Path} {ask : Path → StateM σ (Option Summary)}
  {answer : Path → Option Summary}

theorem capture_analyze (hask : ∀ template s, ((ask template).run s).1 = answer template) (p : Program)
    (c : Companions) (m : Metadata) (s : σ) :
    ((p.analyze registry source ask c m).run s).1.capture =
      m.capture.recordAll
        (p.occurrences.filterMap (·.finding? registry source (m.macros ++ p.macroNames) answer)) := by
  have hmacros (name : String) : name ∈ (m.prepare c p).macros ↔ name ∈ m.macros ++ p.macroNames := by
    rw [Metadata.mem_macros_prepare, List.mem_append]
  rw [analyze, record_judgeAll hask, Metadata.capture_prepare]
  simp only [Occurrence.finding?_congr hmacros]

end

/-- What is known of a file after analysis, if questions about other files are answered by a function: that it captures
state, just if this was known before or if it does for one of its tags; that it does not, just if this was known
before or if a tag is left to a template with a summary, and it does for none; and nothing otherwise. So the order of
the nodes does not matter. Once it is known that state is captured, at whatever tag, this stays known and no question
is asked. -/
theorem capture_analyze_iff {σ : Type} (registry : TagRegistry) (source : Path)
    (ask : Path → StateM σ (Option Summary)) (answer : Path → Option Summary)
    (hask : ∀ template s, ((ask template).run s).1 = answer template)
    (p : Program) (c : Companions) (m : Metadata) (s : σ) :
    let known := ((p.analyze registry source ask c m).run s).1.capture
    let macros := m.macros ++ p.macroNames
    (known = .yes ↔ m.capture = .yes ∨ ∃ o ∈ p.occurrences, o.Captures registry source macros answer) ∧
    (known = .no ↔ known ≠ .yes ∧
      (m.capture = .no ∨ ∃ o ∈ p.occurrences, o.IsAnswered registry source macros answer)) ∧
    (∀ (q : Program) (c' : Companions) (t : σ), q.nodes.Perm p.nodes →
      ((q.analyze registry source ask c' m).run t).1.capture = known) ∧
    ∀ before next rest m' t, p.occurrences = before ++ next ++ rest →
      (judgeAll registry source ask before (m.prepare c p)).run s = (m', t) → m'.capture = .yes →
        (judgeAll registry source ask (before ++ next) (m.prepare c p)).run s = (m', t) ∧
          (p.analyze registry source ask c m).run s = (m', t) := by
  intro known macros
  have hknown : known = m.capture.recordAll (p.occurrences.filterMap (·.finding? registry source macros answer)) :=
    capture_analyze hask p c m s
  have hyes : known = .yes ↔ m.capture = .yes ∨ ∃ o ∈ p.occurrences, o.Captures registry source macros answer := by
    rw [hknown, Capture.recordAll_eq_yes_iff, List.mem_filterMap]
    simp only [Occurrence.finding?_eq_some_true_iff]
  refine ⟨hyes, ?_, fun q c' t hperm => ?_, fun before next rest m' t hsplit hbefore hm' => ?_⟩
  · have hunknown : known ≠ .unknown ↔ m.capture ≠ .unknown ∨
        ∃ o ∈ p.occurrences, o.finding? registry source macros answer ≠ none := by
      rw [hknown, Ne, Capture.recordAll_eq_unknown_iff, List.filterMap_eq_nil_iff, not_and_or]
      simp
    rw [Capture.eq_no_iff, and_congr_right_iff]
    intro hnot
    obtain ⟨hm, hnone⟩ := not_or.mp fun h => hnot (hyes.mpr h)
    -- a tag that is chosen at rendering would capture state
    have hfinding (o : Occurrence) (ho : o ∈ p.occurrences) :
        o.finding? registry source macros answer ≠ none ↔ o.IsAnswered registry source macros answer := by
      rw [Ne, Occurrence.finding?_eq_none_iff, not_and_or, not_not, not_not]
      exact or_iff_right fun hdynamic => hnone ⟨o, ho, .inl hdynamic⟩
    rw [hunknown, Capture.eq_no_iff, and_iff_right hm]
    exact or_congr_right (exists_congr fun o => and_congr_right (hfinding o))
  · have hmacros (name : String) : name ∈ m.macros ++ q.macroNames ↔ name ∈ macros := by
      rw [List.mem_append, List.mem_append, mem_macroNames_of_perm hperm]
    rw [capture_analyze hask, hknown]
    simp only [Occurrence.finding?_congr hmacros]
    exact Capture.recordAll_perm ((occurrences_perm hperm).filterMap _)
  · have hstay (more : List Occurrence) :
        (judgeAll registry source ask (before ++ more) (m.prepare c p)).run s = (m', t) := by
      rw [judgeAll_append, StateT.run_bind, hbefore]
      exact congrArg (·.run t) (judgeAll_of_yes more hm')
    refine ⟨hstay next, ?_⟩
    rw [analyze, hsplit, List.append_assoc]
    exact hstay (next ++ rest)

/-- A page with a macro that shares its name with a tag. Only what the list around it is implemented by is asked for. -/
theorem capture_analyze_iff_page :
    let list : Tag := ⟨.static "list", [], none, ["item"]⟩
    let definition : Tag := ⟨.static "macro", [⟨"name", "'row'"⟩], none, []⟩
    let node (t : Tag) (children : List Node) : Item := .node (.tag ⟨false, ⟨1, 1⟩⟩ t children)
    let use := node ⟨.static "row", [], none, ["x"]⟩ []
    let lists := node ⟨.static "div", [], none, []⟩ [.tag ⟨false, ⟨1, 1⟩⟩ list []]
    let page : Program := ⟨[use, lists, node definition []], none⟩
    let registry : TagRegistry := .ofList [.ofTemplate "list" ⟨"/app/list.marko"⟩, .ofTemplate "row" ⟨"/app/row.marko"⟩]
    let source : Path := ⟨"/app/page.marko"⟩
    let answer (_ : Path) : Option Summary := some ⟨false, true, false⟩
    let ask (template : Path) : StateM (List Path) (Option Summary) := do
      modify (· ++ [template])
      pure (answer template)
    let run (p : Program) := (p.analyze registry source ask {} (Metadata.ofPath source)).run []
    (run page).1.capture = .yes ∧ (run page).2 = [⟨"/app/list.marko"⟩] ∧
      (run ⟨[node definition [], use, lists], none⟩).1.capture = .yes := by
  intro list definition node use lists page registry source answer ask run
  obtain ⟨hyes, -, hperm, hstay⟩ :=
    capture_analyze_iff registry source ask answer (fun _ _ => rfl) page {} (Metadata.ofPath source) []
  have hmacros : page.macroNames = ["row"] := by decide +kernel
  have hcaptures : (⟨list, [⟨.static "div", [], none, []⟩]⟩ : Occurrence).Captures registry source
      ((Metadata.ofPath source).macros ++ page.macroNames) answer := by
    refine .inr ⟨⟨"/app/list.marko"⟩, _, ⟨by decide, ⟨"list", rfl, by decide +kernel, ?_⟩, ?_⟩, rfl, .inr ⟨rfl, rfl⟩⟩
    · rw [hmacros]
      decide
    · exact ⟨list, "list", .ofTemplate "list" ⟨"/app/list.marko"⟩, rfl, rfl, by decide +kernel, rfl⟩
  have hpage : (run page).1.capture = .yes := hyes.mpr (.inr ⟨_, by decide, hcaptures⟩)
  refine ⟨hpage, ?_, ?_⟩
  · -- the tags up to the list are judged, and nothing is asked behind them
    have hbefore : ((judgeAll registry source ask (page.occurrences.take 3)
        ((Metadata.ofPath source).prepare {} page)).run []).1.capture = .yes := by decide +kernel
    have hrun := (hstay _ [] (page.occurrences.drop 3) _ _ (by simp) rfl hbefore).2
    exact (congrArg Prod.snd hrun).trans (by decide +kernel)
  · have hitems : [node definition [], use, lists].Perm [use, lists, node definition []] :=
      List.perm_append_singleton (node definition []) [use, lists] |>.symm
    exact (hperm ⟨[node definition [], use, lists], none⟩ {} [] (hitems.filterMap Item.node?)).trans hpage

end Program

end TemplateCompiler
