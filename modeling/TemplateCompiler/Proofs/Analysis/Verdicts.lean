import TemplateCompiler.Analysis

/-!
# Verdicts

What decides whether a tag captures state (`Occurrence.verdict`), in words: tags that bind names and are chosen at
rendering always do, and others are left to the template that their owner is implemented by, unless their name is
native or that of a macro (`Occurrence.Consults`). A tag is judged by its verdict and by what is known already
(`judge_eq_outcome`, `judgeAll_of_yes`). A registry is asked for two things only, and there are registries for all
answers (`TagRegistry.exists_answering`).
-/

namespace TemplateCompiler

/-! ## Answers of a registry -/

namespace TagRegistry

/-- The template that a name is implemented by. -/
def template? (registry : TagRegistry) (source : Path) (name : String) : Option Path :=
  (registry.lookup source name).bind TagDefinition.template

/-- Which names are native and which template implements a name are independent of each other. -/
theorem exists_answering (native : Path → String → Bool) (template : Path → String → Option Path) :
    ∃ registry : TagRegistry, ∀ source name,
      registry.isNative source name = native source name ∧ registry.template? source name = template source name :=
  ⟨⟨fun source name => some ⟨name, template source name, none, native source name⟩⟩, fun _ _ => ⟨rfl, rfl⟩⟩

end TagRegistry

/-! ## Macros -/

namespace Metadata

theorem contains_macros_foldl (names : List String) (m : Metadata) (name : String) :
    (names.foldl addMacro m).macros.contains name = true ↔ m.macros.contains name = true ∨ name ∈ names := by
  induction names generalizing m with
  | nil => simp
  | cons head rest ih =>
    have hadd : (m.addMacro head).macros.contains name = true ↔
        m.macros.contains name = true ∨ name = head := by
      unfold addMacro
      split
      · constructor
        · exact .inl
        · rintro (h | rfl)
          · exact h
          · assumption
      · simp
    rw [List.foldl_cons, ih, hadd, List.mem_cons, or_assoc]

theorem foldl_addMacro_eq (names : List String) (m : Metadata) :
    names.foldl addMacro m = { m with macros := (names.foldl addMacro m).macros } := by
  induction names generalizing m with
  | nil => rfl
  | cons head rest ih =>
    have hadd : m.addMacro head = { m with macros := (m.addMacro head).macros } := by
      unfold addMacro
      split <;> rfl
    rw [List.foldl_cons, ih, hadd]

-- The macros of a file are those that are recorded already and those that its program declares.
theorem mem_macros_prepare {m : Metadata} {c : Companions} {p : Program} {name : String} :
    name ∈ (m.prepare c p).macros ↔ name ∈ m.macros ∨ name ∈ p.macroNames := by
  rw [prepare, ← List.contains_iff_mem, contains_macros_foldl, List.contains_iff_mem]

theorem capture_prepare (m : Metadata) (c : Companions) (p : Program) : (m.prepare c p).capture = m.capture := by
  rw [prepare, foldl_addMacro_eq]

end Metadata

/-! ## What decides -/

namespace Occurrence

variable {o : Occurrence} {registry : TagRegistry} {source template : Path} {macros : List String}

/-- A tag that binds names is left to a template: its name is neither native nor that of a macro, and the tag that it
belongs to is implemented by the template. -/
def Consults (o : Occurrence) (registry : TagRegistry) (source : Path) (macros : List String) (template : Path) :
    Prop :=
  o.tag.params ≠ [] ∧
  (∃ name, o.tag.name = .static name ∧ registry.isNative source name = false ∧ name ∉ macros) ∧
  ∃ owner name d, o.owner? = some owner ∧ owner.name = .static name ∧
    registry.lookup source name = some d ∧ d.template = some template

theorem consults_congr {macros' : List String} (h : ∀ name, name ∈ macros ↔ name ∈ macros') :
    o.Consults registry source macros template ↔ o.Consults registry source macros' template := by
  simp only [Consults, h]

theorem verdict_eq_yes_iff :
    o.verdict registry source macros = .yes ↔ o.tag.params ≠ [] ∧ ∃ target, o.tag.name = .dynamic target := by
  unfold verdict Tag.staticName
  by_cases hparams : o.tag.params = []
  · simp [hparams]
  rw [if_neg (by simpa using hparams)]
  cases hname : o.tag.name with
  | dynamic target => simp [hparams]
  | static name =>
    -- all verdicts on a tag with a fixed name are others
    have hne (v : Verdict) (h : v ≠ .yes) : v = .yes ↔ o.tag.params ≠ [] ∧ ∃ target,
        TagName.static name = .dynamic target := by simp [h]
    refine hne _ ?_
    dsimp only
    split
    · exact Verdict.noConfusion
    · split
      · exact Verdict.noConfusion
      · split <;> exact Verdict.noConfusion

theorem verdict_eq_ask_iff :
    o.verdict registry source macros = .ask template ↔ o.Consults registry source macros template := by
  unfold verdict Consults Tag.staticName
  by_cases hparams : o.tag.params = []
  · simp [hparams]
  rw [if_neg (by simpa using hparams)]
  cases hname : o.tag.name with
  | dynamic target => simp
  | static name =>
    have hfree : (∃ other, TagName.static name = .static other ∧
        registry.isNative source other = false ∧ other ∉ macros) ↔
          ¬(registry.isNative source name || macros.contains name) = true := by
      simp
    rw [hfree]
    by_cases htaken : (registry.isNative source name || macros.contains name) = true
    · simp only [htaken, if_true]
      simp
    simp only [htaken]
    cases howner : o.owner? with
    | none => simp
    | some owner =>
      cases hownerName : owner.name with
      | dynamic target => simp [hownerName]
      | static ownerName =>
        cases hlookup : registry.lookup source ownerName with
        | none => simp [hownerName, hlookup]
        | some d =>
          cases htemplate : d.template <;> simp [hownerName, hlookup, htemplate, hparams]

end Occurrence

/-! ## Judging -/

section

variable {σ : Type} {registry : TagRegistry} {source : Path} {ask : Path → StateM σ (Option Summary)} {m : Metadata}

/-- What a verdict comes down to for a file of which it is not known yet that it captures state. -/
def Verdict.outcome (ask : Path → StateM σ (Option Summary)) (m : Metadata) : Verdict → StateM σ (Bool × Metadata)
  | .no => pure (false, m)
  | .yes => pure (true, m.recordCapture true)
  | .ask template => do
    match ← ask template with
    | some s => pure (s.exposesState, m.recordCapture s.exposesState)
    | none => pure (false, m)

theorem Capture.isYes_iff {c : Capture} : c.isYes = true ↔ c = .yes := by
  cases c <;> decide

theorem judge_eq_outcome (o : Occurrence) (h : m.capture ≠ .yes) :
    o.judge registry source ask m = (o.verdict registry source m.macros).outcome ask m := by
  rw [Occurrence.judge, if_neg fun hyes => h (Capture.isYes_iff.mp hyes)]
  cases o.verdict registry source m.macros <;> rfl

theorem judge_of_yes (o : Occurrence) (h : m.capture = .yes) : o.judge registry source ask m = pure (true, m) := by
  rw [Occurrence.judge, if_pos (Capture.isYes_iff.mpr h)]

/-- Once it is known that state is captured, nothing is asked and nothing changes. -/
theorem judgeAll_of_yes (os : List Occurrence) (h : m.capture = .yes) :
    judgeAll registry source ask os m = pure m := by
  induction os with
  | nil => rfl
  | cons o os ih =>
    rw [judgeAll, judge_of_yes o h, pure_bind]
    exact ih

/-- Tags are judged one after the other, each with what the ones in front of it left. -/
theorem run_judgeAll_cons (ask : Path → StateM σ (Option Summary)) (o : Occurrence) (os : List Occurrence)
    (m : Metadata) (s : σ) :
    (judgeAll registry source ask (o :: os) m).run s =
      (judgeAll registry source ask os ((o.judge registry source ask m).run s).1.2).run
        ((o.judge registry source ask m).run s).2 := rfl

theorem judgeAll_append (before rest : List Occurrence) (m : Metadata) :
    judgeAll registry source ask (before ++ rest) m =
      judgeAll registry source ask before m >>= judgeAll registry source ask rest := by
  induction before generalizing m with
  | nil => exact (pure_bind m _).symm
  | cons o before ih =>
    rw [List.cons_append, judgeAll, judgeAll, bind_assoc]
    exact congrArg _ (funext fun judged => ih judged.2)

end

end TemplateCompiler
