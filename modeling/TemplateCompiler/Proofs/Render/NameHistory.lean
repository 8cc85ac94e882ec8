import TemplateCompiler.Proofs.Lowering.Logic
import TemplateCompiler.Proofs.Names

/-!
# Names over a history

Names are kept out of the choice, generated for hints, and given to imports and to macros, in any order and
as often as it takes. What a step does to the names in use is said once (`exists_gives`). From that, the state
keeps track of the history of calls (`Tracks`), and each call is answered with a name that is new, or with
the one that was given before for the same thing (`names_of_history`).
-/

namespace TemplateCompiler.Render

/-- What a name is given for. It gets no other name later. -/
inductive Purpose where
  | imported (source : String) (binding : Binding)
  | function (name : String)
deriving DecidableEq, Repr

/-- The name that is given for a purpose. -/
def State.nameFor? (s : State) : Purpose → Option String
  | .imported source binding => s.imports.find? source binding
  | .function name => s.macroNames.lookup name

/-- A call that takes a name. -/
inductive NameCall where
  /-- An authored name is kept out of the choice. -/
  | reserve (name : String)
  | generate (hint : String)
  | importName (source : String) (binding : Binding) (hint : String)
  | macroFunction (name : String)

namespace NameCall

/-- The step that a call is, with the name that it takes. -/
def run : NameCall → Lower String
  | .reserve name => do
    modify fun s => { s with names := s.names.reserve name }
    pure name
  | .generate hint => generateName hint
  | .importName source binding hint => Render.importName source binding hint
  | .macroFunction name => Render.macroFunction name

/-- Calls one after the other. -/
def runAll : List NameCall → Lower (List String)
  | [] => pure []
  | c :: rest => do
    let name ← c.run
    let names ← runAll rest
    pure (name :: names)

/-- What a call asks a name for. -/
def purpose? : NameCall → Option Purpose
  | .reserve _ | .generate _ => none
  | .importName source binding _ => some (.imported source binding)
  | .macroFunction name => some (.function name)

/-- The hint for the name that a call generates. -/
def hint? : NameCall → Option String
  | .reserve _ => none
  | .generate hint | .importName _ _ hint => some hint
  | .macroFunction name => some name

/-! ## One call -/

/-- What a call does to the state: it gives the name that is there for its purpose, or takes its own name out
of the choice, or generates a name, which is remembered for its purpose only. -/
inductive Gives (c : NameCall) (s : State) : String → State → Prop
  | known {k : Purpose} {name : String} (hpurpose : c.purpose? = some k)
      (hname : s.nameFor? k = some name) : Gives c s name s
  | reserved {name : String} {t : State} (hcall : c = .reserve name)
      (hnames : t.names = s.names.reserve name) (hother : ∀ k, t.nameFor? k = s.nameFor? k) :
      Gives c s name t
  | generated {hint : String} {t : State} (hhint : c.hint? = some hint)
      (hnew : ∀ k, c.purpose? = some k → s.nameFor? k = none)
      (hnames : t.names = s.names.reserve (s.names.fresh hint))
      (hown : ∀ k, c.purpose? = some k → t.nameFor? k = some (s.names.fresh hint))
      (hother : ∀ k, c.purpose? ≠ some k → t.nameFor? k = s.nameFor? k) :
      Gives c s (s.names.fresh hint) t

theorem find?_importOf (imports : Imports) (e : HoistedImport) (source : String) (binding : Binding) :
    Imports.find? ⟨imports.entries ++ [e]⟩ source binding =
      (imports.find? source binding).or
        (if e.source = source ∧ e.binding = binding then some e.localName else none) := by
  simp only [Imports.find?, List.find?_append, List.find?_singleton, Bool.and_eq_true, beq_iff_eq]
  cases imports.entries.find? fun e => e.source == source && e.binding == binding with
  | some known => rfl
  | none => by_cases h : e.source = source ∧ e.binding = binding <;> simp [h]

theorem lookup_snoc (functions : List (String × String)) (name function other : String) :
    (functions ++ [(name, function)]).lookup other =
      (functions.lookup other).or (if name = other then some function else none) := by
  rw [List.lookup_append]
  by_cases h : name = other
  · simp [h]
  · have hne : (other == name) = false := by simpa using Ne.symm h
    simp [List.lookup_cons, hne, h]

/-- A call for a purpose that has no name yet gives a new one, if the new state knows it for that purpose. -/
theorem Gives.new {c : NameCall} {s t : State} {k : Purpose} {hint : String} (hhint : c.hint? = some hint)
    (hpurpose : c.purpose? = some k) (hnone : s.nameFor? k = none)
    (hnames : t.names = s.names.reserve (s.names.fresh hint))
    (hfor : ∀ k', t.nameFor? k' = (s.nameFor? k').or (if k = k' then some (s.names.fresh hint) else none)) :
    Gives c s (s.names.fresh hint) t := by
  have heq {k' : Purpose} (hk' : c.purpose? = some k') : k = k' := Option.some.inj (hpurpose.symm.trans hk')
  refine .generated hhint (fun k' hk' => ?_) hnames (fun k' hk' => ?_) fun k' hk' => ?_
  · exact heq hk' ▸ hnone
  · obtain rfl := heq hk'
    simp [hfor, hnone]
  · have hne : k ≠ k' := fun h => hk' (h ▸ hpurpose)
    simp [hfor, hne]

/-- Every call gives a name. -/
theorem exists_gives (c : NameCall) (s : State) :
    ∃ name t, outcome c.run s = (.ok name, t) ∧ Gives c s name t := by
  cases c with
  | reserve name => exact ⟨name, _, rfl, .reserved rfl rfl fun k => by cases k <;> rfl⟩
  | generate hint =>
    exact ⟨_, _, rfl, .generated rfl (by simp [purpose?]) rfl (by simp [purpose?])
      fun k _ => by cases k <;> rfl⟩
  | importName source binding hint =>
    have hrun := outcome_importName source binding hint s
    cases hknown : s.imports.find? source binding with
    | some name =>
      rw [hknown] at hrun
      exact ⟨name, s, hrun, .known rfl hknown⟩
    | none =>
      rw [hknown] at hrun
      refine ⟨_, _, hrun, .new rfl rfl hknown rfl fun k => ?_⟩
      cases k with
      | imported other b =>
        simp only [Purpose.imported.injEq]
        exact find?_importOf s.imports ⟨source, binding, s.names.fresh hint⟩ other b
      | function name => exact Option.or_none.symm
  | macroFunction name =>
    have hrun := outcome_macroFunction name s
    cases hknown : s.macroNames.lookup name with
    | some function =>
      rw [hknown] at hrun
      exact ⟨function, s, hrun, .known rfl hknown⟩
    | none =>
      rw [hknown] at hrun
      refine ⟨_, _, hrun, .new rfl rfl hknown rfl fun k => ?_⟩
      cases k with
      | imported source binding => exact Option.or_none.symm
      | function other =>
        simp only [Purpose.function.injEq]
        exact lookup_snoc s.macroNames name (s.names.fresh name) other

/-! ## A history of calls -/

/-- The name that was first given for a purpose. -/
def given? (history : List (NameCall × String)) (k : Purpose) : Option String :=
  (history.find? fun e => e.1.purpose? == some k).map (·.2)

/-- How a call is answered after a history of calls with the names that they took. -/
structure IsAnswered (history : List (NameCall × String)) (c : NameCall) (name : String)
    (s t : State) : Prop where
  /-- What was asked for before gets its first name, and nothing is generated. -/
  again : ∀ k first, c.purpose? = some k → given? history k = some first → name = first ∧ t = s
  /-- All else gets a plain identifier, which is the first one for its hint that was not taken before. -/
  new : ∀ hint, c.hint? = some hint → (∀ k, c.purpose? = some k → given? history k = none) →
    Text.isPlainIdentifier name = true ∧ name.toList.head? = some '_' ∧
      Names.IsFirstFree (history.map Prod.snd) hint name
  /-- What was given for one purpose is not given for another one. -/
  distinct : ∀ k, c.purpose? = some k → ∀ e ∈ history, ∀ k', e.1.purpose? = some k' → k' ≠ k →
    e.2 ≠ name

/-- The state knows the names that were taken, and what they were given for. -/
structure Tracks (history : List (NameCall × String)) (s : State) : Prop where
  used : ∀ name, name ∈ s.names.used ↔ name ∈ history.map Prod.snd
  names : ∀ k, s.nameFor? k = given? history k
  distinct : ∀ e ∈ history, ∀ e' ∈ history, ∀ k k', e.1.purpose? = some k →
    e'.1.purpose? = some k' → k ≠ k' → e.2 ≠ e'.2

theorem tracks_start (m : Metadata) : Tracks [] (.start ⟨[]⟩ m .empty) where
  used name := by simp [State.start]
  names k := by cases k <;> rfl
  distinct e he := by simp at he

theorem mem_of_given? {history : List (NameCall × String)} {k : Purpose} {name : String}
    (h : given? history k = some name) : ∃ e ∈ history, e.1.purpose? = some k ∧ e.2 = name := by
  unfold given? at h
  cases hfind : history.find? fun e => e.1.purpose? == some k with
  | none => simp [hfind] at h
  | some e =>
    have hpurpose := List.find?_some hfind
    rw [hfind] at h
    exact ⟨e, List.mem_of_find?_eq_some hfind, by simpa using hpurpose, Option.some.inj h⟩

theorem given?_snoc (history : List (NameCall × String)) (c : NameCall) (name : String) (k : Purpose) :
    given? (history ++ [(c, name)]) k =
      (given? history k).or (if c.purpose? = some k then some name else none) := by
  simp only [given?, List.find?_append, List.find?_singleton, beq_iff_eq]
  cases history.find? fun e => e.1.purpose? == some k with
  | some e => rfl
  | none => by_cases h : c.purpose? = some k <;> simp [h]

section

variable {history : List (NameCall × String)} {c : NameCall} {s t : State} {name : String}

/-- A state that knows the history answers the next call. -/
theorem Tracks.answered (h : Tracks history s) (hgives : Gives c s name t) :
    IsAnswered history c name s t := by
  cases hgives with
  | @known k name hpurpose hname =>
    rw [h.names k] at hname
    constructor
    · intro k' first hk' hfirst
      rw [hpurpose] at hk'
      cases hk'
      rw [hname] at hfirst
      exact ⟨Option.some.inj hfirst, rfl⟩
    · intro hint _ hnew
      rw [hnew k hpurpose] at hname
      cases hname
    · intro k' hk' e he k'' hk'' hne
      rw [hpurpose] at hk'
      cases hk'
      obtain ⟨first, hfirst, hk, heq⟩ := mem_of_given? hname
      rw [← heq]
      exact h.distinct e he first hfirst k'' k hk'' hk hne
  | reserved hcall _ _ =>
    subst hcall
    constructor <;> simp [purpose?, hint?]
  | @generated hint t hhint hnew _ _ _ =>
    -- a generated name is free of all names in use, which are those of the history
    have hfirst := Names.isFirstFree_fresh s.names hint h.used
    obtain ⟨n, -, hn, hfree, -⟩ := id hfirst
    constructor
    · intro k first hk hgiven
      rw [← h.names k, hnew k hk] at hgiven
      cases hgiven
    · intro hint' hhint' _
      rw [hhint] at hhint'
      cases hhint'
      obtain ⟨cs, hcs, -⟩ := Names.exists_toList_candidate hint n
      refine ⟨?_, ?_, hfirst⟩
      · rw [hn]
        exact Names.isPlainIdentifier_candidate hint n
      · rw [hn, hcs]
        rfl
    · intro k hk e he k' hk' hne heq
      exact hfree (heq ▸ List.mem_map_of_mem he)

/-- After a call, there is a name for its purpose as well, and those for other purposes are as before. -/
theorem Gives.nameFor?_eq (hgives : Gives c s name t) (k : Purpose) :
    t.nameFor? k = (s.nameFor? k).or (if c.purpose? = some k then some name else none) := by
  cases hgives with
  | known hpurpose hname =>
    by_cases hk : c.purpose? = some k
    · rw [hpurpose] at hk
      cases hk
      simp [hname]
    · simp [hk]
  | reserved hcall _ hother =>
    subst hcall
    simp [hother, purpose?]
  | generated _ hnew _ hown hother =>
    by_cases hk : c.purpose? = some k
    · simp [hk, hown k hk, hnew k hk]
    · simp [hk, hother k hk]

/-- After a call, its name is in use. A name that is given again has been in use since it was given first. -/
theorem Tracks.mem_used_iff (h : Tracks history s) (hgives : Gives c s name t) (other : String) :
    other ∈ t.names.used ↔ other = name ∨ other ∈ s.names.used := by
  cases hgives with
  | known hpurpose hname =>
    have hused : name ∈ s.names.used := by
      rw [h.names] at hname
      obtain ⟨e, he, -, rfl⟩ := mem_of_given? hname
      exact (h.used _).mpr (List.mem_map_of_mem he)
    exact ⟨.inr, fun hother => hother.elim (fun heq => heq ▸ hused) id⟩
  | reserved hcall hnames _ => rw [hnames, Names.mem_reserve]
  | generated _ _ hnames _ _ => rw [hnames, Names.mem_reserve]

/-- After a call, the state knows the history with the call. -/
theorem Tracks.step (h : Tracks history s) (hgives : Gives c s name t) :
    Tracks (history ++ [(c, name)]) t := by
  have hanswered := h.answered hgives
  constructor
  · intro other
    rw [h.mem_used_iff hgives, h.used, List.map_append, List.mem_append, List.map_singleton, List.mem_singleton]
    exact Or.comm
  · intro k
    rw [hgives.nameFor?_eq, h.names, given?_snoc]
  · intro e he e' he' k k' hk hk' hne
    rw [List.mem_append, List.mem_singleton] at he he'
    -- two calls of the history, or the new one with one of the history
    rcases he with he | rfl
    · rcases he' with he' | rfl
      · exact h.distinct e he e' he' k k' hk hk' hne
      · exact hanswered.distinct k' hk' e he k hk hne
    · rcases he' with he' | rfl
      · exact (hanswered.distinct k hk e' he' k' hk' hne.symm).symm
      · rw [hk] at hk'
        exact absurd (Option.some.inj hk') hne

/-- Calls give one name each, and the state knows the history that they go on with. -/
theorem exists_run_of_tracks (calls : List NameCall) (h : Tracks history s) :
    ∃ names t, outcome (runAll calls) s = (.ok names, t) ∧ names.length = calls.length ∧
      Tracks (history ++ calls.zip names) t := by
  induction calls generalizing history s with
  | nil => exact ⟨[], s, rfl, rfl, by simpa using h⟩
  | cons c rest ih =>
    obtain ⟨name, u, hname, hgives⟩ := exists_gives c s
    obtain ⟨names, t, hnames, hlength, htracks⟩ := ih (h.step hgives)
    refine ⟨name :: names, t, ?_, by simp [hlength], by simpa using htracks⟩
    exact outcome_bind_eq_ok.mpr ⟨name, u, hname, outcome_bind_eq_ok.mpr ⟨names, t, hnames, rfl⟩⟩

end

/-- After any calls on the names of a file of which nothing is known yet, the next call gives a name: the one
that was given before for the same thing, else a plain identifier which is the first one for its hint that was
not taken before. Different imports and macros have different names. -/
theorem names_of_history (m : Metadata) (calls : List NameCall) (c : NameCall) :
    ∃ names s name t, outcome (runAll calls) (.start ⟨[]⟩ m .empty) = (.ok names, s) ∧
      names.length = calls.length ∧ outcome c.run s = (.ok name, t) ∧
      IsAnswered (calls.zip names) c name s t := by
  obtain ⟨names, s, hnames, hlength, htracks⟩ := exists_run_of_tracks calls (tracks_start m)
  obtain ⟨name, t, hname, hgives⟩ := exists_gives c s
  rw [List.nil_append] at htracks
  exact ⟨names, s, name, t, hnames, hlength, hname, htracks.answered hgives⟩

example : (outcome (runAll [.reserve "_aB", .generate "a-b", .importName "./a" .default "@a b",
    .macroFunction "aB", .importName "./a" .default "c"]) (.start ⟨[]⟩ (.ofPath ⟨"a"⟩) .empty)).1.toOption =
    some ["_aB", "_aB2", "_aB3", "_aB4", "_aB3"] := by
  decide +kernel

end NameCall

end TemplateCompiler.Render
