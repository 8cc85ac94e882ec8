import TemplateCompiler.Compilation
import TemplateCompiler.Proofs.Lowering.Effects

/-!
# Rejected texts

When lowering fails. A tag asks for texts that are expressions, which ones is decided by what the tag stands
for (`Env.fragments`). Lowering checks some of them, each at the place of the tag that it comes from
(`Node.exists_tag_of_mem_checks`), and comes to an end at the first one that is rejected, with an error that
shows that text and that place (`outcome_lowerAll_eq`).
-/

namespace TemplateCompiler

open Render
open Script (acceptsExpression isLiteral)

/-! ## Checks -/

/-- A text that has to be an expression, and the place where this is reported if it is not. -/
structure Check where
  location : Location
  text : String
deriving DecidableEq, Repr

namespace Check

/-- The text is no expression. -/
def isRejected (c : Check) : Bool := !acceptsExpression c.text

/-- What is reported of a text that is rejected. -/
def error (file : String) (c : Check) : Error := .expression file c.text c.location

/-- A list of checks fails at the first text that is rejected. -/
def runAll (file : String) (checks : List Check) : Except Error Unit :=
  match checks.find? isRejected with
  | some c => .error (c.error file)
  | none => .ok ()

theorem runAll_eq_ok_iff {file : String} {checks : List Check} :
    runAll file checks = .ok () ↔ ∀ c ∈ checks, acceptsExpression c.text = true := by
  have hnone : checks.find? isRejected = none ↔ ∀ c ∈ checks, acceptsExpression c.text = true := by
    simp [isRejected]
  rw [← hnone, runAll]
  cases checks.find? isRejected <;> simp

theorem exists_of_runAll_eq_error {file : String} {checks : List Check} {e : Error}
    (h : runAll file checks = .error e) :
    ∃ c ∈ checks, acceptsExpression c.text = false ∧ e = c.error file := by
  unfold runAll at h
  split at h
  · rename_i c hfind
    cases h
    have hrejected := List.find?_some hfind
    exact ⟨c, List.mem_of_find?_eq_some hfind, by simpa [isRejected] using hrejected, rfl⟩
  · cases h

end Check

namespace Effect

/-- The check that an effect is. -/
def check? : Effect → Option Check
  | .check location text => some ⟨location, text⟩
  | _ => none

/-- Of the effects only the checks can fail. -/
theorem fst_run (file : String) (es : List Effect) (m : Metadata) :
    (run file es m).1 = Check.runAll file (es.filterMap check?) := by
  induction es generalizing m with
  | nil => rfl
  | cons e rest ih =>
    cases e with
    | use request => exact ih (m.addTag request)
    | hand marks text => exact ih m
    | check location text =>
      have hcheck : check? (.check location text) = some ⟨location, text⟩ := rfl
      rw [run, List.filterMap_cons_some hcheck, Check.runAll]
      by_cases haccepts : acceptsExpression text = true
      · rw [if_pos haccepts, ih, List.find?_cons_of_neg (by simp [Check.isRejected, haccepts])]
        rfl
      · rw [if_neg haccepts, List.find?_cons_of_pos (by simpa [Check.isRejected] using haccepts)]
        rfl

end Effect

/-! ## Texts of tags -/

namespace Render

/-- What a loop runs over: a list, else an object, else a range with its step. -/
def loopOperands (t : Tag) : List String :=
  match t.valueOf "of", t.valueOf "in", t.valueOf "from", t.valueOf "to" with
  | some list, _, _, _ => [list]
  | none, some object, _, _ => [object]
  | none, none, some start, some bound => [start, bound, (t.valueOf "step").getD "1"]
  | _, _, _, _ => []

/-- The texts of a tag that have to be expressions. The attributes of an input, and of an element in tree
output, are one text, an object. -/
def Env.fragments (env : Env) (t : Tag) : List String :=
  match env.kindOf t with
  | .dynamic target => [target, objectText t.attributes]
  | .slot | .macroCall _ | .custom _ _ => [objectText t.attributes]
  | .ifTrue | .elseIfTrue => [conditionOf t]
  | .loop => loopOperands t
  | .native _ => if env.isHtml then t.attributes.map (·.value) else [objectText t.attributes]
  | .otherwise | .macroDefinition => []

end Render

namespace Node

mutual

/-- The tags in a node, each with its place. -/
def placedTags : Node → List (Location × Tag)
  | .leaf _ _ => []
  | .tag m t children => (m.location, t) :: placedTagsIn children
termination_by structural n => n

/-- The tags in nodes, each with its place. -/
def placedTagsIn : List Node → List (Location × Tag)
  | [] => []
  | n :: ns => n.placedTags ++ placedTagsIn ns
termination_by structural ns => ns

end

/-- The checks of lowering nodes, in their order. -/
def checksIn (env : Env) (ns : List Node) : List Check := (effectsIn env ns).filterMap Effect.check?

end Node

namespace Effect

/-- Each check is one of a text of a tag, at the place of that tag. -/
def AreChecksOf (env : Env) (tags : List (Location × Tag)) (es : List Effect) : Prop :=
  ∀ location text, .check location text ∈ es → ∃ t, (location, t) ∈ tags ∧ text ∈ env.fragments t

section

variable {env : Env} {tags : List (Location × Tag)} {es fs : List Effect}

theorem areChecksOf_nil : AreChecksOf env tags [] := fun _ _ h => (List.not_mem_nil h).elim

theorem AreChecksOf.append (hes : AreChecksOf env tags es) (hfs : AreChecksOf env tags fs) :
    AreChecksOf env tags (es ++ fs) := fun location text h =>
  (List.mem_append.mp h).elim (hes location text) (hfs location text)

theorem AreChecksOf.mono {others : List (Location × Tag)} (h : AreChecksOf env tags es)
    (hsubset : tags ⊆ others) : AreChecksOf env others es := fun location text hmem =>
  let ⟨t, ht, htext⟩ := h location text hmem
  ⟨t, hsubset ht, htext⟩

/-- The checks of texts of one tag. -/
theorem areChecksOf_map {location : Location} {t : Tag} (ht : (location, t) ∈ tags) {texts : List String}
    (htexts : texts ⊆ env.fragments t) : AreChecksOf env tags (texts.map (.check location)) := by
  intro place text hmem
  obtain ⟨text', htext', heq⟩ := List.mem_map.mp hmem
  cases heq
  exact ⟨t, ht, htexts htext'⟩

theorem areChecksOf_check {location : Location} {t : Tag} (ht : (location, t) ∈ tags) {text : String}
    (htext : text ∈ env.fragments t) : AreChecksOf env tags [.check location text] := by
  intro place text' hmem
  cases List.mem_singleton.mp hmem
  exact ⟨t, ht, htext⟩

theorem areChecksOf_inputEffects {location : Location} {t : Tag} (ht : (location, t) ∈ tags)
    (hobject : objectText t.attributes ∈ env.fragments t) (children : List Node) {content : List Effect}
    {forSlot : String → List Effect} (hcontent : AreChecksOf env tags content)
    (hslots : ∀ slot, AreChecksOf env tags (forSlot slot)) :
    AreChecksOf env tags (inputEffects location t children content forSlot) := by
  have hone : AreChecksOf env tags [.check location (objectText t.attributes)] :=
    areChecksOf_check ht hobject
  have hall : AreChecksOf env tags ((slotNames children).flatMap forSlot) := by
    intro place text hmem
    obtain ⟨slot, -, hslot⟩ := List.mem_flatMap.mp hmem
    exact hslots slot place text hslot
  exact hone.append (hall.append hcontent)

theorem loopChecks_eq (location : Location) (t : Tag) :
    loopChecks location t = (loopOperands t).map (.check location) := by
  unfold loopChecks loopOperands
  cases t.valueOf "of" with
  | some list => rfl
  | none =>
    cases t.valueOf "in" with
    | some object => rfl
    | none => cases t.valueOf "from" <;> cases t.valueOf "to" <;> rfl

theorem areChecksOf_elementChecks {location : Location} {t : Tag} {name : String}
    (ht : (location, t) ∈ tags) (hkind : env.kindOf t = .native name) :
    AreChecksOf env tags (elementChecks env location t) := by
  have hfragments : env.fragments t =
      if env.isHtml then t.attributes.map (·.value) else [objectText t.attributes] := by
    rw [Env.fragments, hkind]
  unfold elementChecks
  split
  · rename_i hhtml
    have hvalues (attributes : List Attribute) : (attributes.map fun a => Effect.check location a.value) =
        (attributes.map (·.value)).map (.check location) := List.map_map.symm
    rw [hvalues]
    refine areChecksOf_map ht ?_
    rw [hfragments, if_pos hhtml]
    exact List.map_subset _ (List.filter_subset_self _)
  · rename_i hhtml
    split
    · exact areChecksOf_nil
    · refine areChecksOf_check ht ?_
      rw [hfragments, if_neg hhtml]
      exact List.mem_singleton_self _

theorem areChecksOf_tagEffects {m : Marks} {t : Tag} (ht : (m.location, t) ∈ tags)
    (children : List Node) {content : List Effect} {forSlot : String → List Effect}
    (hcontent : AreChecksOf env tags content) (hslots : ∀ slot, AreChecksOf env tags (forSlot slot)) :
    AreChecksOf env tags (tagEffects env m t children content forSlot) := by
  have hinput (hobject : objectText t.attributes ∈ env.fragments t) :
      AreChecksOf env tags (inputEffects m.location t children content forSlot) :=
    areChecksOf_inputEffects ht hobject children hcontent hslots
  unfold tagEffects
  cases hkind : env.kindOf t with
  | dynamic target =>
    have hfragments : env.fragments t = [target, objectText t.attributes] := by
      rw [Env.fragments, hkind]
    have htarget : AreChecksOf env tags [.check m.location target] :=
      areChecksOf_check ht (by simp [hfragments])
    exact htarget.append (hinput (by simp [hfragments]))
  | slot => exact areChecksOf_nil
  | ifTrue | elseIfTrue =>
    have hfragments : env.fragments t = [conditionOf t] := by rw [Env.fragments, hkind]
    have hcondition : AreChecksOf env tags [.check m.location (conditionOf t)] :=
      areChecksOf_check ht (by simp [hfragments])
    exact hcondition.append hcontent
  | otherwise => exact hcontent
  | loop =>
    have hfragments : env.fragments t = loopOperands t := by rw [Env.fragments, hkind]
    rw [loopChecks_eq]
    exact (areChecksOf_map ht (by rw [hfragments]; exact List.Subset.refl _)).append hcontent
  | macroDefinition =>
    dsimp only
    split
    · exact hcontent
    · exact areChecksOf_nil
  | macroCall name => exact hinput (by simp [Env.fragments, hkind])
  | native name =>
    dsimp only
    split
    · exact areChecksOf_nil
    · refine (areChecksOf_elementChecks ht hkind).append ?_
      split
      · exact areChecksOf_nil
      · exact hcontent
  | custom name request =>
    intro place text hmem
    rcases List.mem_cons.mp hmem with h | hmem
    · cases h
    · exact hinput (by simp [Env.fragments, hkind]) place text hmem

end

end Effect

namespace Node

-- An attribute tag is not checked by itself, but with the tag that takes it.
theorem areChecksOf_effects (env : Env) :
    (∀ n : Node, Effect.AreChecksOf env n.placedTags (n.effects env) ∧
      ∀ slot, Effect.AreChecksOf env n.placedTags (n.effectsFor env slot)) ∧
    ∀ ns : List Node, Effect.AreChecksOf env (placedTagsIn ns) (effectsIn env ns) ∧
      ∀ slot, Effect.AreChecksOf env (placedTagsIn ns) (effectsForIn env slot ns) := by
  apply Node.induct
  case leaf =>
    intro m l
    refine ⟨?_, fun slot => Effect.areChecksOf_nil⟩
    intro location text hmem
    cases l <;> simp [effects, leafEffects] at hmem
  case tag =>
    intro m t children ih
    have hself : (m.location, t) ∈ (Node.tag m t children).placedTags := List.mem_cons_self
    have hcontent := ih.1.mono (List.subset_cons_self (m.location, t) _)
    have hslots := fun slot => (ih.2 slot).mono (List.subset_cons_self (m.location, t) _)
    refine ⟨Effect.areChecksOf_tagEffects hself children hcontent hslots, fun slot => ?_⟩
    rw [effectsFor]
    split
    · rename_i hslot
      have hkind : env.kindOf t = .slot := (kindOf_eq_slot_iff env t).mpr (by simp [hslot])
      exact Effect.areChecksOf_inputEffects hself (by simp [Env.fragments, hkind]) children hcontent hslots
    · exact Effect.areChecksOf_nil
  case nil => exact ⟨Effect.areChecksOf_nil, fun slot => Effect.areChecksOf_nil⟩
  case cons =>
    intro n ns hn hns
    have hfirst : n.placedTags ⊆ placedTagsIn (n :: ns) := List.subset_append_left _ _
    have hrest : placedTagsIn ns ⊆ placedTagsIn (n :: ns) := List.subset_append_right _ _
    exact ⟨(hn.1.mono hfirst).append (hns.1.mono hrest), fun slot =>
      ((hn.2 slot).mono hfirst).append ((hns.2 slot).mono hrest)⟩

/-- What is checked is a text of a tag, and the place is that of this tag. -/
theorem exists_tag_of_mem_checks {env : Env} {ns : List Node} {c : Check} (h : c ∈ checksIn env ns) :
    ∃ t, (c.location, t) ∈ placedTagsIn ns ∧ c.text ∈ env.fragments t := by
  obtain ⟨e, he, hcheck⟩ := List.mem_filterMap.mp h
  cases e with
  | check location text =>
    cases hcheck
    exact ((areChecksOf_effects env).2 ns).1 location text he
  | use request => cases hcheck
  | hand marks text => cases hcheck

end Node

namespace Render

/-! ## Main result -/

/-- Lowering comes to what its checks come to. -/
theorem outcome_lowerAll_eq {env : Env} (htext : env.text = standardText env.options) (ns : List Node)
    (s : State) :
    ((outcome (lowerAll env ns) s).1.map fun _ => ()) =
      Check.runAll env.source.text (Node.checksIn env ns) := by
  rw [Node.checksIn, ← Effect.fst_run _ _ s.metadata, ← performs_lowerAll htext ns s]

/-- Lowering only fails at a text of a tag that is rejected, and says which text it is and where that tag
stands. If the texts of all tags are accepted it succeeds. Which of them it looks at, and in which order, is
decided before anything is lowered. -/
theorem lowerAll_fails_at_fragment (options : Options) (registry : TagRegistry) (working : Option Path)
    (source : Path) (macros : List String) (ns : List Node) (s : State) :
    let env := (Setting.standard options registry working).env source macros
    let result := (outcome (lowerAll env ns) s).1
    (∀ e, result = .error e → ∃ location t text, (location, t) ∈ Node.placedTagsIn ns ∧
      text ∈ env.fragments t ∧ acceptsExpression text = false ∧
      e = .expression source.text text location ∧
      e.report = .ofCode "T-ERR-SYNTAX-001" "Invalid expression" source.text location (some text) []) ∧
    ((∀ location t, (location, t) ∈ Node.placedTagsIn ns → ∀ text ∈ env.fragments t,
      acceptsExpression text = true) → ∃ ops, result = .ok ops) ∧
    (result.map fun _ => ()) = Check.runAll source.text (Node.checksIn env ns) := by
  intro env result
  have hrun : (result.map fun _ => ()) = Check.runAll source.text (Node.checksIn env ns) :=
    outcome_lowerAll_eq rfl ns s
  refine ⟨fun e he => ?_, fun hall => ?_, hrun⟩
  · rw [he] at hrun
    obtain ⟨c, hc, hrejected, rfl⟩ := Check.exists_of_runAll_eq_error hrun.symm
    obtain ⟨t, ht, hfragment⟩ := Node.exists_tag_of_mem_checks hc
    exact ⟨c.location, t, c.text, ht, hfragment, hrejected, rfl, rfl⟩
  · have haccepted : Check.runAll source.text (Node.checksIn env ns) = .ok () := by
      rw [Check.runAll_eq_ok_iff]
      intro c hc
      obtain ⟨t, ht, hfragment⟩ := Node.exists_tag_of_mem_checks hc
      exact hall c.location t ht c.text hfragment
    rw [haccepted] at hrun
    cases hresult : result with
    | ok ops => exact ⟨ops, rfl⟩
    | error e =>
      rw [hresult] at hrun
      cases hrun

/-- An attribute tag in a tag that nothing is known of, inside of an element: with an attribute that ends too
early, and without. -/
theorem lowerAll_fails_at_fragment_slot :
    let registry := TagRegistry.ofList []
    let place (line : UInt32) : Marks := ⟨false, ⟨line, 1⟩⟩
    let page (value : String) : List Node := [.tag (place 1) ⟨.static "div", [], none, []⟩ [
      .tag (place 2) ⟨.static "card", [], none, []⟩ [
        .tag (place 3) ⟨.static "@head", [⟨"size", value⟩], none, []⟩ []]]]
    let env := (Setting.standard {} registry).env ⟨"/app/page.marko"⟩ []
    let start := State.start ⟨[]⟩ (.ofPath ⟨"/app/page.marko"⟩) .empty
    (∃ e, (outcome (lowerAll env (page "a +")) start).1 = .error e ∧
      e.report = .ofCode "T-ERR-SYNTAX-001" "Invalid expression" "/app/page.marko" ⟨3, 1⟩
        (some "\x7b size: a + \x7d") []) ∧
      (∀ location t, (location, t) ∈ Node.placedTagsIn (page "a + 1") → ∀ text ∈ env.fragments t,
        acceptsExpression text = true) ∧
      ∃ ops, (outcome (lowerAll env (page "a + 1")) start).1 = .ok ops := by
  intro registry place page env start
  have hfails := lowerAll_fails_at_fragment {} registry (some .root) ⟨"/app/page.marko"⟩ [] (page "a +") start
  have hholds := lowerAll_fails_at_fragment {} registry (some .root) ⟨"/app/page.marko"⟩ [] (page "a + 1") start
  have haccepted : ∀ p ∈ Node.placedTagsIn (page "a + 1"), ∀ text ∈ env.fragments p.2,
      acceptsExpression text = true := by decide +kernel
  refine ⟨?_, fun location t ht => haccepted (location, t) ht,
    hholds.2.1 fun location t ht => haccepted (location, t) ht⟩
  have hrejected : Check.runAll "/app/page.marko" (Node.checksIn env (page "a +")) =
      .error (.expression "/app/page.marko" "\x7b size: a + \x7d" ⟨3, 1⟩) := by decide +kernel
  cases hresult : (outcome (lowerAll env (page "a +")) start).1 with
  | ok ops =>
    have hrun := hfails.2.2
    rw [hresult, hrejected] at hrun
    cases hrun
  | error e =>
    have hrun := hfails.2.2
    rw [hresult, hrejected] at hrun
    cases hrun
    obtain ⟨location, t, text, -, -, -, heq, hreport⟩ := hfails.1 _ hresult
    cases heq
    exact ⟨_, rfl, hreport⟩

end Render

end TemplateCompiler
