import Mathlib.Logic.Basic
import TemplateCompiler.Proofs.Analysis.Verdicts

/-!
# Attribute tags and their owners

A plain tag is judged by its name (`TagName.verdict`). An attribute tag is left to the template of its owner, but
whether it is judged at all is decided by its own name. So it is judged as its owner just if the owner has a fixed
name and, where there is a template to be asked, both names are free or neither is (`judge_eq_owner_iff`).
-/

namespace TemplateCompiler

variable {registry : TagRegistry} {source : Path} {macros : List String}

/-! ## Names -/

/-- A name is that of a native element or of a macro of the file. -/
def IsNativeOrMacro (registry : TagRegistry) (source : Path) (macros : List String) (name : String) : Prop :=
  registry.isNative source name = true ∨ name ∈ macros

instance (name : String) : Decidable (IsNativeOrMacro registry source macros name) :=
  inferInstanceAs (Decidable (_ ∨ _))

/-- What decides for a tag of a name that binds names itself: if it is chosen at rendering, it captures state; if it is
native or a macro, it does not; and all others are left to their template. -/
def TagName.verdict (registry : TagRegistry) (source : Path) (macros : List String) : TagName → Verdict
  | .dynamic _ => .yes
  | .static name =>
    if IsNativeOrMacro registry source macros name then .no
    else ((registry.template? source name).map Verdict.ask).getD .no

/-! ## Verdicts -/

namespace Occurrence

variable {o : Occurrence} {owner : Tag}

theorem verdict_static {name : String} (hparams : o.tag.params ≠ []) (hname : o.tag.name = .static name) :
    o.verdict registry source macros =
      if IsNativeOrMacro registry source macros name then .no
      else (((o.owner?.bind Tag.staticName).bind (registry.template? source)).map Verdict.ask).getD .no := by
  have hnamed : (registry.isNative source name || macros.contains name) = true ↔
      IsNativeOrMacro registry source macros name := by
    simp [IsNativeOrMacro]
  rw [verdict, if_neg (by simpa using hparams), Tag.staticName, hname]
  simp only [hnamed]
  refine if_congr Iff.rfl rfl ?_
  cases o.owner?.bind Tag.staticName with
  | none => rfl
  | some ownerName =>
    dsimp only
    rw [Option.bind_some, TagRegistry.template?]
    cases (registry.lookup source ownerName).bind TagDefinition.template <;> rfl

/-- A plain tag that binds names is judged by its name. -/
theorem verdict_of_plain (hparams : o.tag.params ≠ []) (hplain : o.tag.isAttributeTag = false) :
    o.verdict registry source macros = o.tag.name.verdict registry source macros := by
  cases hname : o.tag.name with
  | dynamic target => exact verdict_eq_yes_iff.mpr ⟨hparams, target, hname⟩
  | static name =>
    have howner : o.owner?.bind Tag.staticName = some name := by
      rw [owner?, hplain, if_neg Bool.false_ne_true, Option.bind_some, Tag.staticName, hname]
    rw [verdict_static hparams hname, howner]
    rfl

/-- A tag with an owner is left alone if its own name is native or that of a macro, or if the name of its owner is not
fixed; otherwise it is left to the template of its owner. -/
theorem verdict_of_owner {slot : String} (hparams : o.tag.params ≠ []) (hslot : o.tag.name = .static slot)
    (howner : o.owner? = some owner) :
    o.verdict registry source macros =
      if IsNativeOrMacro registry source macros slot then .no
      else ((owner.staticName.bind (registry.template? source)).map Verdict.ask).getD .no := by
  rw [verdict_static hparams hslot, howner, Option.bind_some]

/-- When the verdict on an attribute tag is the one on its owner. -/
theorem verdict_eq_owner_iff {slot : String} (hparams : o.tag.params ≠ []) (hslot : o.tag.name = .static slot)
    (howner : o.owner? = some owner) :
    o.verdict registry source macros = owner.name.verdict registry source macros ↔
      ∃ name, owner.name = .static name ∧
        (registry.template? source name = none ∨
          (IsNativeOrMacro registry source macros slot ↔ IsNativeOrMacro registry source macros name)) := by
  rw [verdict_of_owner hparams hslot howner, Tag.staticName]
  cases hname : owner.name with
  | dynamic target =>
    -- an owner that is chosen at rendering captures state, its attribute tags do not
    simp [TagName.verdict]
  | static name =>
    have hexists : (∃ other, TagName.static name = .static other ∧
        (registry.template? source other = none ∨
          (IsNativeOrMacro registry source macros slot ↔ IsNativeOrMacro registry source macros other))) ↔
        (registry.template? source name = none ∨
          (IsNativeOrMacro registry source macros slot ↔ IsNativeOrMacro registry source macros name)) := by simp
    rw [hexists, Option.bind_some]
    cases htemplate : registry.template? source name with
    | none => simp [TagName.verdict, htemplate]
    | some template =>
      by_cases hfree : IsNativeOrMacro registry source macros slot <;>
        by_cases hother : IsNativeOrMacro registry source macros name <;>
          simp [TagName.verdict, htemplate, hfree, hother]

end Occurrence

/-! ## Outcomes -/

/-- Different verdicts come down to different things. -/
theorem Verdict.outcome_inj {m : Metadata} {v w : Verdict} :
    (∀ ask : Path → StateM (List Path) (Option Summary), v.outcome ask m = w.outcome ask m) ↔ v = w := by
  refine ⟨fun h => ?_, fun h _ => h ▸ rfl⟩
  -- who is asked answers that state is captured, and remembers to have been asked
  let ask (template : Path) : StateM (List Path) (Option Summary) := fun asked =>
    (some ⟨true, false, false⟩, template :: asked)
  let seen (u : Verdict) : Bool × List Path := (((u.outcome ask m).run []).1.1, ((u.outcome ask m).run []).2)
  have hno : seen .no = (false, []) := rfl
  have hyes : seen .yes = (true, []) := rfl
  have hask (template : Path) : seen (.ask template) = (true, [template]) := rfl
  have hseen : seen v = seen w := by
    dsimp only [seen]
    rw [h ask]
  cases v <;> cases w <;> simp_all only [Prod.mk.injEq, List.cons.injEq, reduceCtorEq, and_true, and_false, true_and]

section

variable {o : Occurrence} {owner : Tag} {m : Metadata}

/-- What becomes of a tag with a fixed name that binds names, such as an attribute tag, in a file of which it is not
known yet that it captures state. Nothing is found out and nobody is asked if its own name is native or that of a
macro, or if its owner is chosen at rendering. Otherwise the template of the owner is asked. It is judged as its owner
would be, if that bound the names, just if the owner has a fixed name and, where a template implements it, either both
names are free or neither is. -/
theorem judge_eq_owner_iff {slot : String} (hslot : o.tag.name = .static slot) (hparams : o.tag.params ≠ [])
    (howner : o.owner? = some owner) (hm : m.capture ≠ .yes) :
    (∀ {σ : Type} (ask : Path → StateM σ (Option Summary)),
      (IsNativeOrMacro registry source m.macros slot ∨ owner.isDynamic = true →
        o.judge registry source ask m = pure (false, m)) ∧
      (∀ name, ¬IsNativeOrMacro registry source m.macros slot → owner.name = .static name →
        o.judge registry source ask m =
          (((registry.template? source name).map Verdict.ask).getD .no).outcome ask m) ∧
      (Occurrence.mk { owner with params := o.tag.params } []).judge registry source ask m =
        (owner.name.verdict registry source m.macros).outcome ask m) ∧
    ((∀ ask : Path → StateM (List Path) (Option Summary),
      o.judge registry source ask m = (owner.name.verdict registry source m.macros).outcome ask m) ↔
        ∃ name, owner.name = .static name ∧
          (registry.template? source name = none ∨
            (IsNativeOrMacro registry source m.macros slot ↔ IsNativeOrMacro registry source m.macros name))) := by
  have hverdict : o.verdict registry source m.macros =
      if IsNativeOrMacro registry source m.macros slot then .no
      else ((owner.staticName.bind (registry.template? source)).map Verdict.ask).getD .no :=
    Occurrence.verdict_of_owner hparams hslot howner
  refine ⟨fun ask => ⟨fun h => ?_, fun name hfree hname => ?_, ?_⟩, ?_⟩
  · have hno : o.verdict registry source m.macros = .no := by
      rw [hverdict]
      rcases h with hnamed | hdynamic
      · exact if_pos hnamed
      · rw [Option.isNone_iff_eq_none.mp hdynamic]
        exact ite_self _
    rw [judge_eq_outcome o hm, hno]
    rfl
  · have hfixed : owner.staticName = some name := by rw [Tag.staticName, hname]
    rw [judge_eq_outcome o hm, hverdict, if_neg hfree, hfixed, Option.bind_some]
  · have hplain : owner.isAttributeTag = false := Occurrence.isAttributeTag_of_owner? howner
    have hname : (Occurrence.mk { owner with params := o.tag.params } []).verdict registry source m.macros =
        owner.name.verdict registry source m.macros := Occurrence.verdict_of_plain hparams hplain
    rw [judge_eq_outcome _ hm, hname]
  · rw [← Occurrence.verdict_eq_owner_iff hparams hslot howner, ← Verdict.outcome_inj (m := m)]
    exact forall_congr' fun ask => by rw [judge_eq_outcome o hm]

/-- An attribute tag below another one, in a list that a template implements. -/
theorem judge_eq_owner_iff_list :
    let list : Tag := ⟨.static "list", [], none, []⟩
    let row : Occurrence := ⟨⟨.static "@row", [], none, ["item"]⟩, [⟨.static "@group", [], none, []⟩, list]⟩
    let registry : TagRegistry := .ofList [.ofTemplate "list" ⟨"/app/list.marko"⟩]
    let source : Path := ⟨"/app/page.marko"⟩
    let m := Metadata.ofPath source
    row.owner? = some list ∧ (TagName.static "list").verdict registry source m.macros = .ask ⟨"/app/list.marko"⟩ ∧
      ∀ ask : Path → StateM (List Path) (Option Summary),
        row.judge registry source ask m = ((TagName.static "list").verdict registry source m.macros).outcome ask m := by
  intro list row registry source m
  have howner : row.owner? = some list := by decide
  have hfree (name : String) (h : registry.isNative source name = false) :
      ¬IsNativeOrMacro registry source m.macros name := by
    rintro (hnative | hmacro)
    · rw [h] at hnative
      cases hnative
    · cases hmacro
  refine ⟨howner, by decide +kernel, (judge_eq_owner_iff rfl (by decide) howner (by decide)).2.mpr ?_⟩
  exact ⟨"list", rfl, .inr (iff_of_false (hfree _ (by decide +kernel)) (hfree _ (by decide +kernel)))⟩

/-- Attribute tags of a tag that is chosen at rendering, of a macro and of a native element are not judged as these. In
the first case state is captured and it is not found out; in the others a template is asked that has no part in the
file, and takes it for capturing state. -/
theorem exists_judge_ne_owner :
    let row : Tag := ⟨.static "@row", [], none, ["item"]⟩
    let list : Tag := ⟨.static "list", [], none, []⟩
    let registry : TagRegistry := .ofList
      [.ofTemplate "list" ⟨"/app/list.marko"⟩, ⟨"ol", some ⟨"/app/ol.marko"⟩, none, true⟩]
    let source : Path := ⟨"/app/page.marko"⟩
    let m := Metadata.ofPath source
    let ask (template : Path) : StateM (List Path) (Option Summary) := do
      modify (· ++ [template])
      pure (some ⟨false, true, false⟩)
    let seen (x : StateM (List Path) (Bool × Metadata)) : Bool × Capture × List Path :=
      ((x.run []).1.1, (x.run []).1.2.capture, (x.run []).2)
    let actual (owner : Tag) (m : Metadata) := seen ((Occurrence.mk row [owner]).judge registry source ask m)
    let asOwner (owner : Tag) (m : Metadata) := seen ((owner.name.verdict registry source m.macros).outcome ask m)
    let chosen : Tag := ⟨.dynamic "input.list", [], none, []⟩
    let ol : Tag := ⟨.static "ol", [], none, []⟩
    (actual chosen m = (false, .unknown, []) ∧ asOwner chosen m = (true, .yes, [])) ∧
    (actual list (m.addMacro "list") = (true, .yes, [⟨"/app/list.marko"⟩]) ∧
      asOwner list (m.addMacro "list") = (false, .unknown, [])) ∧
    actual ol m = (true, .yes, [⟨"/app/ol.marko"⟩]) ∧ asOwner ol m = (false, .unknown, []) := by
  decide +kernel

end

end TemplateCompiler
