import TemplateCompiler.Proofs.Render.NameOrder
import TemplateCompiler.Proofs.Session.Output
import TemplateCompiler.Proofs.Template.Scopes

/-!
# How the halves of a body are interleaved

Only the order within the module scope and the order within what is rendered matter. Each walk through a body
looks at one of the two halves, but for the one that collects declared names; and of these the order is not
looked at afterwards. So programs with the same halves are compiled to the same module, or fail alike, and
leave the same session (`translate_eq_of_halves`).
-/

namespace TemplateCompiler

open Render

/-- The tags of an item. -/
def Item.occurrences : Item → List Occurrence
  | .node n => n.occurrences []
  | _ => []

namespace Program

/-! ## Halves -/

/-- The items of a body that belong to the module. -/
def moduleHalf (p : Program) : List Item := p.body.filter Item.isModuleScoped

/-- The items of a body that are rendered. -/
def renderHalf (p : Program) : List Item := p.body.filter fun i => !i.isModuleScoped

/-- The two programs are templates with the same halves. -/
structure SameHalves (a b : Program) : Prop where
  moduleHalf : a.moduleHalf = b.moduleHalf
  renderHalf : a.renderHalf = b.renderHalf
  left : a.moduleCode = none
  right : b.moduleCode = none

/-! ## Walks through one half -/

-- Items of the module have no tags.
theorem occurrences_eq (p : Program) : p.occurrences = p.renderHalf.flatMap Item.occurrences := by
  unfold occurrences nodes renderHalf
  induction p.body with
  | nil => rfl
  | cons i rest ih =>
    have hhead : Node.occurrencesIn [] ((i :: rest).filterMap Item.node?) =
        i.occurrences ++ Node.occurrencesIn [] (rest.filterMap Item.node?) := by
      cases i <;> rfl
    rw [hhead, ih]
    by_cases hi : i.isModuleScoped = true
    · have hnone : i.occurrences = [] := by
        cases i with
        | node n =>
          cases n with
          | leaf m l => rfl
          | tag m t children => cases hi
        | _ => rfl
      rw [hnone, List.filter_cons_of_neg (by simp [hi]), List.nil_append]
    · rw [List.filter_cons_of_pos (by simp [hi]), List.flatMap_cons]

-- A class of the component is no item that is rendered.
theorem hasClass_eq_of_moduleHalf (p : Program) :
    p.hasClass = p.moduleHalf.any fun i => i.component?.isSome := by
  have hitem (i : Item) : (i.isModuleScoped && i.component?.isSome) = i.component?.isSome := by
    cases i with
    | node n =>
      cases n with
      | leaf m l => cases l <;> first | rfl | exact Bool.and_false _
      | tag m t children => rfl
    | _ => rfl
  unfold hasClass nodes moduleHalf
  rw [List.any_filter, List.any_filterMap]
  congr 1
  funext i
  rw [hitem]
  cases i with
  | node n =>
    cases n with
    | leaf m l => cases l <;> rfl
    | tag m t children => rfl
  | _ => rfl

theorem scopes_classify_eq (p : Program) (registry : TagRegistry) (source : Path) :
    (p.classify registry source).scopes =
      ⟨p.moduleHalf.map (Item.classify (registry.isNative source)),
        p.renderHalf.filterMap fun i => (i.classify (registry.isNative source)).rendered?⟩ := by
  have hscoped := Item.isNone_rendered?_classify (registry.isNative source)
  unfold classify scopes moduleHalf renderHalf
  congr 1
  · rw [List.filter_map]
    congr 2
    exact funext hscoped
  · rw [List.filterMap_map, List.filterMap_filter]
    congr 1
    funext i
    rw [← hscoped i, Function.comp]
    cases (i.classify (registry.isNative source)).rendered? <;> rfl

-- Declared names are the only ones that are collected from both halves.
theorem perm_declaredNames (p : Program) :
    p.declaredNames.Perm ((p.moduleHalf ++ p.renderHalf).flatMap Item.declaredNames) :=
  (List.filter_append_perm _ p.body).symm.flatMap_right _

end Program

/-! ## Compiling -/

/-- A template is compiled from its halves. -/
theorem compileTemplate_eq_of_halves {setting : Setting}
    (htext : ∀ marks text, IsOrderFree (setting.text marks text)) {a b : Program} (h : a.SameHalves b)
    (source : Path) (companions : Companions) (m : Metadata) :
    compileTemplate setting source companions m a = compileTemplate setting source companions m b := by
  have hnames : a.declaredNames.Perm b.declaredNames := by
    have hb := b.perm_declaredNames
    rw [← h.moduleHalf, ← h.renderHalf] at hb
    exact a.perm_declaredNames.trans hb.symm
  have hused : ((Names.mk []).reserveAll a.declaredNames).used.Perm
      ((Names.mk []).reserveAll b.declaredNames).used := by
    rw [Names.used_reserveAll, Names.used_reserveAll]
    exact ((List.reverse_perm _).trans (hnames.trans (List.reverse_perm _).symm)).append_right _
  have hdefinition := Names.fresh_eq_of_perm hused "component"
  have hscopes : (a.classify setting.registry source).scopes =
      (b.classify setting.registry source).scopes := by
    rw [a.scopes_classify_eq, b.scopes_classify_eq, h.moduleHalf, h.renderHalf]
  rw [compileTemplate_eq, compileTemplate_eq]
  dsimp only
  rw [hscopes, hdefinition]
  let imported := moduleScope setting.registry source setting.working
    (b.classify setting.registry source).scopes.moduleScope m
  have henv (marks : Marks) (text : String) :
      IsOrderFree ((setting.env source imported.2.2.macros).text marks text) := htext marks text
  have hauthored : ∀ i ∈ imported.1, i.isRender = false ∧ i.generated = [] :=
    authored_moduleScope _ _ _ _ m
  exact (isOrderFree_compileScopes henv companions _ hauthored imported.2.1 _).ofRun_eq
    ⟨_, hused.cons _, rfl⟩

namespace Workspace

/-- Templates with the same halves are compiled to the same module, or fail alike, and leave the same
session, whatever the session was before. -/
theorem translate_eq_of_halves (w : Workspace)
    (htext : ∀ marks text, IsOrderFree (w.setting.text marks text)) (p : Path) {a b : Program}
    (h : a.SameHalves b) : w.translate p a = w.translate p b := by
  have hprepare (m : Metadata) (c : Companions) : m.prepare c a = m.prepare c b := by
    unfold Metadata.prepare Program.macroNames
    rw [a.hasClass_eq_of_moduleHalf, b.hasClass_eq_of_moduleHalf, a.occurrences_eq, b.occurrences_eq,
      h.moduleHalf, h.renderHalf]
  have hanalyze (ask : Path → StateM Session (Option Summary)) :
      w.analyze ask p a = w.analyze ask p b := by
    unfold analyze Program.analyze
    simp only [hprepare, a.occurrences_eq, b.occurrences_eq, h.renderHalf]
  rw [translate, translate, h.left, h.right]
  unfold translateTemplate
  rw [hanalyze]
  simp only [compileTemplate_eq_of_halves htext h]

/-- A page with its imports, its class and a static scriptlet in front, and the page with them in between. -/
theorem translate_eq_of_halves_page :
    let place : Marks := ⟨false, ⟨1, 1⟩⟩
    let card : Item := .external ⟨"<card>", "_card"⟩
    let start : Item := .node (.leaf ⟨true, ⟨1, 1⟩⟩ (.scriptlet "const _item = 1;"))
    let component : Item := .node (.leaf place (.component "class \x7b \x7d"))
    let title : Item := .node (.leaf place (.scriptlet "const title = input.title;"))
    let loop : Item := .node (.tag place ⟨.static "for", [⟨"of", "input.items"⟩], none, []⟩ [
      .tag place ⟨.static "card", [], none, ["x"]⟩ []])
    let a : Program := ⟨[card, start, component, title, loop], none⟩
    let b : Program := ⟨[title, card, start, loop, component], none⟩
    let w := ofTables {} [.ofTemplate "card" ⟨"/app/card.marko"⟩] [] []
    a.SameHalves b ∧ w.translate ⟨"/app/page.marko"⟩ a = w.translate ⟨"/app/page.marko"⟩ b := by
  intro place card start component title loop a b w
  have h : a.SameHalves b := ⟨rfl, rfl, rfl, rfl⟩
  exact ⟨h, w.translate_eq_of_halves (fun marks text => related_pure rfl) ⟨"/app/page.marko"⟩ h⟩

end Workspace

end TemplateCompiler
