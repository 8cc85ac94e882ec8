import Mathlib.Data.List.Perm.Basic
import Mathlib.Tactic.SplitIfs
import TemplateCompiler.Proofs.Template.Marks
import TemplateCompiler.Render.Lowering

/-!
# Parts of a template

What of a template is rendered at all: its leaves and its uses of macros, in authored order, without
what stands in an attribute tag that no tag takes, in a void element or in a macro without a name. Parts
inside of constant elements are told apart, since these are written out as they are (`Piece.isFolded`).
-/

namespace TemplateCompiler

open Render

/-- A leaf, or a use of a macro. -/
inductive Part where
  | leaf (leaf : Leaf)
  | call (name : String)
  | definition (name : String)
deriving DecidableEq, Repr

/-- A part and whether it stands in a constant element. -/
structure Piece where
  part : Part
  isFolded : Bool
deriving DecidableEq, Repr

/-- What templates are looked at with: what tags stand for, and whether the output is text. -/
structure View where
  kindOf : Tag → TagKind
  isHtml : Bool
  kindOf_eq_slot_iff : ∀ t, kindOf t = .slot ↔ t.slot?.isSome = true

namespace Node

mutual

/-- The parts of a node. `takes` says whether the tag around it takes attribute tags, and `folded`
whether that tag is in a constant element or is one. -/
def pieces (v : View) (takes folded : Bool) : Node → List Piece
  | .leaf _ l => [⟨.leaf l, folded⟩]
  | .tag m t children =>
    match v.kindOf t with
    | .slot => if takes then piecesIn v true folded children else []
    | .ifTrue | .elseIfTrue | .otherwise | .loop => piecesIn v false folded children
    | .macroDefinition =>
      match t.macroName? with
      | some name => ⟨.definition name, folded⟩ :: piecesIn v false folded children
      | none => []
    | .macroCall name => ⟨.call name, folded⟩ :: piecesIn v true folded children
    | .native name =>
      if v.isHtml && isVoidElement name then []
      else piecesIn v false (folded || (v.isHtml && m.isStatic)) children
    | .dynamic _ | .custom _ _ => piecesIn v true folded children
termination_by structural n => n

/-- The parts of nodes. -/
def piecesIn (v : View) (takes folded : Bool) : List Node → List Piece
  | [] => []
  | n :: ns => n.pieces v takes folded ++ piecesIn v takes folded ns
termination_by structural ns => ns

end

end Node

/-- The parts outside of constant elements. -/
def renderedParts (pieces : List Piece) : List Part :=
  (pieces.filter fun x => !x.isFolded).map (·.part)

/-- The parts inside of constant elements. -/
def foldedParts (pieces : List Piece) : List Part :=
  (pieces.filter fun x => x.isFolded).map (·.part)

theorem renderedParts_append (a b : List Piece) :
    renderedParts (a ++ b) = renderedParts a ++ renderedParts b := by
  rw [renderedParts, List.filter_append, List.map_append]
  rfl

theorem renderedParts_filter (q : Part → Bool) (pieces : List Piece) :
    renderedParts (pieces.filter fun x => q x.part) = (renderedParts pieces).filter q := by
  rw [renderedParts, renderedParts, List.filter_map, List.filter_filter, List.filter_filter]
  congr 2
  funext x
  exact Bool.and_comm _ _

/-- Each part is outside or inside of constant elements. -/
theorem perm_parts (pieces : List Piece) :
    (renderedParts pieces ++ foldedParts pieces).Perm (pieces.map (·.part)) := by
  have hperm := (List.filter_append_perm (fun x : Piece => !x.isFolded) pieces).map (·.part)
  simpa [renderedParts, foldedParts] using hperm

namespace Node

variable {v : View}

/-! ## Marks -/

-- What holds of being folded, and still holds below a constant element, holds of all pieces.
theorem isFolded_of_mem (v : View) {Q : Bool → Prop}
    (hQ : ∀ folded isStatic, Q folded → Q (folded || (v.isHtml && isStatic))) :
    (∀ (n : Node) takes folded, Q folded → ∀ x ∈ n.pieces v takes folded, Q x.isFolded) ∧
      ∀ ns takes folded, Q folded → ∀ x ∈ piecesIn v takes folded ns, Q x.isFolded := by
  apply Node.induct
  case leaf =>
    intro m l takes folded hfolded x hx
    rwa [List.mem_singleton.mp hx]
  case tag =>
    intro m t children ih takes folded hfolded x hx
    rw [pieces] at hx
    have hcons (part : Part) (takes : Bool)
        (hx : x ∈ ⟨part, folded⟩ :: piecesIn v takes folded children) : Q x.isFolded := by
      rcases List.mem_cons.mp hx with rfl | hx
      · exact hfolded
      · exact ih takes folded hfolded x hx
    cases hkind : v.kindOf t with
    | slot =>
      simp only [hkind] at hx
      split at hx
      · exact ih true folded hfolded x hx
      · exact (List.not_mem_nil hx).elim
    | ifTrue | elseIfTrue | otherwise | loop =>
      simp only [hkind] at hx
      exact ih false folded hfolded x hx
    | macroDefinition =>
      simp only [hkind] at hx
      split at hx
      · exact hcons _ false hx
      · exact (List.not_mem_nil hx).elim
    | macroCall name =>
      simp only [hkind] at hx
      exact hcons _ true hx
    | native name =>
      simp only [hkind] at hx
      split at hx
      · exact (List.not_mem_nil hx).elim
      -- only a constant element changes whether what is below it is folded
      · exact ih false _ (hQ folded m.isStatic hfolded) x hx
    | dynamic target | custom name request =>
      simp only [hkind] at hx
      exact ih true folded hfolded x hx
  case nil => exact fun takes folded hfolded x hx => (List.not_mem_nil hx).elim
  case cons =>
    intro n ns ihn ihns takes folded hfolded x hx
    rcases List.mem_append.mp hx with hx | hx
    · exact ihn takes folded hfolded x hx
    · exact ihns takes folded hfolded x hx

-- Below a constant element everything is folded.
theorem renderedParts_piecesIn_true (takes : Bool) (ns : List Node) :
    renderedParts (piecesIn v takes true ns) = [] := by
  rw [renderedParts, List.map_eq_nil_iff, List.filter_eq_nil_iff]
  intro x hx
  have hfolded : x.isFolded = true :=
    (isFolded_of_mem v (Q := (· = true)) fun _ _ h => by rw [h, Bool.true_or]).2 ns takes true rfl x hx
  rw [hfolded]
  decide

/-- Only text output folds anything. -/
theorem foldedParts_of_isHtml_eq_false (h : v.isHtml = false) (takes : Bool) (ns : List Node) :
    foldedParts (piecesIn v takes false ns) = [] := by
  rw [foldedParts, List.map_eq_nil_iff, List.filter_eq_nil_iff]
  intro x hx
  have hfolded : x.isFolded = false :=
    (isFolded_of_mem v (Q := (· = false)) fun _ _ hf => by rw [hf, h]; rfl).2 ns takes false rfl x hx
  rw [hfolded]
  decide

/-- Marks only tell where a part is, not which parts there are. -/
theorem map_part_pieces_setStatic (v : View) (native : String → Bool) :
    (∀ (n : Node) isStatic takes folded folded',
      (((n.classify native).setStatic isStatic).pieces v takes folded).map (·.part) =
        (n.pieces v takes folded').map (·.part)) ∧
    ∀ ns takes folded folded', (piecesIn v takes folded (classifyAll native ns)).map (·.part) =
      (piecesIn v takes folded' ns).map (·.part) := by
  apply Node.induct
  case leaf => exact fun m l isStatic takes folded folded' => rfl
  case tag =>
    intro m t children ih isStatic takes folded folded'
    rw [classify, setStatic, pieces, pieces]
    cases v.kindOf t with
    | slot =>
      cases takes with
      | true => exact ih true folded folded'
      | false => rfl
    | ifTrue | elseIfTrue | otherwise | loop => exact ih false folded folded'
    | macroDefinition =>
      cases t.macroName? with
      | some name => exact congrArg (Part.definition name :: ·) (ih false folded folded')
      | none => rfl
    | macroCall name => exact congrArg (Part.call name :: ·) (ih true folded folded')
    | native name =>
      dsimp only
      split
      · rfl
      · exact ih false _ _
    | dynamic target | custom name request => exact ih true folded folded'
  case nil => exact fun takes folded folded' => rfl
  case cons =>
    intro n ns ihn ihns takes folded folded'
    have hn := ihn (n.classify native).isStatic takes folded folded'
    rw [setStatic_isStatic] at hn
    rw [classifyAll, piecesIn, piecesIn, List.map_append, List.map_append, hn,
      ihns takes folded folded']

/-! ## Parts outside of constant elements -/

/-- The parts of a node outside of constant elements. -/
def rendered (v : View) (takes : Bool) (n : Node) : List Part :=
  renderedParts (n.pieces v takes false)

/-- The parts of nodes outside of constant elements. -/
def renderedIn (v : View) (takes : Bool) (ns : List Node) : List Part :=
  renderedParts (piecesIn v takes false ns)

theorem renderedIn_cons (takes : Bool) (n : Node) (ns : List Node) :
    renderedIn v takes (n :: ns) = n.rendered v takes ++ renderedIn v takes ns :=
  renderedParts_append _ _

theorem renderedIn_eq_flatMap (takes : Bool) (ns : List Node) :
    renderedIn v takes ns = ns.flatMap (·.rendered v takes) := by
  induction ns with
  | nil => rfl
  | cons n ns ih => rw [renderedIn_cons, ih, List.flatMap_cons]

theorem rendered_tag (takes : Bool) (m : Marks) (t : Tag) (children : List Node) :
    (Node.tag m t children).rendered v takes =
      match v.kindOf t with
      | .slot => if takes then renderedIn v true children else []
      | .ifTrue | .elseIfTrue | .otherwise | .loop => renderedIn v false children
      | .macroDefinition =>
        match t.macroName? with
        | some name => .definition name :: renderedIn v false children
        | none => []
      | .macroCall name => .call name :: renderedIn v true children
      | .native name =>
        if v.isHtml && (m.isStatic || isVoidElement name) then [] else renderedIn v false children
      | .dynamic _ | .custom _ _ => renderedIn v true children := by
  rw [rendered, pieces]
  cases v.kindOf t with
  | slot => cases takes <;> rfl
  | macroDefinition => cases t.macroName? <;> rfl
  | native name =>
    dsimp only
    cases v.isHtml with
    | false => rfl
    | true =>
      cases m.isStatic with
      | false => cases isVoidElement name <;> rfl
      | true =>
        cases isVoidElement name with
        | false => exact renderedParts_piecesIn_true false children
        | true => rfl
  | _ => rfl

end Node

/-! ## The view of lowering -/

namespace Render

theorem kindOfName_ne_slot (env : Env) (name : String) : env.kindOfName name ≠ .slot := by
  unfold Env.kindOfName
  split_ifs
  · exact fun h => by cases h
  · exact fun h => by cases h
  · split <;> exact fun h => by cases h

theorem kindOf_eq_slot_iff (env : Env) (t : Tag) : env.kindOf t = .slot ↔ t.slot?.isSome = true := by
  obtain ⟨name, attributes, arguments, params⟩ := t
  cases name with
  | dynamic expression => exact ⟨fun h => TagKind.noConfusion h, fun h => Bool.noConfusion h⟩
  | static name =>
    have hslot : (Tag.mk (.static name) attributes arguments params).slot?.isSome =
        Tag.isSlotName name := by
      show (guard (Tag.isSlotName name = true) >>= fun _ => pure _ : Option String).isSome = _
      cases Tag.isSlotName name <;> rfl
    rw [hslot]
    unfold Env.kindOf
    dsimp only
    cases Tag.isSlotName name with
    | true => exact ⟨fun _ => rfl, fun _ => rfl⟩
    | false =>
      refine ⟨fun h => ?_, fun h => Bool.noConfusion h⟩
      rw [if_neg Bool.false_ne_true] at h
      split_ifs at h
      exact absurd h (kindOfName_ne_slot env name)

/-- How lowering looks at templates. -/
def Env.view (env : Env) : View := ⟨env.kindOf, env.isHtml, kindOf_eq_slot_iff env⟩

end Render

end TemplateCompiler
