import TemplateCompiler.Proofs.Lowering.Accounts
import TemplateCompiler.Proofs.Lowering.Effects

/-!
# Texts

The texts that lowering hands over to be lowered are the texts among the parts of a template that stand
outside of constant elements (`handed_effects`), and the operations that a template is lowered to hold what
becomes of each of them (`holds_lowerAll`).
-/

namespace TemplateCompiler

open Render

/-- The text that a part is. -/
def Part.text? : Part → Option String
  | .leaf (.text v) => some v
  | _ => none

/-! ## Texts that are handed over -/

section

variable {env : Env} {children : List Node} {content : List Effect} {parts : List Part}
  {forSlot : String → List Effect} {partsFor : String → List Part}

theorem handed_inputEffects (hcontent : content.filterMap Effect.handed? = parts.filterMap Part.text?)
    (hslots : ∀ slot, (forSlot slot).filterMap Effect.handed? = (partsFor slot).filterMap Part.text?)
    (location : Location) (t : Tag) (children : List Node) :
    (inputEffects location t children content forSlot).filterMap Effect.handed? =
      (Node.loweredInput children parts partsFor).filterMap Part.text? := by
  have hcheck : (Effect.check location (objectText t.attributes)).handed? = none := rfl
  rw [inputEffects, Node.loweredInput, List.filterMap_cons_none hcheck, List.filterMap_append,
    List.filterMap_append, hcontent, List.filterMap_flatMap, List.filterMap_flatMap, funext hslots]

theorem handed_tagEffects (hcontent : content.filterMap Effect.handed? = parts.filterMap Part.text?)
    (hslots : ∀ slot, (forSlot slot).filterMap Effect.handed? = (partsFor slot).filterMap Part.text?)
    (m : Marks) (t : Tag) :
    (tagEffects env m t children content forSlot).filterMap Effect.handed? =
      (Node.loweredTag env.view m t children parts partsFor).filterMap Part.text? := by
  have hinput := handed_inputEffects hcontent hslots m.location t children
  have hkind : env.view.kindOf t = env.kindOf t := rfl
  unfold tagEffects Node.loweredTag
  rw [hkind]
  cases env.kindOf t with
  | dynamic target => exact hinput
  | slot => rfl
  | ifTrue | elseIfTrue | otherwise => exact hcontent
  | loop =>
    dsimp only
    rw [List.filterMap_append, handed_loopChecks, List.nil_append]
    exact hcontent
  | macroDefinition =>
    cases t.macroName? with
    | some name => exact hcontent
    | none => rfl
  | macroCall name => exact hinput
  | native name =>
    have hhtml : env.view.isHtml = env.isHtml := rfl
    dsimp only
    rw [hhtml]
    cases env.isHtml with
    | false =>
      show (elementChecks env m.location t ++ content).filterMap _ = parts.filterMap _
      rw [List.filterMap_append, handed_elementChecks, List.nil_append]
      exact hcontent
    | true =>
      cases m.isStatic with
      | true => rfl
      | false =>
        show (elementChecks env m.location t ++ if isVoidElement name then [] else content).filterMap _ =
          (if isVoidElement name then [] else parts).filterMap _
        rw [List.filterMap_append, handed_elementChecks, List.nil_append]
        split
        · rfl
        · exact hcontent
  | custom name request => exact hinput

variable (env) in
/-- The texts that lowering hands over are those of the parts that are lowered, in the order of lowering. -/
theorem handed_effects :
    (∀ n : Node, (n.effects env).filterMap Effect.handed? = (n.lowered env.view).filterMap Part.text? ∧
      ∀ slot, (n.effectsFor env slot).filterMap Effect.handed? =
        (n.loweredFor env.view slot).filterMap Part.text?) ∧
    ∀ ns : List Node, (Node.effectsIn env ns).filterMap Effect.handed? =
        (Node.loweredIn env.view ns).filterMap Part.text? ∧
      ∀ slot, (Node.effectsForIn env slot ns).filterMap Effect.handed? =
        (Node.loweredForIn env.view slot ns).filterMap Part.text? := by
  apply Node.induct
  case leaf =>
    intro m l
    refine ⟨?_, fun slot => rfl⟩
    cases l <;> rfl
  case tag =>
    intro m t children ih
    refine ⟨handed_tagEffects ih.1 ih.2 m t, fun slot => ?_⟩
    rw [Node.effectsFor, Node.loweredFor]
    split
    · exact handed_inputEffects ih.1 ih.2 m.location t children
    · rfl
  case nil => exact ⟨rfl, fun slot => rfl⟩
  case cons =>
    intro n ns ihn ihns
    constructor
    · rw [Node.effectsIn, Node.loweredIn, List.filterMap_append, List.filterMap_append, ihn.1, ihns.1]
    · intro slot
      rw [Node.effectsForIn, Node.loweredForIn, List.filterMap_append, List.filterMap_append,
        ihn.2 slot, ihns.2 slot]

end

/-! ## Operations -/

namespace Render

/-- Operations that are put together from operations of lowering itself and, for each of the texts in their
order, from what the given way to lower text makes of it. -/
inductive Holds (f : TextLowering) : List String → List LoweredOp → Prop where
  | nil : Holds f [] []
  | write (markup : String) : Holds f [] [.write markup]
  | code (statement : Statement) : Holds f [] [.code statement]
  | text {m : Marks} {v : String} {ops : List LoweredOp} {s t : State}
      (h : outcome (f m v) s = (.ok ops, t)) : Holds f [v] ops
  | block {vs : List String} {body : List LoweredOp} (scope : Scope) (h : Holds f vs body) :
      Holds f vs [.block scope body]
  | append {vs ws : List String} {ops more : List LoweredOp} (h : Holds f vs ops) (h' : Holds f ws more) :
      Holds f (vs ++ ws) (ops ++ more)

-- All other leaves are lowered without regard to texts.
theorem yields_holds_lowerLeaf (env : Env) (f : TextLowering) (m : Marks) {l : Leaf}
    (hne : ∀ v, l ≠ .text v) : Yields (Holds f []) (lowerLeaf env m l) := by
  have hite (b : Bool) {ops more : List LoweredOp} (h : Holds f [] ops) (h' : Holds f [] more) :
      Holds f [] (if b then ops else more) := by
    cases b with
    | true => exact h
    | false => exact h'
  cases l with
  | text v => exact absurd rfl (hne v)
  | documentType v | declaration v => exact yields_pure (hite _ (.write _) .nil)
  | cdata v => exact yields_pure (hite _ (.write _) (.code _))
  | comment v => exact yields_pure (hite _ .nil (hite _ (.write _) (.code _)))
  | placeholder expression escape =>
    show Yields (Holds f []) (lowerPlaceholder env expression escape)
    unfold lowerPlaceholder
    split
    · exact yields_pure (hite _ .nil (hite _ (.write _) (.code _)))
    · dsimp only
      split_ifs
      · exact yields_bind_any fun helper => yields_pure (.code _)
      · exact yields_bind_any fun helper => yields_pure (.code _)
      · exact yields_pure (.code _)
      · exact yields_pure (.code _)
  | scriptlet code => exact yields_pure (hite _ .nil (.code _))
  | component code => exact yields_bind_any fun _ => yields_pure .nil

theorem isAccount_holds (env : Env) :
    IsAccount env fun T _ ops _ => Holds env.text (T.filterMap Part.text?) ops := by
  constructor
  case quiet => exact fun _ _ _ => .nil
  case append =>
    intro T U s t u ops more hT hU
    rw [List.filterMap_append]
    exact hT.append hU
  case write => exact fun _ markup => .write markup
  case code => exact fun _ statement _ => .code statement
  case block => exact fun T s body t scope _ hbody => hbody.block scope
  case leaf =>
    intro m l s ops t hrun
    cases l with
    | text v => exact .text hrun
    | _ => exact yields_holds_lowerLeaf env env.text m (fun v => by simp) s ops t hrun
  case call =>
    intro T name function input s t ops u _ hops
    have hcall := hops.append (.code (.callMacro function input))
    rwa [List.append_nil] at hcall
  case definition =>
    exact fun T name function params s t body u _ hbody => hbody.block (.function function params)

/-- The operations that nodes are lowered to hold what becomes of each text that is lowered. -/
theorem holds_lowerAll {env : Env} {ns : List Node} {s t : State} {ops : List LoweredOp}
    (h : outcome (lowerAll env ns) s = (.ok ops, t)) :
    Holds env.text ((Node.loweredIn env.view ns).filterMap Part.text?) ops :=
  ((accounts_lower (isAccount_holds env)).2 ns).1 s ops t h

end Render

end TemplateCompiler
