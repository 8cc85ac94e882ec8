import TemplateCompiler.Proofs.Lowering.Content
import TemplateCompiler.Proofs.Render.Identifiers

/-!
# Modules around a render function

A module is assembled around the body of its render function without a look at it. So templates that are
lowered alike are compiled to modules that differ by these bodies only (`alike_compileTemplate`).
-/

namespace TemplateCompiler

open Render

namespace Render

/-- A module with a render function, whose body is left open. -/
structure Casing where
  header : Option String
  imports : Imports
  before : List ModuleItem
  call : RenderCall
  after : List ModuleItem

/-- The module with a body for its render function. -/
def Casing.fill (k : Casing) (body : List TextOp) : Module where
  header := k.header
  imports := k.imports
  items := k.before ++ .render { k.call with body } :: k.after

/-- Two modules with the same metadata object that differ by the bodies of their render functions only. -/
def SameCasing (body other : List TextOp) (a b : Module × TemplateMeta) : Prop :=
  a.2 = b.2 ∧ ∃ k : Casing, a.1 = k.fill body ∧ b.1 = k.fill other

/-- The same, where the bodies are made of operations that `S` relates. -/
def SameUpTo (S : List LoweredOp → List LoweredOp → Prop) (definition : String)
    (a b : Module × TemplateMeta) : Prop :=
  ∃ ops more, S ops more ∧ SameCasing (textOps definition ops) (textOps definition more) a b

theorem sameCasing_fill (header : Option String) (imports : Imports) (before : List ModuleItem)
    (settings : ModuleItem) (call : RenderCall) (constructor attached : List ModuleItem)
    (other : List TextOp) (t : TemplateMeta) :
    SameCasing call.body other
      (⟨header, imports, before ++ [settings, .render call] ++ constructor ++ attached⟩, t)
      (⟨header, imports,
        before ++ [settings, .render { call with body := other }] ++ constructor ++ attached⟩, t) :=
  ⟨rfl, ⟨header, imports, before ++ [settings], call, constructor ++ attached⟩,
    by simp [Casing.fill], by simp [Casing.fill]⟩

theorem related_assemble (options : Options) (source : Path) (companions : Companions) (parts : Parts)
    (working : Option Path) (other : List TextOp) :
    Related Eq Eq (SameCasing parts.body other) (assemble options source companions parts working)
      (assemble options source companions { parts with body := other } working) := by
  unfold assemble
  refine related_bind_left _ fun _ => related_bind_left _ fun value => ?_
  refine related_bind_left _ fun component => related_bind_left _ fun componentType => ?_
  refine related_bind_left _ fun template => related_bind_left _ fun renderer => ?_
  refine related_bind_left _ fun factory => related_bind_left _ fun settled => ?_
  refine related_bind_left _ fun typeValue => related_bind_left _ fun constructor => ?_
  refine related_bind_left _ fun attached => related_bind_left _ fun finish => ?_
  exact related_pure (sameCasing_fill _ _ _ _ _ _ _ _ _)

/-- What is lowered alike is assembled alike, around the bodies that it comes to. -/
theorem related_compileScopes {S : List LoweredOp → List LoweredOp → Prop} {env : Env}
    {rendered others : List Node} (h : Related Eq Eq S (lowerAll env rendered) (lowerAll env others))
    (companions : Companions) (definition : String) (items : List ModuleItem)
    (component : Option String) :
    Related Eq Eq (SameUpTo S definition)
      (compileScopes env companions definition items component rendered)
      (compileScopes env companions definition items component others) := by
  refine related_bind h fun ops more hops => related_bind_left _ fun lowered => ?_
  exact (related_assemble _ _ _ _ _ _).imp fun a b hab => ⟨ops, more, hops, hab⟩

end Render

/-! ## Compiled templates -/

/-- Two compiled templates with the same metadata whose modules differ by the bodies of their render functions
only, which are made of operations that `S` relates. -/
structure Compiled.SameUpTo (S : List LoweredOp → List LoweredOp → Prop) (a b : Compiled) : Prop where
  templateMeta : a.templateMeta = b.templateMeta
  metadata : a.metadata = b.metadata
  code : ∃ (k : Casing) (definition : String) (ops more : List LoweredOp), S ops more ∧
    a.code = (k.fill (textOps definition ops)).batchWrites.print ∧
    b.code = (k.fill (textOps definition more)).batchWrites.print

theorem Compiled.SameUpTo.eq {a b : Compiled} (h : a.SameUpTo Eq b) : a = b := by
  obtain ⟨k, definition, ops, _, rfl, ha, hb⟩ := h.code
  obtain ⟨code, templateMeta, metadata⟩ := a
  obtain ⟨code', templateMeta', metadata'⟩ := b
  rw [Compiled.mk.injEq]
  exact ⟨ha.trans hb.symm, h.templateMeta, h.metadata⟩

-- A run that comes to a module comes to the compiled file.
theorem Compiled.alike_ofRun {S : List LoweredOp → List LoweredOp → Prop} {definition : String}
    {x y : Lower (Module × TemplateMeta)} (h : Related Eq Eq (Render.SameUpTo S definition) x y)
    (s : State) :
    Alike Eq (Compiled.SameUpTo S) (Compiled.ofRun (outcome x s)) (Compiled.ofRun (outcome y s)) := by
  obtain ⟨halike, hstates⟩ := h s s rfl
  rcases hx : outcome x s with ⟨e | a, t⟩ <;> rcases hy : outcome y s with ⟨e' | b, t'⟩ <;>
    rw [hx, hy] at halike hstates
  · exact halike
  · exact halike.elim
  · exact halike.elim
  · obtain ⟨ops, more, hops, hmeta, k, ha, hb⟩ := halike
    refine ⟨hmeta, congrArg State.metadata hstates, k, definition, ops, more, hops, ?_, ?_⟩
    · exact congrArg (fun m : Module => m.batchWrites.print) ha
    · exact congrArg (fun m : Module => m.batchWrites.print) hb

end TemplateCompiler
