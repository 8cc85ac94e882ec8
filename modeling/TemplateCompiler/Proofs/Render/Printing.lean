import TemplateCompiler.Proofs.Lowering.Scriptlets
import TemplateCompiler.Proofs.Render.Assembly
import TemplateCompiler.Proofs.Text.Layout

/-!
# Texts in a printed module

Where a module has the texts that it is made of. Each is printed at a level of indentation: openings of blocks
as one line, all else laid out line by line (`Placement`). The operations of a render function keep their texts
when adjacent writes are joined (`texts_batch`), and each of them is printed at its place (`infix_linesOf`). So
a code in a printed text has its literals just where they were, as its place leaves them (`PrintsAt`).
-/

namespace TemplateCompiler

namespace Render

open Text (IsBackquoted)

/-! ## Places -/

/-- Where a text is printed: at a level of indentation, as one line or laid out line by line. -/
structure Placement where
  level : Nat
  isLine : Bool
deriving DecidableEq, Repr

namespace Placement

variable (p : Placement)

/-- The lines of a text at a place. -/
def lines (text : String) : List String :=
  if p.isLine then [Text.indent p.level text] else Text.layout p.level text

theorem lines_laidOut (level : Nat) (text : String) :
    Placement.lines ⟨level, false⟩ text = Text.layout level text := if_neg Bool.false_ne_true

/-- A text as it is printed at a place. -/
def print (text : String) : String := Text.unlines (p.lines text)

/-- What is printed of the text in front of a literal. -/
def front (before : String) : String :=
  if p.isLine then Text.indent p.level before else Text.front p.level before

/-- What is printed of the text behind a literal. -/
def back (after : String) : String :=
  if p.isLine then after ++ "\n" else Text.back p.level (Text.trimEnd after)

/-- What is printed of a literal. -/
def reflow (literal : String) : String :=
  if p.isLine then literal else Text.reflow p.level literal

variable {literal : String}

theorem print_append (h : IsBackquoted literal) (before after : String) :
    p.print (before ++ literal ++ after) = p.front before ++ p.reflow literal ++ p.back after := by
  unfold print lines front back reflow
  cases p.isLine with
  | true =>
    simp only [if_true]
    rw [Text.unlines_cons, Text.indent_append, Text.indent_append]
    show _ ++ "\n" ++ "" = _
    simp only [String.append_assoc, String.append_empty]
  | false =>
    simp only [Bool.false_eq_true, if_false]
    exact Text.unlines_layout p.level h

/-- A literal keeps its lines exactly if it is printed in one line, has one line only, or nothing of it is lost
when it is laid out. -/
theorem lines_reflow_eq_iff (h : IsBackquoted literal) :
    Text.lines (p.reflow literal) = Text.lines literal ↔
      p.isLine = true ∨ '\n' ∉ literal.toList ∨ Text.IsLaidOut p.level literal := by
  unfold reflow
  cases p.isLine with
  | true => exact iff_of_true rfl (.inl rfl)
  | false =>
    simp only [Bool.false_eq_true, if_false, false_or]
    exact Text.lines_reflow_eq_iff p.level h

end Placement

/-! ## Codes in printed texts -/

/-- The code is printed at the place, with some text around it, in front of it and behind it. Blanks around the
code may be lost, but its literals are where they were. -/
def PrintsAt (printed : String) (p : Placement) (code : String) : Prop :=
  ∃ start lead trail rest,
    printed = start ++ p.print (lead ++ Text.trim code ++ trail) ++ rest ∧
    ∀ before literal after, code = before ++ literal ++ after → IsBackquoted literal →
      p.print (lead ++ Text.trim code ++ trail) =
        p.front (lead ++ Text.trimStart before) ++ p.reflow literal ++ p.back (Text.trimEnd after ++ trail)

/-- The text has the code in it, apart from blanks around the code. -/
def Has (text code : String) : Prop := ∃ lead trail, text = lead ++ Text.trim code ++ trail

theorem has_self (code : String) : Has code code := Text.exists_eq_append_trim code

theorem has_trim (code : String) : Has (Text.trim code) code :=
  ⟨"", "", by rw [String.empty_append, String.append_empty]⟩

theorem has_of_blank {code : String} (h : Text.trim code = "") (text : String) : Has text code :=
  ⟨text, "", by rw [h, String.append_empty, String.append_empty]⟩

namespace Has

variable {text code : String}

theorem append (h : Has text code) (more : String) : Has (text ++ more) code := by
  obtain ⟨lead, trail, rfl⟩ := h
  exact ⟨lead, trail ++ more, String.append_assoc ..⟩

theorem behind (h : Has text code) (front : String) : Has (front ++ text) code := by
  obtain ⟨lead, trail, rfl⟩ := h
  refine ⟨front ++ lead, trail, ?_⟩
  simp only [String.append_assoc]

theorem between (h : Has text code) (front more : String) : Has (front ++ text ++ more) code :=
  (h.behind front).append more

end Has

/-- A code is printed where a text is that has it. -/
theorem printsAt_of_infix {p : Placement} {text code : String} {ls : List String} (h : p.lines text <:+: ls)
    (hcode : Has text code) : PrintsAt (Text.unlines ls) p code := by
  obtain ⟨start, rest, rfl⟩ := h
  obtain ⟨lead, trail, rfl⟩ := hcode
  refine ⟨Text.unlines start, lead, trail, Text.unlines rest, ?_, ?_⟩
  · rw [Text.unlines_append, Text.unlines_append]
    rfl
  · rintro before literal after rfl hliteral
    have htext : lead ++ Text.trim (before ++ literal ++ after) ++ trail =
        (lead ++ Text.trimStart before) ++ literal ++ (Text.trimEnd after ++ trail) := by
      rw [hliteral.trim_append]
      simp only [String.append_assoc]
    rw [htext, p.print_append hliteral]

/-! ## Texts of operations -/

namespace Op

mutual

/-- The texts in an operation at a level of indentation, each with its place. -/
def texts (level : Nat) : TextOp → List (Placement × String)
  | .write _ => []
  | .code statement => [(⟨level, false⟩, statement)]
  | .block frame body => (⟨level, true⟩, frame.opening) :: textsOf (level + 1) body
termination_by structural op => op

/-- The texts in operations at a level of indentation, each with its place. -/
def textsOf (level : Nat) : List TextOp → List (Placement × String)
  | [] => []
  | op :: ops => texts level op ++ textsOf level ops
termination_by structural ops => ops

end

theorem textsOf_append (level : Nat) (a b : List TextOp) :
    textsOf level (a ++ b) = textsOf level a ++ textsOf level b := by
  induction a with
  | nil => rfl
  | cons op ops ih => rw [List.cons_append, textsOf, textsOf, ih, List.append_assoc]

theorem textsOf_join (level : Nat) (op : TextOp) (ops : List TextOp) :
    textsOf level (join op ops) = texts level op ++ textsOf level ops := by
  match op, ops with
  | .write _, .write _ :: _ => rfl
  | .write _, [] | .write _, .code _ :: _ | .write _, .block _ _ :: _ => rfl
  | .code _, _ | .block _ _, _ => rfl

/-- Joining writes keeps all other texts in their places. -/
theorem texts_batch :
    (∀ (op : TextOp) level, texts level op.batchInside = texts level op) ∧
      ∀ (ops : List TextOp) level, textsOf level (batch ops) = textsOf level ops := by
  apply Op.induct
  case write | code => exact fun _ _ => rfl
  case block =>
    intro frame body ih level
    exact congrArg ((⟨level, true⟩, frame.opening) :: ·) (ih (level + 1))
  case nil => exact fun _ => rfl
  case cons =>
    intro op ops ihop ihops level
    rw [batch_cons, textsOf_join, ihop, ihops]
    rfl

/-- Each text is printed at its place. -/
theorem infix_linesOf :
    (∀ (op : TextOp) level, ∀ x ∈ texts level op, x.1.lines x.2 <:+: lines level op) ∧
      ∀ (ops : List TextOp) level, ∀ x ∈ textsOf level ops, x.1.lines x.2 <:+: linesOf level ops := by
  apply Op.induct
  case write => exact fun _ _ _ hx => (List.not_mem_nil hx).elim
  case code =>
    intro statement level x hx
    rw [List.mem_singleton.mp hx]
    exact List.infix_rfl
  case block =>
    intro frame body ih level x hx
    rcases List.mem_cons.mp hx with rfl | hx
    · exact ⟨[], linesOf (level + 1) body ++ [Text.indent level frame.closing], rfl⟩
    · exact List.infix_cons (List.infix_append_of_infix_left (ih (level + 1) x hx))
  case nil => exact fun _ _ hx => (List.not_mem_nil hx).elim
  case cons =>
    intro op ops ihop ihops level x hx
    rcases List.mem_append.mp hx with hx | hx
    · exact List.infix_append_of_infix_left (ihop level x hx)
    · exact List.infix_append_of_infix_right (ihops level x hx)

theorem textOps_append (definition : String) (a b : List LoweredOp) :
    textOps definition (a ++ b) = textOps definition a ++ textOps definition b := by
  unfold textOps
  simp only [mapAll_eq_map, List.map_append]

/-- Operations next to each other have their texts in the same places, perhaps some levels down. -/
theorem Within.textsOf_subset {run ops : List LoweredOp} (h : Op.Within run ops) (definition : String)
    (level : Nat) :
    ∃ depth, textsOf (level + depth) (textOps definition run) ⊆ textsOf level (textOps definition ops) := by
  induction h generalizing level with
  | here before after =>
    refine ⟨0, fun x hx => ?_⟩
    rw [textOps_append, textOps_append, textsOf_append, textsOf_append]
    exact List.mem_append_left _ (List.mem_append_right _ hx)
  | @inside before after scope body _ ih =>
    obtain ⟨depth, hsubset⟩ := ih (level + 1)
    refine ⟨depth + 1, fun x hx => ?_⟩
    have hlevel : level + (depth + 1) = level + 1 + depth := by omega
    rw [hlevel] at hx
    rw [textOps_append, textsOf_append]
    exact List.mem_append_right _ (List.mem_append_left _ (List.mem_cons_of_mem _ (hsubset hx)))

end Op

/-! ## Texts of modules -/

theorem Module.infix_of_mem {m : Module} {i : ModuleItem} (h : i ∈ m.items) : i.lines <:+: m.lines := by
  refine List.infix_append_of_infix_right ?_
  rw [List.flatMap_def]
  exact List.infix_of_mem_flatten (List.mem_map_of_mem h)

theorem ModuleItem.lines_statement (code : String) :
    (ModuleItem.statement code).lines = Text.layout 0 code := rfl

-- The last declarator of two.
theorem ModuleItem.infix_lines_constants (first : String × String) (name value : String) :
    Text.layout 0 ("  " ++ name ++ " = " ++ value ++ ";") <:+:
      (ModuleItem.constants [first, (name, value)]).lines := List.infix_append_right

theorem ModuleItem.infix_lines_render (call : RenderCall) :
    Op.linesOf 1 call.body <:+: (ModuleItem.render call).lines := List.infix_cons List.infix_append_left

end Render

open Render

section

variable {compiled : Compiled} {items : List ModuleItem} {definition value : String} {flags : RendererOptions}
  {ops : List LoweredOp}

-- A statement of the module is laid out at the left margin.
theorem Compiled.EmitsAround.printsAt_statement (h : compiled.EmitsAround items definition ops value flags)
    {code : String} (hcode : .statement code ∈ items) : PrintsAt compiled.code ⟨0, false⟩ code := by
  obtain ⟨m, start, attached, call, typeValue, hprinted, hitems, -⟩ := h
  have hmem : .statement code ∈ m.items := by
    rw [hitems]
    exact List.mem_append_left _ (List.mem_append_right _ hcode)
  have hinfix : Placement.lines ⟨0, false⟩ code <:+: m.lines := by
    rw [Placement.lines_laidOut, ← ModuleItem.lines_statement]
    exact Module.infix_of_mem hmem
  rw [hprinted]
  exact printsAt_of_infix hinfix (has_self code)

-- So is the class of the component, in a declaration.
theorem Compiled.EmitsAround.printsAt_value (h : compiled.EmitsAround items definition ops value flags) :
    PrintsAt compiled.code ⟨0, false⟩ value := by
  obtain ⟨m, start, attached, call, typeValue, hprinted, hitems, -⟩ := h
  have hmem : .constants [(flags.componentType, typeValue), (call.component, value)] ∈ m.items := by
    rw [hitems]
    exact List.mem_append_right _ List.mem_cons_self
  have hinfix : Placement.lines ⟨0, false⟩ (("  " ++ call.component ++ " = ") ++ value ++ ";") <:+: m.lines := by
    rw [Placement.lines_laidOut]
    exact (ModuleItem.infix_lines_constants _ _ _).trans (Module.infix_of_mem hmem)
  rw [hprinted]
  exact printsAt_of_infix hinfix ((has_self value).between _ _)

/-- The texts of the render function are printed at their places, below the first level. -/
theorem Compiled.EmitsAround.printsAt_of_mem (h : compiled.EmitsAround items definition ops value flags)
    {p : Placement} {text code : String} (hmem : (p, text) ∈ Op.textsOf 1 (textOps definition ops))
    (hcode : Has text code) : PrintsAt compiled.code p code := by
  obtain ⟨m, start, attached, call, typeValue, hprinted, hitems, -, hbody, -⟩ := h
  have hitem : .render call ∈ m.items := by
    rw [hitems]
    exact List.mem_append_right _ (List.mem_cons_of_mem _ List.mem_cons_self)
  rw [← Op.texts_batch.2, ← hbody] at hmem
  have hlines := (Op.infix_linesOf.2 call.body 1 _ hmem).trans
    ((ModuleItem.infix_lines_render call).trans (Module.infix_of_mem hitem))
  rw [hprinted]
  exact printsAt_of_infix hlines hcode

end

end TemplateCompiler
