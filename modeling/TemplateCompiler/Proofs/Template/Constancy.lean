import TemplateCompiler.Proofs.Template.Marks
import TemplateCompiler.Proofs.Template.Scopes

/-!
# Which nodes are marked

Being constant is said here of authored nodes alone (`Node.IsConstant`): of the marks that they carry only those of
scriptlets count. Below the top level `classify` marks just the constant nodes, at the top level just what belongs
to the module, and nothing else of a program changes (`Program.marks_classify`).
-/

namespace TemplateCompiler

open Script (isLiteral)

namespace Node

/-! ## Constant nodes -/

/-- The output of the node is the same at each rendering. -/
inductive IsConstant (native : String → Bool) : Node → Prop where
  | documentType (m : Marks) (value : String) : IsConstant native (.leaf m (.documentType value))
  | declaration (m : Marks) (value : String) : IsConstant native (.leaf m (.declaration value))
  | cdata (m : Marks) (value : String) : IsConstant native (.leaf m (.cdata value))
  | text (m : Marks) (value : String) : IsConstant native (.leaf m (.text value))
  | comment (m : Marks) (value : String) : IsConstant native (.leaf m (.comment value))
  | component (m : Marks) (code : String) : IsConstant native (.leaf m (.component code))
  | placeholder (m : Marks) {expression : String} (escape : Bool) (h : isLiteral expression = true) :
      IsConstant native (.leaf m (.placeholder expression escape))
  /-- A scriptlet is what its author says. -/
  | scriptlet {m : Marks} (code : String) (h : m.isStatic = true) : IsConstant native (.leaf m (.scriptlet code))
  /-- A native element with constant attributes and constant content. -/
  | tag (m : Marks) {t : Tag} {name : String} {children : List Node} (hname : t.name = .static name)
      (hslot : Tag.isSlotName name = false) (hnative : native name = true) (harguments : t.arguments = none)
      (hparams : t.params = []) (hattributes : ∀ a ∈ t.attributes, isLiteral a.value = true)
      (hchildren : ∀ n ∈ children, IsConstant native n) : IsConstant native (.tag m t children)

section

variable {native : String → Bool}

theorem isConstant_leaf_iff {m : Marks} {l : Leaf} :
    (Node.leaf m l).IsConstant native ↔ l.isConstant m.isStatic = true := by
  constructor
  · intro h
    cases h with
    | placeholder _ _ h => exact h
    | scriptlet _ h => exact h
    | _ => rfl
  · intro h
    cases l with
    | documentType value => exact .documentType m value
    | declaration value => exact .declaration m value
    | cdata value => exact .cdata m value
    | text value => exact .text m value
    | comment value => exact .comment m value
    | placeholder expression escape => exact .placeholder m escape h
    | scriptlet code => exact .scriptlet code h
    | component code => exact .component m code

theorem isConstant_tag_iff {m : Marks} {t : Tag} {children : List Node} :
    (Node.tag m t children).IsConstant native ↔
      t.isConstant native = true ∧ ∀ n ∈ children, n.IsConstant native := by
  rw [Tag.isConstant_iff]
  constructor
  · rintro (_ | _ | _ | _ | _ | _ | _ | _ | ⟨_, hname, hslot, hnative, harguments, hparams, hattributes, hchildren⟩)
    exact ⟨⟨_, hname, hslot, hnative, harguments, hparams, hattributes⟩, hchildren⟩
  · rintro ⟨⟨name, hname, hslot, hnative, harguments, hparams, hattributes⟩, hchildren⟩
    exact .tag m hname hslot hnative harguments hparams hattributes hchildren

/-- A node is marked just if it is constant. -/
theorem isStatic_classify_iff (n : Node) : (n.classify native).isStatic = true ↔ n.IsConstant native := by
  have h : (∀ n : Node, (n.classify native).isStatic = true ↔ n.IsConstant native) ∧
      ∀ ns : List Node, (classifyAll native ns).all (·.isStatic) = true ↔ ∀ n ∈ ns, n.IsConstant native := by
    apply Node.induct
    case leaf => exact fun m l => isConstant_leaf_iff.symm
    case tag =>
      intro m t children ih
      rw [isConstant_tag_iff, ← ih]
      exact Bool.and_eq_true_iff
    case nil => simp [classifyAll]
    case cons =>
      intro n ns hn hns
      rw [classifyAll, List.all_cons, Bool.and_eq_true, hn, hns, List.forall_mem_cons]
  exact h.1 n

end

/-! ## Places -/

/-- The nodes right below a node. -/
def children : Node → List Node
  | .leaf _ _ => []
  | .tag _ _ children => children

/-- The node at a place below a node. The place says at each step which child to go on with. -/
def descendant? : List Nat → Node → Option Node
  | [], n => some n
  | i :: place, n => n.children[i]?.bind (descendant? place)

theorem children_classify (native : String → Bool) (n : Node) :
    (n.classify native).children = n.children.map (·.classify native) := by
  cases n with
  | leaf m l => rfl
  | tag m t children => exact classifyAll_eq_map native children

theorem children_unmarkOutput (n : Node) : n.unmarkOutput.children = n.children := by
  unfold unmarkOutput
  cases n <;> split <;> rfl

/-- Each node stays where it is. -/
theorem descendant?_classify (native : String → Bool) (place : List Nat) (n : Node) :
    (n.classify native).descendant? place = (n.descendant? place).map (·.classify native) := by
  induction place generalizing n with
  | nil => rfl
  | cons i place ih =>
    rw [descendant?, descendant?, children_classify, List.getElem?_map]
    cases n.children[i]? with
    | none => rfl
    | some child => exact ih child

/-! ## Authored marks -/

/-- The marks of a leaf that are authored: only scriptlets have any. -/
def authoredMarks (m : Marks) : Leaf → Marks
  | .scriptlet _ => m
  | _ => { m with isStatic := false }

mutual

/-- The node with authored marks only, at all depths. -/
def authored : Node → Node
  | .leaf m l => .leaf (authoredMarks m l) l
  | .tag m t children => .tag { m with isStatic := false } t (authoredIn children)
termination_by structural n => n

/-- The nodes with authored marks only, at all depths. -/
def authoredIn : List Node → List Node
  | [] => []
  | n :: ns => n.authored :: authoredIn ns
termination_by structural ns => ns

end

/-- Other marks than authored ones are not looked at. -/
theorem classify_authored (native : String → Bool) :
    (∀ n : Node, n.authored.classify native = n.classify native) ∧
      ∀ ns, classifyAll native (authoredIn ns) = classifyAll native ns := by
  apply Node.induct
  case leaf => exact fun m l => by cases l <;> rfl
  case tag =>
    intro m t children ih
    rw [authored, classify, classify, ih]
  case nil => rfl
  case cons =>
    intro n ns ihn ihns
    rw [authoredIn, classifyAll, classifyAll, ihn, ihns]

/-- Authored marks stay. -/
theorem authored_classify (native : String → Bool) :
    (∀ n : Node, (n.classify native).authored = n.authored) ∧
      ∀ ns, authoredIn (classifyAll native ns) = authoredIn ns := by
  apply Node.induct
  case leaf => exact fun m l => by cases l <;> rfl
  case tag =>
    intro m t children ih
    rw [classify, authored, authored, ih]
  case nil => rfl
  case cons =>
    intro n ns ihn ihns
    rw [classifyAll, authoredIn, authoredIn, ihn, ihns]

-- What produces output is no scriptlet.
theorem authored_unmarkOutput (n : Node) : n.unmarkOutput.authored = n.authored := by
  unfold unmarkOutput
  split
  · rename_i houtput
    cases n with
    | leaf m l =>
      cases l with
      | scriptlet code => exact Bool.noConfusion houtput
      | _ => rfl
    | tag m t children => rfl
  · rfl

/-- At the top level component classes stay marked, and scriptlets as they are authored. -/
theorem isStatic_unmarkOutput_classify_iff (native : String → Bool) (n : Node) :
    (n.classify native).unmarkOutput.isStatic = true ↔
      (∃ m code, n = .leaf m (.component code)) ∨ ∃ m code, n = .leaf m (.scriptlet code) ∧ m.isStatic = true := by
  cases n with
  | leaf m l =>
    cases l with
    | component code => exact ⟨fun _ => .inl ⟨m, code, rfl⟩, fun _ => rfl⟩
    | scriptlet code =>
      constructor
      · exact fun h => .inr ⟨m, code, rfl, h⟩
      · rintro (⟨_, _, h⟩ | ⟨_, _, h, hstatic⟩)
        · cases h
        · cases h
          exact hstatic
    | _ => exact ⟨fun h => Bool.noConfusion h, by rintro (⟨_, _, h⟩ | ⟨_, _, h, -⟩) <;> cases h⟩
  | tag m t children => exact ⟨fun h => Bool.noConfusion h, by rintro (⟨_, _, h⟩ | ⟨_, _, h, -⟩) <;> cases h⟩

end Node

/-! ## Programs -/

namespace Item

/-- The item with authored marks only. -/
def authored : Item → Item
  | .node n => .node n.authored
  | i => i

theorem authored_classify (native : String → Bool) (i : Item) : (i.classify native).authored = i.authored := by
  cases i with
  | node n =>
    have hnode : (n.classify native).unmarkOutput.authored = n.authored :=
      (Node.authored_unmarkOutput _).trans ((Node.authored_classify native).1 n)
    exact congrArg Item.node hnode
  | external declaration => rfl
  | statement code => rfl

theorem classify_authored (native : String → Bool) (i : Item) : i.authored.classify native = i.classify native := by
  cases i with
  | node n => exact congrArg (fun n => Item.node n.unmarkOutput) ((Node.classify_authored native).1 n)
  | external declaration => rfl
  | statement code => rfl

end Item

namespace Program

/-- The program without any mark for being constant. -/
def unmark (p : Program) : Program := { p with body := p.body.map Item.unmark }

/-- The program with authored marks only. -/
def authored (p : Program) : Program := { p with body := p.body.map Item.authored }

/-- The node at a place below the top-level item of a number. -/
def nodeAt? (p : Program) (i : Nat) (place : List Nat) : Option Node :=
  (p.body[i]?.bind Item.node?).bind (Node.descendant? place)

section

variable {p : Program} {registry : TagRegistry} {source : Path}

theorem classify_authored : p.authored.classify registry source = p.classify registry source := by
  simp only [classify, authored, List.map_map]
  congr 2
  exact funext (Item.classify_authored _)

theorem authored_classify : (p.classify registry source).authored = p.authored := by
  simp only [classify, authored, List.map_map]
  congr 2
  exact funext (Item.authored_classify _)

theorem classify_eq_of_authored_eq {q : Program} (h : q.authored = p.authored) :
    q.classify registry source = p.classify registry source := by
  rw [← classify_authored, h, classify_authored]

theorem node?_classify (i : Nat) :
    (p.classify registry source).body[i]?.bind Item.node? =
      (p.body[i]?.bind Item.node?).map fun n => (n.classify (registry.isNative source)).unmarkOutput := by
  rw [classify, List.getElem?_map]
  cases p.body[i]? with
  | none => rfl
  | some item => cases item <;> rfl

/-- Below the top level a node is marked as it is, without regard to where it stands. -/
theorem nodeAt?_classify (i j : Nat) (place : List Nat) :
    (p.classify registry source).nodeAt? i (j :: place) =
      (p.nodeAt? i (j :: place)).map (·.classify (registry.isNative source)) := by
  rw [nodeAt?, nodeAt?, node?_classify]
  cases p.body[i]?.bind Item.node? with
  | none => rfl
  | some n =>
    have hbelow := Node.descendant?_classify (registry.isNative source) (j :: place) n
    rw [Node.descendant?] at hbelow
    rw [Option.map_some, Option.bind_some, Option.bind_some, Node.descendant?, Node.children_unmarkOutput, hbelow]

theorem nodeAt?_classify_nil (i : Nat) :
    (p.classify registry source).nodeAt? i [] =
      (p.nodeAt? i []).map fun n => (n.classify (registry.isNative source)).unmarkOutput := by
  rw [nodeAt?, nodeAt?, node?_classify]
  cases p.body[i]?.bind Item.node? <;> rfl

end

/-- Below the top level just the constant nodes are marked, and at the top level just the component classes and the
scriptlets that their author made static. Nothing changes but marks; the marks that the program comes with do not
count, except for those of scriptlets; and a program that is classified already stays as it is. -/
theorem marks_classify (p : Program) (registry : TagRegistry) (source : Path) :
    let marked := p.classify registry source
    (∀ i j place n, p.nodeAt? i (j :: place) = some n →
      ∃ n', marked.nodeAt? i (j :: place) = some n' ∧
        (n'.isStatic = true ↔ n.IsConstant (registry.isNative source))) ∧
    (∀ i n, p.nodeAt? i [] = some n →
      ∃ n', marked.nodeAt? i [] = some n' ∧
        (n'.isStatic = true ↔ (∃ m code, n = .leaf m (.component code)) ∨
          ∃ m code, n = .leaf m (.scriptlet code) ∧ m.isStatic = true)) ∧
    marked.unmark = p.unmark ∧
    (∀ q : Program, q.authored = p.authored → q.classify registry source = marked) ∧
    marked.classify registry source = marked := by
  intro marked
  refine ⟨fun i j place n hn => ?_, fun i n hn => ?_, ?_, fun q hq => classify_eq_of_authored_eq hq, ?_⟩
  · refine ⟨_, ?_, n.isStatic_classify_iff⟩
    rw [nodeAt?_classify, hn, Option.map_some]
  · refine ⟨_, ?_, Node.isStatic_unmarkOutput_classify_iff (registry.isNative source) n⟩
    rw [nodeAt?_classify_nil, hn, Option.map_some]
  · have hitems : (p.body.map (Item.classify (registry.isNative source))).map Item.unmark = p.body.map Item.unmark := by
      rw [List.map_map]
      exact List.map_congr_left fun i _ => i.unmark_classify _
    exact congrArg (Program.mk · p.moduleCode) hitems
  · exact classify_eq_of_authored_eq authored_classify

end Program

end TemplateCompiler
