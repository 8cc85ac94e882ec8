import TemplateCompiler.Proofs.Lowering.Scriptlets
import TemplateCompiler.Proofs.Render.Nesting
import TemplateCompiler.Proofs.Render.Operands

/-!
# Nested elements

An element of the tree is two statements, one that opens it and one that closes it. They are told by their texts
(`bracketOf?`), which no other generated statement has, as its text starts with a name that is none of theirs
(`bracketOf?_text`). Each way to build operations nests the elements: content stands between the two statements
of its element, or in a block of its own (`Builds.areNested`). So elements are nested in the render function and
in each of its blocks, as long as no scriptlet puts in statements of its own (`nested_elements_of_lowerAll`).
-/

namespace TemplateCompiler

open Render

/-! ## Templates without scriptlets -/

namespace Node

theorem leaf_mem_traceIn {m : Marks} {l : Leaf} {ns : List Node} (h : .leaf m l ∈ ns) (pruned : Tag → Bool) :
    Step.leaf l ∈ traceIn pruned ns := by
  induction ns with
  | nil => exact (List.not_mem_nil h).elim
  | cons n ns ih =>
    rcases List.mem_cons.mp h with rfl | h
    · exact List.mem_cons_self
    · exact List.mem_append_right _ (ih h)

/-- A walk through a template passes all leaves that are rendered. -/
theorem leaf_mem_trace_of_siblings (v : View) :
    (∀ (n : Node) takes folded, ∀ x ∈ n.siblings v takes folded, ∀ m l, .leaf m l ∈ x.nodes →
      Step.leaf l ∈ n.trace fun _ => false) ∧
    ∀ ns takes folded, ∀ x ∈ siblingsIn v takes folded ns, ∀ m l, .leaf m l ∈ x.nodes →
      Step.leaf l ∈ traceIn (fun _ => false) ns := by
  apply Node.induct
  case leaf => exact fun _ _ _ _ x hx => (List.not_mem_nil hx).elim
  case tag =>
    intro m t children ih takes folded x hx m' l hl
    have hchildren : Step.leaf l ∈ traceIn (fun _ => false) children := by
      rw [siblings] at hx
      split at hx
      · rcases List.mem_cons.mp hx with rfl | hx
        · exact leaf_mem_traceIn hl _
        · exact ih _ _ x hx m' l hl
      · exact (List.not_mem_nil hx).elim
    exact List.mem_cons_of_mem _ (List.mem_cons_of_mem _ (List.mem_append_left _ hchildren))
  case nil => exact fun _ _ x hx => (List.not_mem_nil hx).elim
  case cons =>
    intro n ns ihn ihns takes folded x hx m l hl
    rcases List.mem_append.mp hx with hx | hx
    · exact List.mem_append_left _ (ihn takes folded x hx m l hl)
    · exact List.mem_append_right _ (ihns takes folded x hx m l hl)

/-- Nodes without scriptlets have nothing authored among their parts. -/
theorem authored_loweredIn_of_trace (v : View) {ns : List Node}
    (h : ∀ code, Step.leaf (.scriptlet code) ∉ traceIn (fun _ => false) ns) :
    (loweredIn v ns).filterMap Part.authored? = [] := by
  have hnone {nodes : List Node}
      (hnodes : ∀ m l, .leaf m l ∈ nodes → Step.leaf l ∈ traceIn (fun _ => false) ns) :
      nodes.filterMap scriptlet? = [] := by
    rw [List.filterMap_eq_nil_iff]
    intro n hn
    rw [Option.eq_none_iff_forall_ne_some]
    intro x hx
    unfold scriptlet? at hx
    split at hx
    · exact h _ (hnodes _ _ hn)
    · cases hx
  have hbelow : renderedScriptlets (siblingsIn v false false ns) = [] := by
    rw [renderedScriptlets, List.flatMap_eq_nil_iff]
    exact fun x hx => hnone fun m l hl =>
      (leaf_mem_trace_of_siblings v).2 ns false false x (List.mem_of_mem_filter hx) m l hl
  have hrendered := (perm_authored v).2 ns false
  rw [hnone fun m l hl => leaf_mem_traceIn hl _, hbelow] at hrendered
  exact ((((perm_lowered v).2 ns).1.filterMap _).trans hrendered.symm).eq_nil

end Node

namespace Render

open Text

/-! ## Statements at all depths -/

namespace Op

theorem collectOf_eq_flatMap {α : Type} (f : Statement → List α) :
    (∀ op : LoweredOp, collect f (fun _ => []) op = (collect (fun s => [s]) (fun _ => []) op).flatMap f) ∧
    ∀ ops : List LoweredOp, collectOf f (fun _ => []) ops = (statementsOf ops).flatMap f := by
  apply Op.induct
  case write => exact fun _ => rfl
  case code => exact fun s => (List.append_nil _).symm
  case block => exact fun scope body ih => ih
  case nil => rfl
  case cons =>
    intro op ops ihop ihops
    rw [collectOf, ihop, ihops, statementsOf, statementsOf, collectOf, List.flatMap_append]

theorem mem_statementsOf_of_mem_levels {s : Statement} :
    (∀ op : LoweredOp, ∀ level ∈ bodies op, .code s ∈ level →
      s ∈ collect (fun s => [s]) (fun _ => []) op) ∧
    ∀ ops : List LoweredOp, ∀ level ∈ levels ops, .code s ∈ level → s ∈ statementsOf ops := by
  apply Op.induct
  case write => exact fun _ _ h => (List.not_mem_nil h).elim
  case code => exact fun _ _ h => (List.not_mem_nil h).elim
  case block => exact fun scope body ih => ih
  case nil =>
    intro level h hs
    rw [List.mem_singleton.mp h] at hs
    exact (List.not_mem_nil hs).elim
  case cons =>
    intro op ops ihop ihops level h hs
    rcases List.mem_cons.mp h with rfl | h
    · rcases List.mem_cons.mp hs with rfl | hs
      · exact List.mem_append_left _ List.mem_cons_self
      · exact List.mem_append_right _ (ihops ops List.mem_cons_self hs)
    rcases List.mem_append.mp h with h | h
    · exact List.mem_append_left _ (ihop level h hs)
    · exact List.mem_append_right _ (ihops level (List.mem_cons_of_mem _ h) hs)

/-- Nesting depends only on which brackets the statements are. -/
theorem AreNested.congr {ops : List LoweredOp} {f f' : Statement → Option Bracket} (h : AreNested f ops)
    (heq : ∀ s ∈ statementsOf ops, f' s = f s) : AreNested f' ops := by
  intro level hlevel
  have hsame : level.filterMap (bracket? f') = level.filterMap (bracket? f) := by
    refine List.filterMap_congr fun op hop => ?_
    cases op with
    | code s => exact heq s (mem_statementsOf_of_mem_levels.2 ops level hlevel hop)
    | _ => rfl
  rw [hsame]
  exact h level hlevel

/-- Statements that are no brackets are nested. -/
theorem areNested_of_eq_none {ops : List LoweredOp} {f : Statement → Option Bracket}
    (h : ∀ s ∈ statementsOf ops, f s = none) : AreNested f ops := by
  refine AreNested.congr (f := fun _ => none) (fun level _ => ?_) h
  have hnone : level.filterMap (bracket? fun _ => none) = [] :=
    List.filterMap_eq_nil_iff.mpr fun op _ => by cases op <;> rfl
  rw [hnone]
  exact .nil

end Op

/-! ## Statements as brackets -/

/-- The bracket that a statement is: an element is opened or closed. -/
def Statement.bracket? : Statement → Option Bracket
  | .beginElement _ _ _ => some .opening
  | .endElement => some .closing
  | _ => none

/-- The bracket that the text of a statement is. -/
def bracketOf? (text : String) : Option Bracket :=
  if "out.be(".toList.isPrefixOf text.toList then some .opening
  else if text == "out.ee();" then some .closing
  else none

theorem isPlainPart_of_mem_toList {name : String} (hname : isPlainIdentifier name = true) {c : Char}
    (hc : c ∈ name.toList) : isPlainPart c = true := by
  unfold isPlainIdentifier at hname
  split at hname
  · cases hname
  · rename_i first rest hchars
    obtain ⟨hfirst, hrest⟩ := Bool.and_eq_true_iff.mp hname
    rw [hchars] at hc
    rcases List.mem_cons.mp hc with rfl | hc
    · exact isPlainPart_of_isPlainStart hfirst
    · exact List.all_eq_true.mp hrest c hc

-- What stands behind a name is the same in each way to read the text.
theorem eq_of_append_cons {name : String} (hname : isPlainIdentifier name = true) {c : Char} {rest : List Char}
    (hc : isPlainPart c = false) (other : String) (hother : isPlainIdentifier other = true) {d : Char}
    {tail : List Char} (hd : isPlainPart d = false)
    (h : name.toList ++ c :: rest = other.toList ++ d :: tail) : c = d ∧ rest = tail := by
  have hdrop {name : String} (hname : isPlainIdentifier name = true) {c : Char} (hc : isPlainPart c = false)
      (rest : List Char) : (name.toList ++ c :: rest).dropWhile isPlainPart = c :: rest :=
    (takeWhile_run (fun _ => isPlainPart_of_mem_toList hname) (by simpa using hc)).2
  have hbehind : c :: rest = d :: tail := by rw [← hdrop hname hc rest, h, hdrop hother hd tail]
  cases hbehind
  exact ⟨rfl, rfl⟩

-- A text that starts with a name is a bracket only if it goes on as one behind `out`.
theorem bracketOf?_of_name {text : String} (name : String) (hname : isPlainIdentifier name = true) {c : Char}
    {rest : List Char} (hc : isPlainPart c = false) (htext : text.toList = name.toList ++ c :: rest)
    (hrest : c = '.' → ¬ "be(".toList <+: rest ∧ rest ≠ "ee();".toList) : bracketOf? text = none := by
  have hsplit (tail : List Char) (h : text.toList = "out".toList ++ '.' :: tail) : c = '.' ∧ rest = tail :=
    eq_of_append_cons hname hc "out" (by decide) rfl (htext.symm.trans h)
  have hopening : "out.be(".toList.isPrefixOf text.toList = false := by
    rw [Bool.eq_false_iff]
    intro h
    obtain ⟨tail, htail⟩ := List.isPrefixOf_iff_prefix.mp h
    obtain ⟨hdot, rfl⟩ := hsplit ("be(".toList ++ tail) htail.symm
    exact (hrest hdot).1 ⟨tail, rfl⟩
  have hclosing : (text == "out.ee();") = false := by
    rw [beq_eq_false_iff_ne]
    rintro rfl
    obtain ⟨hdot, rfl⟩ := hsplit "ee();".toList rfl
    exact (hrest hdot).2 rfl
  rw [bracketOf?, hopening, hclosing]
  rfl

/-- A generated statement is told by its text to be a bracket. -/
theorem bracketOf?_text (definition : String) {s : Statement} (hauthored : s.authored? = [])
    (hnames : ∀ name ∈ s.generated, isPlainIdentifier name = true) :
    bracketOf? (s.text definition) = s.bracket? := by
  have hcall {text name : String} {rest : List Char} (hname : isPlainIdentifier name = true)
      (htext : text.toList = name.toList ++ '(' :: rest) : bracketOf? text = none :=
    bracketOf?_of_name name hname rfl htext fun h => by cases h
  have hout {text : String} {c : Char} {rest : List Char} (hc : c ∈ ['w', 't', 'h', 'c'])
      (htext : text.toList = "out".toList ++ '.' :: c :: rest) : bracketOf? text = none := by
    refine bracketOf?_of_name "out" (by decide) rfl htext fun _ => ⟨?_, ?_⟩
    · rintro ⟨tail, htail⟩
      cases htail
      exact absurd hc (by decide)
    · intro hrest
      cases hrest
      exact absurd hc (by decide)
  cases s with
  | authored code => cases hauthored
  | endElement =>
    show bracketOf? "out.ee();" = some .closing
    decide +kernel
  | beginElement name attributes key => simp [bracketOf?, Statement.text, Statement.bracket?]
  | writeValue helper expression => exact hout (c := 'w') (by decide) (by simp [Statement.text]; rfl)
  | writeAttribute helper name value => exact hout (c := 'w') (by decide) (by simp [Statement.text]; rfl)
  | addText text => exact hout (c := 't') (by decide) (by simp [Statement.text]; rfl)
  | addValue expression => exact hout (c := 't') (by decide) (by simp [Statement.text]; rfl)
  | addMarkup expression => exact hout (c := 'h') (by decide) (by simp [Statement.text]; rfl)
  | addComment text => exact hout (c := 'c') (by decide) (by simp [Statement.text]; rfl)
  | declareInput name attributes =>
    exact bracketOf?_of_name "const" (c := ' ') (by decide) rfl (by simp [Statement.text]; rfl)
      fun h => by cases h
  | assignSlot object slot values =>
    have hobject := hnames object List.mem_cons_self
    by_cases hslot : isPlainIdentifier slot = true
    · have htext : ((Statement.assignSlot object slot values).text definition).toList =
          object.toList ++ '.' :: (slot.toList ++ ' ' :: ("= " ++ slotText values ++ ";").toList) := by
        simp [Statement.text, memberText, hslot]
      refine bracketOf?_of_name object hobject rfl htext fun _ => ⟨?_, ?_⟩
      · rintro ⟨tail, htail⟩
        cases (eq_of_append_cons hslot rfl "be" (by decide) (d := '(') rfl htail.symm).1
      · intro heq
        cases (eq_of_append_cons hslot rfl "ee" (by decide) (d := '(') rfl heq).1
    · exact bracketOf?_of_name object hobject (c := '[') rfl (by simp [Statement.text, memberText, hslot]; rfl)
        fun h => by cases h
  | callMacro function input =>
    exact hcall (hnames function List.mem_cons_self) (by simp [Statement.text]; rfl)
  | renderTag helper template input key =>
    exact hcall (hnames helper List.mem_cons_self) (by simp [Statement.text]; rfl)
  | renderDynamicTag helper target input key =>
    exact hcall (hnames helper List.mem_cons_self) (by simp [Statement.text]; rfl)

/-! ## Elements of a run -/

theorem Statement.bracket?_of_handsOver {s : Statement} (h : s.handsOver = true) : s.bracket? = none := by
  cases s <;> first | rfl | cases h

theorem Statement.bracket?_of_componentKey? {s : Statement} {key : Nat} (h : s.componentKey? = some key) :
    s.bracket? = none := by
  cases s <;> first | rfl | cases h

-- Leaves are no elements.
theorem areNested_lowerLeaf {env : Env} (htext : env.text = standardText env.options) {m : Marks} {l : Leaf}
    {s t : State} {ops : List LoweredOp} (hrun : outcome (lowerLeaf env m l) s = (.ok ops, t)) :
    Op.AreNested Statement.bracket? ops := by
  have hvalue (s : Statement) (h : s.isValue = true) : s.bracket?.toList = [] := by
    cases s <;> first | rfl | cases h
  have hnone : Op.collectOf (fun s => s.bracket?.toList) (fun _ => []) ops = [] :=
    yields_collectOf_lowerLeaf htext hvalue (fun _ _ => rfl) m s ops t hrun
  rw [(Op.collectOf_eq_flatMap _).2, List.flatMap_eq_nil_iff] at hnone
  exact Op.areNested_of_eq_none fun s hs => Option.toList_eq_nil_iff.mp (hnone s hs)

/-- Each way to build operations nests the elements. -/
theorem Builds.areNested {env : Env} (htext : env.text = standardText env.options) {os : List Outline}
    {s t : State} {ops : List LoweredOp} (h : Builds env os s ops t) : Op.AreNested Statement.bracket? ops := by
  induction h with
  | quiet _ => exact Op.areNested_nil
  | append _ _ ihfirst ihmore => exact ihfirst.append ihmore
  | write markup _ => exact Op.areNested_write markup
  | code _ hstatement => exact Op.areNested_code (Statement.bracket?_of_handsOver hstatement)
  | leaf hrun => exact areNested_lowerLeaf htext hrun
  | element _ _ _ ih => exact ih.enclose rfl rfl
  | block _ _ ih => exact ih.block _
  | definition _ _ _ ih => exact ih.block _
  | call _ _ _ ih => exact ih.append (Op.areNested_code rfl)
  | component _ hkey ih => exact ih.append (Op.areNested_code (Statement.bracket?_of_componentKey? hkey))

/-- Without scriptlets no statement is authored. -/
theorem authored?_of_mem_statementsOf {env : Env} (htext : env.text = standardText env.options)
    {ns : List Node} (hns : ∀ code, Step.leaf (.scriptlet code) ∉ Node.traceIn (fun _ => false) ns)
    {s t : State} {ops : List LoweredOp} (hrun : outcome (lowerAll env ns) s = (.ok ops, t))
    {statement : Statement} (hstatement : statement ∈ Op.statementsOf ops) : statement.authored? = [] := by
  have hauthored : Op.authoredOf ops = (Node.loweredIn env.view ns).filterMap Part.authored? :=
    ((accounts_lower (isAccount_authored htext)).2 ns).1 s ops t hrun
  rw [Node.authored_loweredIn_of_trace env.view hns, Op.authoredOf, (Op.collectOf_eq_flatMap _).2,
    List.flatMap_eq_nil_iff] at hauthored
  exact hauthored statement hstatement

/-- In what nodes without scriptlets are lowered to, elements are nested in the list of operations and in the body
of each block, at all depths: each one that is opened there is closed there, behind what is opened and closed in
between, and none is closed that was not opened there. The same is true of the texts of the statements, if the names
in use before are those of variables. -/
theorem nested_elements_of_lowerAll {env : Env} (htext : env.text = standardText env.options)
    {ns : List Node} (hns : ∀ code, Step.leaf (.scriptlet code) ∉ Node.traceIn (fun _ => false) ns)
    {s t : State} {ops : List LoweredOp} (hrun : outcome (lowerAll env ns) s = (.ok ops, t)) :
    (∀ level ∈ Op.levels ops, IsNested (level.filterMap (Op.bracket? Statement.bracket?))) ∧
      (s.NamesVariables → ∀ definition, ∀ level ∈ Op.levels (textOps definition ops),
        IsNested (level.filterMap (Op.bracket? bracketOf?))) := by
  have hnested : Op.AreNested Statement.bracket? ops :=
    (((builds_lower env).2 ns).1 s ops t hrun).areNested htext
  refine ⟨hnested, fun hs definition => ?_⟩
  have hclear := areClear_of_lowerAll htext hs hrun
  refine (Op.areNested_mapAll (Statement.text definition) Scope.frame bracketOf?).mpr ?_
  refine hnested.congr fun statement hstatement => bracketOf?_text definition ?_ fun name hname => ?_
  · exact authored?_of_mem_statementsOf htext hns hrun hstatement
  · exact Script.Grammar.isPlainIdentifier_of_isVariable (hclear.statements statement hstatement name hname)

/-- Elements beside and in a condition, in the function of a macro, in a slot and in the content beside it. -/
theorem nested_elements_of_lowerAll_slot :
    let tags := TagRegistry.ofList [.ofTemplate "my-tag" ⟨"/app/my-tag.marko"⟩]
    let env := (Setting.standard { output := .dom {} } tags).env ⟨"/app/page.marko"⟩ ["row"]
    let place : Marks := ⟨false, ⟨1, 1⟩⟩
    let element (name : String) (children : List Node) : Node := .tag place ⟨.static name, [], none, []⟩ children
    let ns : List Node := [
      element "div" [.tag place ⟨.static "if", [], some "input.a", []⟩ [element "b" []], element "i" []],
      .tag place ⟨.static "macro", [⟨"name", "\"row\""⟩], none, []⟩ [element "li" [element "u" []]],
      element "my-tag" [element "@head" [element "em" []], element "p" []]]
    let start := State.start ⟨[]⟩ (.ofPath ⟨"/app/page.marko"⟩) .empty
    ∃ ops t, outcome (lowerAll env ns) start = (.ok ops, t) ∧
      (Op.levels (textOps "_component" ops)).map (·.filterMap (Op.bracket? bracketOf?)) =
        [[.opening, .opening, .closing, .closing], [.opening, .closing],
          [.opening, .opening, .closing, .closing], [.opening, .closing], [.opening, .closing]] ∧
      ∀ level ∈ Op.levels (textOps "_component" ops), IsNested (level.filterMap (Op.bracket? bracketOf?)) := by
  intro tags env place element ns start
  have hok : ((outcome (lowerAll env ns) start).1.toOption.map fun ops =>
      (Op.levels (textOps "_component" ops)).map (·.filterMap (Op.bracket? bracketOf?))) =
        some [[.opening, .opening, .closing, .closing], [.opening, .closing],
          [.opening, .opening, .closing, .closing], [.opening, .closing], [.opening, .closing]] := by decide +kernel
  obtain ⟨ops, hrun, hbrackets⟩ := exists_eq_ok_pair_of_map_eq_some hok
  have hns : ∀ code, Step.leaf (.scriptlet code) ∉ Node.traceIn (fun _ => false) ns := by
    intro code hcode
    simp [ns, element, Node.traceIn, Node.trace] at hcode
  exact ⟨ops, _, hrun, hbrackets,
    (nested_elements_of_lowerAll rfl hns hrun).2 (namesVariables_start _ _) "_component"⟩

end Render

end TemplateCompiler
