import TemplateCompiler.Compilation
import TemplateCompiler.Proofs.Lowering.Logic
import TemplateCompiler.Proofs.Names
import TemplateCompiler.Proofs.Script.Calls

/-!
# Operands of generated calls and tests

Authored expressions are copied as text: into calls as one of their arguments, and into the test of a range
as the last number that its counter is compared with. Whether the text stays one operand there depends on how
tightly it binds. For any text, no call is read with a sequence as an argument, and no comparison with what binds
as loosely as itself (`Statement.level_pos`, `Bound.lt_level`). The other way round it is stated for texts of
plain tokens only (`isPlainText`): without braces, slashes and templates, without functions, classes, imports,
`super`, `async`, `await` and `yield`, and without an argument in parentheses that look like the parameters of an
arrow function. If one expression fills such a text and binds tightly enough, it is read as it is meant, between
generated names (`operands_of_lowerAll`).
-/

namespace TemplateCompiler.Render

open Script Script.Grammar

/-! ## Places of operands -/

/-- The expression that a statement hands on as one argument, and the call that the statement is with an
expression as this argument. -/
def Statement.handsOn? (definition : String) : Statement → Option (String × (Expr → Expr))
  | .writeAttribute helper name value => some (value, fun e =>
    .call (.member (.name "out") "w" false) [.call (.name helper) [.string (quoted name), e] false] false)
  | .renderDynamicTag helper target input key => some (target, fun e =>
    .call (.name helper)
      [.name "out", e, .arrowTo false [] (.name input), .name definition, .string (quoted (toString key))] false)
  | .addValue expression => some (expression, fun e =>
    .call (.member (.name "out") "t" false) [e, .name definition] false)
  | _ => none

/-- The comparisons of a test that looks at the sign of the step, behind the test of the sign. -/
def choiceText (counter bound : String) : String :=
  "? " ++ counter ++ " <= " ++ bound ++ " : " ++ counter ++ " >= " ++ bound

/-- The test compares the counter with an expression, in each of its comparisons. The semicolon is the one behind
the test in the opening of a loop. -/
def Bound.Compares (counter bound step : String) (e : Expr) : Bound → Prop
  | .atMost => readExpression? (Bound.atMost.text counter bound step ++ ";").toList =
      some (.binary "<=" (.name counter) e)
  | .atLeast => readExpression? (Bound.atLeast.text counter bound step ++ ";").toList =
      some (.binary ">=" (.name counter) e)
  | .bySign => Bound.bySign.text counter bound step = "(" ++ step ++ ") > 0 " ++ choiceText counter bound ∧
      ∀ test, readChoice? test (choiceText counter bound ++ ";").toList =
        some (.conditional test (.binary "<=" (.name counter) e) (.binary ">=" (.name counter) e))

theorem text_bySign (counter bound step : String) :
    Bound.bySign.text counter bound step = "(" ++ step ++ ") > 0 " ++ choiceText counter bound :=
  String.toList_inj.mp (by simp [Bound.text, choiceText])

/-! ## What is read as it is meant -/

theorem separates_of_readExpression? {cs : List Char} {e : Expr} (h : readExpression? cs = some e) : e.Separates := by
  obtain ⟨r, -, h⟩ := Option.bind_eq_some_iff.mp h
  obtain ⟨⟨e, m⟩, hexpression, h⟩ := Option.bind_eq_some_iff.mp h
  obtain ⟨-, -, heq⟩ := Option.bind_eq_some_iff.mp h
  cases heq
  exact reads_separates_expression (binds_ofDepth _) _ _ _ _ hexpression

/-- An expression that a statement is read to hand on is no sequence. -/
theorem Statement.level_pos {definition code : String} {s : Statement} {call : Expr → Expr} {e : Expr}
    (hs : s.handsOn? definition = some (code, call))
    (h : readExpression? (s.text definition).toList = some (call e)) : 0 < e.level := by
  have hseparates := separates_of_readExpression? h
  cases s <;> cases hs
  case writeAttribute => exact hseparates.2.1.2.2.1
  case addValue => exact hseparates.1
  case renderDynamicTag => exact hseparates.2.2.1

/-- An expression that a counter is read to be compared with binds more tightly than the comparison. -/
theorem Bound.lt_level {counter bound step : String} {b : Bound} {e : Expr} (h : b.Compares counter bound step e) :
    9 < e.level := by
  cases b with
  | atMost => exact separates_of_readExpression? h 8 (by decide) rfl
  | atLeast => exact separates_of_readExpression? h 8 (by decide) rfl
  | bySign => exact separates_of_readChoice? (h.2 .this) 8 (by decide) rfl

/-! ## What is meant is read -/

theorem isVariable_out : isVariable "out" = true := by decide

section

variable {definition code : String} {e : Expr} (hcode : readExpression? (code.toList ++ [';']) = some e)
  (hplain : isPlainText code.toList = true)

include hcode hplain

theorem isArgument_writeAttribute {helper : String} (hhelper : isVariable helper = true) (name : String)
    (hlevel : 0 < e.level) :
    IsArgument (code.toList.length + 6) ((Statement.writeAttribute helper name code).text definition).toList
      (.call (.member (.name "out") "w" false) [.call (.name helper) [.string (quoted name), e] false] false)
      ";" [] := by
  have htext : ((Statement.writeAttribute helper name code).text definition).toList =
      "out".toList ++ '.' :: ("w".toList ++ '(' :: (helper.toList ++ '(' :: ((Json.quote name).toList ++
        ',' :: ' ' :: (code.toList ++ ')' :: [')', ';'])))) := by
    unfold Statement.text
    simp
  rw [htext]
  have harguments : AreArguments (code.toList.length + 3)
      ((Json.quote name).toList ++ ',' :: ' ' :: (code.toList ++ ')' :: [')', ';'])) [.string (quoted name), e]
      [')', ';'] :=
    .more ((isArgument_quote name (by decide) (nextToken_comma _)).mono (by omega))
      (.last (isArgument_close hcode hplain hlevel _).space)
  -- The call of the helper is itself the only argument of the call that writes.
  have hcall := isArgument_call hhelper harguments (fun _ _ _ _ => by simp) (by decide) (nextToken_close _)
  exact (isArgument_memberCall isVariable_out (by decide) rfl (.last hcall) (fun _ _ _ _ => by simp) (by decide)
    (nextToken_semicolon_cons _)).mono (by omega)

theorem isArgument_addValue (hdefinition : isVariable definition = true) (hlevel : 0 < e.level) :
    IsArgument (code.toList.length + 4) ((Statement.addValue code).text definition).toList
      (.call (.member (.name "out") "t" false) [e, .name definition] false) ";" [] := by
  have htext : ((Statement.addValue code).text definition).toList =
      "out".toList ++ '.' :: ("t".toList ++ '(' :: (code.toList ++ ',' :: ' ' ::
        (definition.toList ++ ')' :: [';']))) := by
    unfold Statement.text
    simp
  rw [htext]
  have hlast := isArgument_name hdefinition (endsName_of_mem (by decide)) (by decide) (nextToken_close [';'])
  have harguments : AreArguments (code.toList.length + 3)
      (code.toList ++ ',' :: ' ' :: (definition.toList ++ ')' :: [';'])) [e, .name definition] [';'] :=
    .more (isArgument_comma hcode hplain hlevel _) (.last (hlast.mono (by omega)).space)
  exact isArgument_memberCall isVariable_out (by decide) rfl harguments (fun _ _ _ _ => by simp) (by decide)
    (nextToken_semicolon_cons _)

theorem isArgument_renderDynamicTag (hdefinition : isVariable definition = true) {helper input : String}
    (hhelper : isVariable helper = true) (hinput : isVariable input = true) (key : Nat) (hlevel : 0 < e.level) :
    IsArgument (code.toList.length + 4) ((Statement.renderDynamicTag helper code input key).text definition).toList
      (.call (.name helper)
        [.name "out", e, .arrowTo false [] (.name input), .name definition, .string (quoted (toString key))] false)
      ";" [] := by
  have htext : ((Statement.renderDynamicTag helper code input key).text definition).toList =
      helper.toList ++ '(' :: ("out".toList ++ ',' :: ' ' :: (code.toList ++ ',' :: ' ' ::
        ("() => ".toList ++ (input.toList ++ ',' :: ' ' :: (definition.toList ++ ',' :: ' ' ::
          ((Json.quote (toString key)).toList ++ ')' :: [';'])))))) := by
    unfold Statement.text
    simp [keyText]
  rw [htext]
  -- The arguments are put together from the last one to the first, each with what is behind it.
  have hcomma : EndsName ',' := endsName_of_mem (by decide)
  have hkey : AreArguments (code.toList.length + 3) (' ' :: ((Json.quote (toString key)).toList ++ ')' :: [';']))
      [.string (quoted (toString key))] [';'] :=
    .last ((isArgument_quote (toString key) (by decide) (nextToken_close _)).mono (by omega)).space
  have hlast := AreArguments.more
    ((isArgument_name hdefinition hcomma (by decide) (nextToken_comma _)).mono (by omega)).space hkey
  have harrow := AreArguments.more
    ((isArgument_arrow hinput hcomma (by decide) (nextToken_comma _)).mono (by omega)).space hlast
  have hoperand := AreArguments.more (isArgument_comma hcode hplain hlevel _).space harrow
  have harguments := AreArguments.more
    ((isArgument_name isVariable_out hcomma (by decide) (nextToken_comma _)).mono (by omega)) hoperand
  refine isArgument_call hhelper harguments (fun t newline mid hnext => ?_) (by decide) (nextToken_semicolon_cons _)
  cases (nextToken_name (x := "out") (by decide) hcomma).symm.trans hnext
  simp only [List.length_cons, List.length_nil, List.length_append]
  omega

theorem Statement.readExpression?_text {s : Statement} {call : Expr → Expr}
    (hdefinition : isVariable definition = true) (hs : s.handsOn? definition = some (code, call))
    (hnames : ∀ name ∈ s.generated, isVariable name = true) (hlevel : 0 < e.level) :
    readExpression? (s.text definition).toList = some (call e) := by
  cases s <;> cases hs
  case writeAttribute helper name =>
    have hhelper := hnames helper List.mem_cons_self
    refine (isArgument_writeAttribute hcode hplain hhelper name hlevel).readExpression?_eq ?_
    unfold Statement.text
    simp
    omega
  case addValue =>
    refine (isArgument_addValue hcode hplain hdefinition hlevel).readExpression?_eq ?_
    unfold Statement.text
    simp
    omega
  case renderDynamicTag helper input key =>
    have hhelper := hnames helper List.mem_cons_self
    have hinput := hnames input (List.mem_cons_of_mem _ List.mem_cons_self)
    refine (isArgument_renderDynamicTag hcode hplain hdefinition hhelper hinput key hlevel).readExpression?_eq ?_
    unfold Statement.text
    simp
    omega

theorem Bound.compares {counter : String} (hcounter : isVariable counter = true) (hlevel : 9 < e.level)
    (step : String) (b : Bound) : b.Compares counter code step e := by
  have hsemicolon : (Stop.mk ";" [] (by decide)).Comes ';' [] := comes_of_mem (by decide) rfl
  have hcolon {b : List Char} : (Stop.mk ":" b (by decide)).Comes ' ' (':' :: b) := comes_colon rfl
  have hle : "<=" ∈ ["<=", ">="] := by decide
  have hge : ">=" ∈ ["<=", ">="] := by decide
  have hlast (op : String) (hop : op ∈ ["<=", ">="]) :
      IsArgument (code.toList.length + 4)
        (counter.toList ++ ' ' :: (op.toList ++ ' ' :: (code.toList ++ ';' :: []))) (.binary op (.name counter) e)
        ";" [] :=
    isArgument_comparison hcode hplain hsemicolon hcounter hop hlevel
  cases b with
  | atMost =>
    have htext : (Bound.atMost.text counter code step ++ ";").toList =
        counter.toList ++ ' ' :: ("<=".toList ++ ' ' :: (code.toList ++ ';' :: [])) := by
      simp [Bound.text]
    rw [Bound.Compares, htext]
    refine (hlast "<=" hle).readExpression?_eq ?_
    simp
    omega
  | atLeast =>
    have htext : (Bound.atLeast.text counter code step ++ ";").toList =
        counter.toList ++ ' ' :: (">=".toList ++ ' ' :: (code.toList ++ ';' :: [])) := by
      simp [Bound.text]
    rw [Bound.Compares, htext]
    refine (hlast ">=" hge).readExpression?_eq ?_
    simp
    omega
  | bySign =>
    -- The first comparison ends at the colon of the choice, the second one at the semicolon.
    have htext : (choiceText counter code ++ ";").toList =
        '?' :: ' ' :: (counter.toList ++ ' ' :: ("<=".toList ++ ' ' :: (code.toList ++ ' ' :: ':' :: ' ' ::
          (counter.toList ++ ' ' :: (">=".toList ++ ' ' :: (code.toList ++ ';' :: [])))))) := by
      simp [choiceText]
    refine ⟨text_bySign counter code step, fun test => ?_⟩
    rw [htext]
    have hno := (hlast ">=" hge).space
    refine (isArgument_comparison hcode hplain hcolon hcounter hle hlevel).readChoice?_eq hno ?_ test
    simp
    omega

end

/-! ## Generated names -/

theorem isVariable_candidate (hint : String) (n : Nat) : isVariable (Names.candidate hint n) = true := by
  obtain ⟨cs, hcs, -⟩ := Names.exists_toList_candidate hint n
  have hne (w : String) (hw : w.toList.head? ≠ some '_') : Names.candidate hint n ≠ w := by
    rintro rfl
    rw [hcs] at hw
    exact hw rfl
  -- A generated name starts with an underscore, and no reserved word does.
  have hreserved : ∀ w ∈ reservedWords, w.toList.head? ≠ some '_' := by decide +kernel
  have hoperators : ∀ w ∈ ["async", "await", "yield"], w.toList.head? ≠ some '_' := by decide +kernel
  have hfree {ws : List String} (hws : ∀ w ∈ ws, w.toList.head? ≠ some '_') :
      ws.contains (Names.candidate hint n) = false := by
    rw [List.contains_eq_mem, decide_eq_false_iff_not]
    exact fun hmem => hne _ (hws _ hmem) rfl
  rw [isVariable, Names.isPlainIdentifier_candidate, hfree hreserved, hfree hoperators]
  rfl

theorem isVariable_fresh (names : Names) (hint : String) : isVariable (names.fresh hint) = true := by
  obtain ⟨n, hn, -⟩ := Names.exists_fresh_eq names hint
  rw [hn]
  exact isVariable_candidate hint n

/-- The imports and macros have variables as their names. -/
structure State.NamesVariables (s : State) : Prop where
  imports : ∀ e ∈ s.imports.entries, isVariable e.localName = true
  macros : ∀ e ∈ s.macroNames, isVariable e.2 = true

theorem namesVariables_start (names : Names) (m : Metadata) : (State.start names m .empty).NamesVariables :=
  ⟨fun _ he => (List.not_mem_nil he).elim, fun _ he => (List.not_mem_nil he).elim⟩

theorem ensures_isVariable_importName (source : String) (binding : Binding) (hint : String) :
    Ensures State.NamesVariables (isVariable · = true) (importName source binding hint) := by
  intro s name t hs hrun
  obtain ⟨rfl, hknown⟩ | ⟨rfl, rfl⟩ := importName_cases hrun
  · exact ⟨hs, hs.imports _ hknown⟩
  · refine ⟨⟨fun e he => ?_, hs.macros⟩, isVariable_fresh _ _⟩
    rcases List.mem_append.mp he with he | he
    · exact hs.imports e he
    · rw [List.mem_singleton.mp he]
      exact isVariable_fresh _ _

theorem ensures_isVariable_macroFunction (name : String) :
    Ensures State.NamesVariables (isVariable · = true) (macroFunction name) := by
  intro s function t hs hrun
  obtain ⟨rfl, hknown⟩ | ⟨-, rfl, rfl⟩ := macroFunction_cases hrun
  · exact ⟨hs, hs.macros _ (mem_of_lookup hknown)⟩
  · refine ⟨⟨hs.imports, fun e he => ?_⟩, isVariable_fresh _ _⟩
    rcases List.mem_append.mp he with he | he
    · exact hs.macros e he
    · rw [List.mem_singleton.mp he]
      exact isVariable_fresh _ _

/-- All that lowering generates are variables. -/
theorem isLogic_variables : IsLogic (isVariable · = true) (Ensures State.NamesVariables) where
  pure := ensures_pure
  throw := ensures_throw
  bind := ensures_bind
  generateName hint := by
    rintro s name t hs ⟨⟩
    exact ⟨⟨hs.imports, hs.macros⟩, isVariable_fresh _ _⟩
  importName := ensures_isVariable_importName
  useTag request hint s name t hs hrun :=
    ensures_isVariable_importName request .default hint { s with metadata := s.metadata.addTag request } name t
      ⟨hs.imports, hs.macros⟩ hrun
  macroFunction := ensures_isVariable_macroFunction
  takeKey := by
    rintro s key t hs ⟨⟩
    exact ⟨⟨hs.imports, hs.macros⟩, trivial⟩
  defineComponent code := by
    rintro s _ t hs ⟨⟩
    exact ⟨⟨hs.imports, hs.macros⟩, trivial⟩

/-- What nodes are lowered to has variables for all that is generated. -/
theorem areClear_of_lowerAll {env : Env} (htext : env.text = standardText env.options) {ns : List Node}
    {s t : State} {ops : List LoweredOp} (hs : s.NamesVariables)
    (hrun : outcome (lowerAll env ns) s = (.ok ops, t)) :
    Op.AreClear (isVariable · = true) (fun _ => true) ops := by
  have htexts (m : Marks) (v : String) :
      Ensures State.NamesVariables (Op.AreClear (isVariable · = true) fun _ => true) (env.text m v) := by
    rw [htext]
    exact isLogic_variables.standardText env.options m v
  have hall : Node.allIn (fun _ _ => true) ns = true := by
    have hevery : (∀ n : Node, n.all (fun _ _ => true) = true) ∧
        ∀ ns : List Node, Node.allIn (fun _ _ => true) ns = true := by
      apply Node.induct
      case leaf => exact fun m l => rfl
      case tag => exact fun m t children ih => by rw [Node.all, ih]; rfl
      case nil => rfl
      case cons => exact fun n ns ihn ihns => by rw [Node.allIn, ihn, ihns]; rfl
    exact hevery.2 ns
  exact (((isLogic_variables.lower env htexts).2 ns hall).1 s ops t hs hrun).2

/-! ## Operands of a run -/

/-- In what nodes are lowered to, an expression that is handed on is one argument only if it is no sequence, and one
that a counter is compared with is one operand only if it binds more tightly than a comparison. If its tokens are
plain and it fills its text, it is one whenever it binds so tightly. What is not said is how a text with other
tokens is read there: one with a division, an object, a template, a function or a class, or one in which an argument
starts with parentheses that look like parameters. -/
theorem operands_of_lowerAll {env : Env} (htext : env.text = standardText env.options) {definition : String}
    (hdefinition : isVariable definition = true) {ns : List Node} {s t : State} {ops : List LoweredOp}
    (hs : s.NamesVariables) (hrun : outcome (lowerAll env ns) s = (.ok ops, t)) :
    (∀ statement ∈ Op.statementsOf ops, ∀ code call, statement.handsOn? definition = some (code, call) → ∀ e,
      (readExpression? (statement.text definition).toList = some (call e) → 0 < e.level) ∧
      (readExpression? (code.toList ++ [';']) = some e → isPlainText code.toList = true → 0 < e.level →
        readExpression? (statement.text definition).toList = some (call e))) ∧
    ∀ counter start bound step, .range counter start bound step ∈ Op.scopesOf ops → ∀ e,
      ((Bound.ofStep step).Compares counter bound step e → 9 < e.level) ∧
      (isVariable counter = true → readExpression? (bound.toList ++ [';']) = some e →
        isPlainText bound.toList = true → 9 < e.level → (Bound.ofStep step).Compares counter bound step e) := by
  have hclear := areClear_of_lowerAll htext hs hrun
  constructor
  · intro statement hstatement code call hcall e
    exact ⟨Statement.level_pos hcall, fun hcode hplain hlevel =>
      Statement.readExpression?_text hcode hplain hdefinition hcall (hclear.statements statement hstatement) hlevel⟩
  · intro counter start bound step _ e
    exact ⟨Bound.lt_level, fun hcounter hcode hplain hlevel =>
      Bound.compares hcode hplain hcounter hlevel step _⟩

/-- The title of an element, and the last number of a loop. -/
theorem operands_of_lowerAll_list :
    let env := (Setting.standard {} (TagRegistry.ofList [])).env ⟨"/app/page.marko"⟩ []
    let place : Marks := ⟨false, ⟨1, 1⟩⟩
    let ns : List Node := [
      .tag place ⟨.static "ul", [⟨"title", "input.title || name(input, 0)"⟩], none, []⟩ [],
      .tag place ⟨.static "for", [⟨"from", "0"⟩, ⟨"to", "input.size - 1"⟩], none, ["i"]⟩ []]
    let start := State.start ⟨[]⟩ (.ofPath ⟨"/app/page.marko"⟩) .empty
    let title := Statement.writeAttribute "_marko_attr" "title" "input.title || name(input, 0)"
    let written (e : Expr) : Expr := .call (.member (.name "out") "w" false)
      [.call (.name "_marko_attr") [.string (quoted "title"), e] false] false
    ∃ ops t e last, outcome (lowerAll env ns) start = (.ok ops, t) ∧ title ∈ Op.statementsOf ops ∧
      readExpression? "input.title || name(input, 0);".toList = some e ∧
      readExpression? (title.text "_component").toList = some (written e) ∧
      .range "i" "0" "input.size - 1" "1" ∈ Op.scopesOf ops ∧
      readExpression? "input.size - 1;".toList = some last ∧
      (Bound.ofStep "1").Compares "i" "input.size - 1" "1" last := by
  intro env place ns start title written
  have hok : ((outcome (lowerAll env ns) start).1.toOption.map fun ops =>
      (Op.statementsOf ops, Op.scopesOf ops)) =
        some ([title], [.range "i" "0" "input.size - 1" "1"]) := by decide +kernel
  have hlevels : (readExpression? ("input.title || name(input, 0)".toList ++ [';'])).map Expr.level = some 3 ∧
      (readExpression? ("input.size - 1".toList ++ [';'])).map Expr.level = some 11 := by decide +kernel
  have hplain : isPlainText "input.title || name(input, 0)".toList = true ∧
      isPlainText "input.size - 1".toList = true := by decide +kernel
  obtain ⟨e, he, hlevel⟩ := Option.map_eq_some_iff.mp hlevels.1
  obtain ⟨last, hlast, hlevel'⟩ := Option.map_eq_some_iff.mp hlevels.2
  obtain ⟨ops, hrun, hwritten⟩ := exists_eq_ok_pair_of_map_eq_some hok
  obtain ⟨hstatements, hscopes⟩ := Prod.mk.inj hwritten
  have hstatement : title ∈ Op.statementsOf ops := by
    rw [hstatements]
    exact List.mem_cons_self
  have hscope : .range "i" "0" "input.size - 1" "1" ∈ Op.scopesOf ops := by
    rw [hscopes]
    exact List.mem_cons_self
  obtain ⟨hhands, hcompares⟩ := operands_of_lowerAll rfl
    (show isVariable "_component" = true by decide +kernel) (namesVariables_start _ _) hrun
  refine ⟨ops, _, e, last, hrun, hstatement, he, ?_, hscope, hlast, ?_⟩
  · exact (hhands title hstatement _ written rfl e).2 he hplain.1 (by rw [hlevel]; decide)
  · exact (hcompares "i" "0" _ "1" hscope last).2 (by decide +kernel) hlast hplain.2 (by rw [hlevel']; decide)

/-- The function for attributes has the operands of a sequence as two arguments. -/
def isSplitAttribute : Expr → Bool
  | .call (.member (.name "out") "w" false)
      [.call (.name "_marko_attr") [.string _, .name "a", .name "b"] false] false => true
  | _ => false

/-- The call that adds a value to the tree has the operands of a sequence as two arguments. -/
def isSplitValue : Expr → Bool
  | .call (.member (.name "out") "t" false) [.name "a", .name "b", .name "_component"] false => true
  | _ => false

/-- The counter is compared with the test of a choice. -/
def isSplitTest : Expr → Bool
  | .conditional (.binary "<=" (.name "i") (.name "a")) (.name "b") (.name "c") => true
  | _ => false

/-- A sequence becomes two arguments, of the function for attributes as well as of the call that adds to the tree,
and with a choice as the last number only its test is compared with the counter. -/
theorem exists_operand_split :
    let html := (Setting.standard {} (TagRegistry.ofList [])).env ⟨"/app/page.marko"⟩ []
    let tree := (Setting.standard { output := .dom {} } (TagRegistry.ofList [])).env ⟨"/app/page.marko"⟩ []
    let place : Marks := ⟨false, ⟨1, 1⟩⟩
    let item : Node := .tag place ⟨.static "li", [⟨"title", "a, b"⟩], none, []⟩ []
    let loop : Node := .tag place ⟨.static "for", [⟨"from", "0"⟩, ⟨"to", "a ? b : c"⟩], none, ["i"]⟩ []
    let start := State.start ⟨[]⟩ (.ofPath ⟨"/app/page.marko"⟩) .empty
    let statements (env : Env) (n : Node) : Option (List String) :=
      (outcome (lower env n) start).1.toOption.map fun ops => (Op.statementsOf ops).map (·.text "_component")
    acceptsExpression "a, b" = true ∧ acceptsExpression "a ? b : c" = true ∧
    statements html item = some ["out.w(_marko_attr(\"title\", a, b));"] ∧
    statements tree (.leaf place (.placeholder "a, b" true)) = some ["out.t(a, b, _component);"] ∧
    (outcome (lower html loop) start).1.toOption.map Op.scopesOf = some [.range "i" "0" "a ? b : c" "1"] ∧
    (Scope.range "i" "0" "a ? b : c" "1").opening = "for (let i = 0; i <= a ? b : c; i += 1) \x7b" ∧
    (∃ q, readExpression? "out.w(_marko_attr(\"title\", a, b));".toList =
      some (.call (.member (.name "out") "w" false)
        [.call (.name "_marko_attr") [.string q, .name "a", .name "b"] false] false)) ∧
    readExpression? "out.t(a, b, _component);".toList =
      some (.call (.member (.name "out") "t" false) [.name "a", .name "b", .name "_component"] false) ∧
    readExpression? "i <= a ? b : c;".toList =
      some (.conditional (.binary "<=" (.name "i") (.name "a")) (.name "b") (.name "c")) := by
  refine ⟨by decide +kernel, by decide +kernel, by decide +kernel, by decide +kernel, by decide +kernel,
    by decide +kernel, ?_, ?_, ?_⟩
  · have hread : (readExpression? "out.w(_marko_attr(\"title\", a, b));".toList).any isSplitAttribute = true := by
      decide +kernel
    obtain ⟨e, he, hsplit⟩ := (Option.any_eq_true ..).mp hread
    unfold isSplitAttribute at hsplit
    split at hsplit
    · rename_i q
      exact ⟨q, he⟩
    · cases hsplit
  · have hread : (readExpression? "out.t(a, b, _component);".toList).any isSplitValue = true := by decide +kernel
    obtain ⟨e, he, hsplit⟩ := (Option.any_eq_true ..).mp hread
    unfold isSplitValue at hsplit
    split at hsplit
    · exact he
    · cases hsplit
  · have hread : (readExpression? "i <= a ? b : c;".toList).any isSplitTest = true := by decide +kernel
    obtain ⟨e, he, hsplit⟩ := (Option.any_eq_true ..).mp hread
    unfold isSplitTest at hsplit
    split at hsplit
    · exact he
    · cases hsplit

end TemplateCompiler.Render
