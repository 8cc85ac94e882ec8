import Mathlib.Tactic.SplitIfs
import TemplateCompiler.Proofs.Lowering.Macros
import TemplateCompiler.Proofs.Lowering.Modes

/-!
# A logic of lowering

A judgement `J Q x` says of a step `x`, among other things, that its values are as `Q` says. If it has the
rules of `IsLogic`, one for each way to combine steps and one for each basic step, where `N` is what holds of
the names that these give, then it holds of all of lowering and of the assembled module. Each name that
stands for something generated there is as `N` says (`IsLogic.lowerAll`, `IsLogic.assemble`).
-/

namespace TemplateCompiler.Render

variable {α β : Type}

/-! ## Names in what is generated -/

/-- The names in a statement that stand for something generated. -/
def Statement.generated : Statement → List String
  | .writeValue helper _ => [helper]
  | .writeAttribute helper _ _ => [helper]
  | .declareInput name _ => [name]
  | .assignSlot object _ values => object :: values
  | .callMacro function input => [function, input]
  | .renderTag helper template input _ => [helper, template, input]
  | .renderDynamicTag helper _ input _ => [helper, input]
  | .authored _ | .addText _ | .addValue _ | .addMarkup _ | .addComment _ | .beginElement _ _ _
  | .endElement => []

/-- The names in the opening of a block that stand for something generated, apart from the variables of a
loop. -/
def Scope.generated : Scope → List String
  | .renderBody object _ => [object]
  | .function name _ => [name]
  | .ifTrue _ | .elseIfTrue _ | .otherwise | .each _ _ | .eachIndexed _ _ _ | .eachProperty _ _ _
  | .range _ _ _ _ => []

/-- The variables of a loop, in the order of the parameters that they stand for. -/
def Scope.variables : Scope → List String
  | .each item _ => [item]
  | .eachIndexed index item _ => [item, index]
  | .eachProperty key value _ => [key, value]
  | .range counter _ _ _ => [counter]
  | .renderBody _ _ | .ifTrue _ | .elseIfTrue _ | .otherwise | .function _ _ => []

/-- A variable of the block is the parameter of the tag in its place. If the tag does not have it, the
variable is as `N` says. -/
def Scope.IsLoopOf (N : String → Prop) (t : Tag) (scope : Scope) : Prop :=
  ∀ (k : Nat) (v : String), scope.variables[k]? = some v → t.params[k]? = some v ∨ t.params[k]? = none ∧ N v

/-- The names that stand for something generated in a block are as `N` says. A loop is that of a tag which
`T` holds of. -/
structure Scope.IsClear (N : String → Prop) (T : Tag → Bool) (scope : Scope) : Prop where
  generated : ∀ name ∈ scope.generated, N name
  loop : scope.variables ≠ [] → ∃ t, T t = true ∧ t.staticName = some "for" ∧ scope.IsLoopOf N t

theorem Scope.isClear_of_variables_eq_nil {N : String → Prop} {T : Tag → Bool} {scope : Scope}
    (hnil : scope.variables = []) (h : ∀ name ∈ scope.generated, N name) : scope.IsClear N T :=
  ⟨h, fun hne => absurd hnil hne⟩

namespace Op

/-- The statements in operations, at all depths. -/
def statementsOf (ops : List LoweredOp) : List Statement := collectOf (fun s => [s]) (fun _ => []) ops

/-- The blocks in operations, at all depths. -/
def scopesOf (ops : List LoweredOp) : List Scope := collectOf (fun _ => []) (fun b => [b]) ops

/-- The names that stand for something generated in operations are as `N` says, and loops are those of tags
which `T` holds of. -/
structure AreClear (N : String → Prop) (T : Tag → Bool) (ops : List LoweredOp) : Prop where
  statements : ∀ s ∈ statementsOf ops, ∀ name ∈ s.generated, N name
  scopes : ∀ b ∈ scopesOf ops, b.IsClear N T

section

variable {N : String → Prop} {T : Tag → Bool} {ops more : List LoweredOp}

theorem areClear_nil : AreClear N T [] :=
  ⟨fun _ hs => (List.not_mem_nil hs).elim, fun _ hb => (List.not_mem_nil hb).elim⟩

theorem AreClear.append (h : AreClear N T ops) (hmore : AreClear N T more) :
    AreClear N T (ops ++ more) := by
  constructor
  · intro s hs
    rw [statementsOf, collectOf_append] at hs
    exact (List.mem_append.mp hs).elim (h.statements s) (hmore.statements s)
  · intro b hb
    rw [scopesOf, collectOf_append] at hb
    exact (List.mem_append.mp hb).elim (h.scopes b) (hmore.scopes b)

theorem areClear_write (markup : String) : AreClear N T [.write markup] :=
  ⟨fun _ hs => (List.not_mem_nil hs).elim, fun _ hb => (List.not_mem_nil hb).elim⟩

theorem areClear_code {statement : Statement} (h : ∀ name ∈ statement.generated, N name) :
    AreClear N T [.code statement] :=
  ⟨fun s hs => by rwa [List.mem_singleton.mp hs], fun _ hb => (List.not_mem_nil hb).elim⟩

theorem AreClear.block {scope : Scope} (hscope : scope.IsClear N T) (h : AreClear N T ops) :
    AreClear N T [.block scope ops] := by
  constructor
  · intro s hs
    have hmem : s ∈ [] ++ statementsOf ops ++ [] := hs
    rw [List.nil_append, List.append_nil] at hmem
    exact h.statements s hmem
  · intro b hb
    have hmem : b ∈ [scope] ++ scopesOf ops ++ [] := hb
    rw [List.append_nil] at hmem
    rcases List.mem_append.mp hmem with hmem | hmem
    · rwa [List.mem_singleton.mp hmem]
    · exact h.scopes b hmem

theorem AreClear.cons_code {statement : Statement} (hs : ∀ name ∈ statement.generated, N name)
    (h : AreClear N T ops) : AreClear N T (.code statement :: ops) :=
  (areClear_code hs).append h

end

end Op

open Op (AreClear areClear_nil areClear_write areClear_code)

/-! ## The rules -/

/-- A judgement on steps that can be proved part by part. `N` holds of the names that the basic steps
give. -/
structure IsLogic (N : String → Prop) (J : ∀ {α : Type}, (α → Prop) → Lower α → Prop) : Prop where
  pure : ∀ {α : Type} {Q : α → Prop} {a : α}, Q a → J Q (pure a)
  throw : ∀ {α : Type} {Q : α → Prop} (e : Error), J Q (throw e : Lower α)
  bind : ∀ {α β : Type} {P : α → Prop} {Q : β → Prop} {x : Lower α} {f : α → Lower β}, J P x →
    (∀ a, P a → J Q (f a)) → J Q (x >>= f)
  generateName : ∀ hint, J N (generateName hint)
  importName : ∀ source binding hint, J N (importName source binding hint)
  /-- A tag in use is imported at once. -/
  useTag : ∀ request hint, J N (do useTag request; Render.importName request .default hint)
  macroFunction : ∀ name, J N (macroFunction name)
  takeKey : J (fun _ => True) takeKey
  defineComponent : ∀ code, J (fun _ => True) (defineComponent code)

namespace IsLogic

variable {N : String → Prop} {J : ∀ {α : Type}, (α → Prop) → Lower α → Prop}

theorem imp (h : IsLogic N J) {P Q : α → Prop} {x : Lower α} (hx : J P x) (himp : ∀ a, P a → Q a) :
    J Q x := by
  rw [← bind_pure x]
  exact h.bind hx fun a ha => h.pure (himp a ha)

theorem any (h : IsLogic N J) {P : α → Prop} {x : Lower α} (hx : J P x) : J (fun _ => True) x :=
  h.imp hx fun _ _ => trivial

theorem checkExpression (h : IsLogic N J) (env : Env) (location : Location) (text : String) :
    J (fun _ => True) (checkExpression env location text) := by
  unfold Render.checkExpression
  split
  · exact h.pure trivial
  · exact h.throw _

theorem checkAttributes (h : IsLogic N J) (env : Env) (location : Location) (t : Tag) :
    J (fun _ => True) (checkAttributes env location t) := by
  unfold Render.checkAttributes
  split
  · exact h.pure trivial
  · exact h.checkExpression env _ _

end IsLogic

/-! ## Lowering -/

/-- Both ways to lower the children of a tag are as the judgement says. -/
structure Inner.IsClear (inner : Inner) (N : String → Prop) (T : Tag → Bool)
    (J : ∀ {α : Type}, (α → Prop) → Lower α → Prop) : Prop where
  content : J (AreClear N T) inner.content
  inputs : ∀ slot, J (fun r => (∀ name ∈ r.1, N name) ∧ AreClear N T r.2) (inner.inputs slot)

namespace IsLogic

variable {N : String → Prop} {T : Tag → Bool} {J : ∀ {α : Type}, (α → Prop) → Lower α → Prop}
  {env : Env} {inner : Inner}

theorem standardText (h : IsLogic N J) (options : Options) (m : Marks) (v : String) :
    J (AreClear N T) (standardText options m v) := by
  apply h.pure
  split_ifs
  · exact areClear_nil
  · exact areClear_write _
  · exact areClear_code fun _ hname => (List.not_mem_nil hname).elim

theorem lowerLeaf (h : IsLogic N J) (htext : ∀ m v, J (AreClear N T) (env.text m v)) (m : Marks)
    (l : Leaf) : J (AreClear N T) (lowerLeaf env m l) := by
  have hif {c : Prop} [Decidable c] {a b : List LoweredOp} (ha : AreClear N T a)
      (hb : AreClear N T b) : AreClear N T (if c then a else b) := by
    split
    · exact ha
    · exact hb
  have hcode {statement : Statement} (hs : statement.generated = []) :
      AreClear N T [.code statement] := areClear_code (by simp [hs])
  cases l with
  | documentType v | declaration v => exact h.pure (hif (areClear_write _) areClear_nil)
  | cdata v => exact h.pure (hif (areClear_write _) (hcode rfl))
  | text v => exact htext m v
  | comment v => exact h.pure (hif areClear_nil (hif (areClear_write _) (hcode rfl)))
  | placeholder expression escape =>
    show J _ (lowerPlaceholder env expression escape)
    unfold lowerPlaceholder
    split
    · exact h.pure (hif areClear_nil (hif (areClear_write _) (hcode rfl)))
    · dsimp only
      have hhelper {helper : String} (hN : N helper) :
          AreClear N T [.code (.writeValue helper expression)] :=
        areClear_code (List.forall_mem_singleton.mpr hN)
      split_ifs
      · exact h.bind (h.importName _ _ _) fun helper hN => h.pure (hhelper hN)
      · exact h.bind (h.importName _ _ _) fun helper hN => h.pure (hhelper hN)
      · exact h.pure (hcode rfl)
      · exact h.pure (hcode rfl)
  | scriptlet code => exact h.pure (hif areClear_nil (hcode rfl))
  | component code => exact h.bind (h.defineComponent _) fun _ _ => h.pure areClear_nil

theorem lowerSlots (h : IsLogic N J) (hinner : inner.IsClear N T J) {object : String}
    (hobject : N object) (slots : List String) :
    J (AreClear N T) (lowerSlots object inner slots) := by
  induction slots with
  | nil => exact h.pure areClear_nil
  | cons slot rest ih =>
    apply h.bind (hinner.inputs slot)
    rintro ⟨values, ops⟩ ⟨hvalues, hops⟩
    apply h.bind ih
    intro more hmore
    exact h.pure (hops.append (hmore.cons_code (List.forall_mem_cons.mpr ⟨hobject, hvalues⟩)))

theorem lowerBody (h : IsLogic N J) (hinner : inner.IsClear N T J) {object : String}
    (hobject : N object) (params : List String) (children : List Node) :
    J (AreClear N T) (lowerBody object params children inner) := by
  unfold Render.lowerBody
  split
  · exact h.pure areClear_nil
  · apply h.bind hinner.content
    intro body hbody
    have hscope : (Scope.renderBody object params).IsClear N T :=
      Scope.isClear_of_variables_eq_nil rfl (List.forall_mem_singleton.mpr hobject)
    exact h.pure (hbody.block hscope)

theorem lowerInput (h : IsLogic N J) (hinner : inner.IsClear N T J) (location : Location) (t : Tag)
    (hint : String) (children : List Node) :
    J (fun r => N r.1 ∧ AreClear N T r.2) (lowerInput env location t hint children inner) := by
  apply h.bind (h.generateName _)
  intro name hname
  refine h.bind (h.checkExpression env _ _) fun _ _ => h.bind (h.lowerSlots hinner hname _) ?_
  intro slots hslots
  apply h.bind (h.lowerBody hinner hname _ _)
  intro body hbody
  exact h.pure ⟨hname, (hslots.append hbody).cons_code (List.forall_mem_singleton.mpr hname)⟩

theorem lowerAttributes (h : IsLogic N J) (location : Location) (attributes : List Attribute) :
    J (AreClear N T) (lowerAttributes env location attributes) := by
  induction attributes with
  | nil => exact h.pure areClear_nil
  | cons a rest ih =>
    have hone : J (AreClear N T) (lowerAttribute env location a) := by
      unfold lowerAttribute
      split
      · apply h.pure
        split
        · exact areClear_nil
        · exact areClear_write _
      · refine h.bind (h.checkExpression env _ _) fun _ _ => h.bind (h.importName _ _ _) ?_
        exact fun helper hN => h.pure (areClear_code (List.forall_mem_singleton.mpr hN))
    exact h.bind hone fun ops hops => h.bind ih fun more hmore => h.pure (hops.append hmore)

theorem lowerNative (h : IsLogic N J) (hinner : inner.IsClear N T J) (m : Marks) (t : Tag)
    (name : String) (children : List Node) :
    J (AreClear N T) (lowerNative env m t name children inner) := by
  have hplain (statement : Statement) (hs : statement.generated = []) :
      ∀ name ∈ statement.generated, N name := by simp [hs]
  unfold Render.lowerNative
  split_ifs
  · rw [lowerTreeElement_eq]
    refine h.bind (h.checkAttributes env _ t) fun _ _ => h.bind h.takeKey fun key _ => ?_
    apply h.bind hinner.content
    intro content hcontent
    have hclosed := hcontent.append (areClear_code (hplain .endElement rfl))
    exact h.pure (hclosed.cons_code (hplain _ rfl))
  · exact h.pure (areClear_write _)
  · apply h.bind (h.lowerAttributes _ _)
    intro attributes hattributes
    have hstart : AreClear N T (.write ("<" ++ name) :: (attributes ++ [.write ">"])) :=
      (areClear_write _).append (hattributes.append (areClear_write _))
    split
    · exact h.pure hstart
    · apply h.bind hinner.content
      intro content hcontent
      exact h.pure ((hstart.append hcontent).append (areClear_write _))

/-! ## Loops -/

theorem paramOr (h : IsLogic N J) (params : List String) (k : Nat) (hint : String) :
    J (fun v => params[k]? = some v ∨ params[k]? = none ∧ N v) (paramOr params k hint) := by
  unfold Render.paramOr
  split
  · rename_i hsome
    exact h.pure (.inl hsome)
  · rename_i hnone
    exact h.imp (h.generateName _) fun v hN => .inr ⟨hnone, hN⟩

theorem loopScope (h : IsLogic N J) (location : Location) (t : Tag) :
    J (fun scope => ∀ b ∈ scope, b.generated = [] ∧ b.IsLoopOf N t) (loopScope env location t) := by
  -- loops with one variable and with two, each with what stands for a parameter that is missing
  have hfirst {b : Scope} {v : String} (hv : t.params[0]? = some v ∨ t.params[0]? = none ∧ N v)
      (hgenerated : b.generated = []) (hvariables : b.variables = [v]) :
      ∀ c ∈ some b, c.generated = [] ∧ c.IsLoopOf N t := by
    rintro c ⟨⟩
    refine ⟨hgenerated, fun k w hw => ?_⟩
    rw [hvariables] at hw
    cases k with
    | zero => exact Option.some.inj hw ▸ hv
    | succ k => simp at hw
  have hsecond {b : Scope} {v v' : String} (hv : t.params[0]? = some v ∨ t.params[0]? = none ∧ N v)
      (hv' : t.params[1]? = some v' ∨ t.params[1]? = none ∧ N v')
      (hgenerated : b.generated = []) (hvariables : b.variables = [v, v']) :
      ∀ c ∈ some b, c.generated = [] ∧ c.IsLoopOf N t := by
    rintro c ⟨⟩
    refine ⟨hgenerated, fun k w hw => ?_⟩
    rw [hvariables] at hw
    match k with
    | 0 => exact Option.some.inj hw ▸ hv
    | 1 => exact Option.some.inj hw ▸ hv'
    | k + 2 => simp at hw
  unfold Render.loopScope
  split
  · apply h.bind (h.checkExpression env _ _)
    intro _ _
    split
    · rename_i item index rest hparams
      rw [hparams] at hsecond
      exact h.pure (hsecond (.inl rfl) (.inl rfl) rfl rfl)
    · exact h.bind (h.paramOr t.params 0 "item") fun item hitem => h.pure (hfirst hitem rfl rfl)
  · refine h.bind (h.checkExpression env _ _) fun _ _ => h.bind (h.paramOr t.params 0 "key") ?_
    intro key hkey
    apply h.bind (h.paramOr t.params 1 "value")
    exact fun value hvalue => h.pure (hsecond hkey hvalue rfl rfl)
  · refine h.bind (h.checkExpression env _ _) fun _ _ => h.bind (h.checkExpression env _ _) ?_
    refine fun _ _ => h.bind (h.checkExpression env _ _) fun _ _ => ?_
    apply h.bind (h.paramOr t.params 0 "i")
    exact fun counter hcounter => h.pure (hfirst hcounter rfl rfl)
  · exact h.pure fun b hb => by simp at hb

theorem staticName_of_kindOf_eq_loop {t : Tag} (hkind : env.kindOf t = .loop) :
    t.staticName = some "for" := by
  obtain ⟨name | expression, attributes, arguments, params⟩ := t
  · have hname : name = "for" := by
      have hother : env.kindOfName name ≠ .loop := by
        unfold Env.kindOfName
        split_ifs
        · simp
        · simp
        · split <;> simp
      unfold Env.kindOf at hkind
      dsimp only at hkind
      split_ifs at hkind with _ _ _ _ hfor _
      · exact beq_iff_eq.mp hfor
      · exact absurd hkind hother
    rw [hname]
    rfl
  · cases hkind

/-! ## Nodes -/

theorem lowerTag (h : IsLogic N J) (hinner : inner.IsClear N T J) (m : Marks) {t : Tag}
    (ht : T t = true) (children : List Node) :
    J (AreClear N T) (lowerTag env m t children inner) := by
  have hcontent {scope : Scope} (hscope : scope.IsClear N T) :
      J (AreClear N T) (do let body ← inner.content; Pure.pure [Op.block scope body]) :=
    h.bind hinner.content fun body hbody => h.pure (hbody.block hscope)
  have hplain {scope : Scope} (hnil : scope.variables = []) (hs : scope.generated = []) :
      scope.IsClear N T := Scope.isClear_of_variables_eq_nil hnil (by simp [hs])
  unfold Render.lowerTag
  cases hkind : env.kindOf t with
  | dynamic target =>
    refine h.bind (h.checkExpression env _ _) fun _ _ => h.bind (h.lowerInput hinner _ _ _ _) ?_
    rintro ⟨input, ops⟩ ⟨hinput, hops⟩
    apply h.bind (h.importName _ _ _)
    intro helper hhelper
    have hnames : ∀ name ∈ [helper, input], N name := by simp [hhelper, hinput]
    exact h.bind h.takeKey fun key _ => h.pure (hops.append (areClear_code hnames))
  | slot => exact h.pure areClear_nil
  | ifTrue | elseIfTrue => exact h.bind (h.checkExpression env _ _) fun _ _ => hcontent (hplain rfl rfl)
  | otherwise => exact hcontent (hplain rfl rfl)
  | loop =>
    apply h.bind (h.loopScope _ _)
    intro scope hscope
    apply h.bind hinner.content
    intro body hbody
    cases scope with
    | none => exact h.pure hbody
    | some b =>
      obtain ⟨hgenerated, hloop⟩ := hscope b rfl
      have hclear : b.IsClear N T := ⟨by simp [hgenerated], fun _ =>
        ⟨t, ht, staticName_of_kindOf_eq_loop hkind, hloop⟩⟩
      exact h.pure (hbody.block hclear)
  | macroDefinition =>
    show J _ (lowerMacroDefinition t inner)
    unfold lowerMacroDefinition
    split
    · apply h.bind (h.macroFunction _)
      intro function hfunction
      exact hcontent (Scope.isClear_of_variables_eq_nil rfl (List.forall_mem_singleton.mpr hfunction))
    · exact h.pure areClear_nil
  | macroCall name =>
    apply h.bind (h.macroFunction _)
    intro function hfunction
    apply h.bind (h.lowerInput hinner _ _ _ _)
    rintro ⟨input, ops⟩ ⟨hinput, hops⟩
    have hnames : ∀ name ∈ [function, input], N name := by simp [hfunction, hinput]
    exact h.pure (hops.append (areClear_code hnames))
  | native name => exact h.lowerNative hinner m t name children
  | custom name request =>
    have huse := h.useTag request name
    show J _ (lowerCustom env m.location t name request children inner)
    unfold lowerCustom
    -- the use of the tag and its import are one step of the logic
    rw [← bind_assoc]
    apply h.bind huse
    intro template htemplate
    apply h.bind (h.lowerInput hinner _ _ _ _)
    rintro ⟨input, ops⟩ ⟨hinput, hops⟩
    apply h.bind (h.importName _ _ _)
    intro helper hhelper
    have hnames : ∀ name ∈ [helper, template, input], N name := by simp [hhelper, htemplate, hinput]
    exact h.bind h.takeKey fun key _ => h.pure (hops.append (areClear_code hnames))

variable (env) in
/-- All of lowering is as the judgement says, if the tags are as `T` says. -/
theorem lower (h : IsLogic N J) (htext : ∀ m v, J (AreClear N T) (env.text m v)) :
    (∀ n : Node, n.all (fun t _ => T t) = true → J (AreClear N T) (lower env n) ∧
      ∀ slot, J (fun r => (∀ name ∈ r.1, N name) ∧ AreClear N T r.2) (inputs env slot n)) ∧
    ∀ ns : List Node, Node.allIn (fun t _ => T t) ns = true → J (AreClear N T) (lowerAll env ns) ∧
      ∀ slot, J (fun r => (∀ name ∈ r.1, N name) ∧ AreClear N T r.2) (inputsAll env slot ns) := by
  have hnone : (∀ name ∈ ([] : List String), N name) ∧ AreClear N T [] :=
    ⟨fun _ hn => (List.not_mem_nil hn).elim, areClear_nil⟩
  apply Node.induct
  case leaf => exact fun m l _ => ⟨h.lowerLeaf htext m l, fun slot => h.pure hnone⟩
  case tag =>
    intro m t children ih hall
    rw [Node.all, Bool.and_eq_true] at hall
    obtain ⟨hcontent, hinputs⟩ := ih hall.2
    have hinner : Inner.IsClear
        ⟨Render.lowerAll env children, fun slot => inputsAll env slot children⟩ N T J :=
      ⟨hcontent, hinputs⟩
    refine ⟨h.lowerTag hinner m hall.1 children, fun slot => ?_⟩
    rw [inputs]
    split
    · apply h.bind (h.lowerInput hinner _ _ _ _)
      rintro ⟨name, ops⟩ ⟨hname, hops⟩
      exact h.pure ⟨List.forall_mem_singleton.mpr hname, hops⟩
    · exact h.pure hnone
  case nil => exact fun _ => ⟨h.pure areClear_nil, fun slot => h.pure hnone⟩
  case cons =>
    intro n ns ihn ihns hall
    rw [Node.allIn, Bool.and_eq_true] at hall
    obtain ⟨hlower, hinputs⟩ := ihn hall.1
    obtain ⟨hlowerAll, hinputsAll⟩ := ihns hall.2
    refine ⟨h.bind hlower fun ops hops => h.bind hlowerAll fun more hmore =>
      h.pure (hops.append hmore), fun slot => ?_⟩
    apply h.bind (hinputs slot)
    rintro ⟨names, ops⟩ ⟨hnames, hops⟩
    apply h.bind (hinputsAll slot)
    rintro ⟨more, moreOps⟩ ⟨hmore, hmoreOps⟩
    refine h.pure ⟨fun name hname => ?_, hops.append hmoreOps⟩
    exact (List.mem_append.mp hname).elim (hnames name) (hmore name)

end IsLogic

/-! ## What runs that succeed keep -/

theorem outcome_importName (source : String) (binding : Binding) (hint : String) (s : State) :
    outcome (importName source binding hint) s =
      match s.imports.find? source binding with
      | some name => (.ok name, s)
      | none => (.ok (s.names.fresh hint),
          { s with
            names := s.names.reserve (s.names.fresh hint)
            imports := ⟨s.imports.entries ++ [⟨source, binding, s.names.fresh hint⟩]⟩ }) := by
  show ((.ok (s.imports.request s.names source binding hint).1, _) : Except Error String × State) = _
  unfold Imports.request
  cases s.imports.find? source binding <;> rfl

theorem Imports.mem_entries_of_find? {i : Imports} {source name : String} {binding : Binding}
    (h : i.find? source binding = some name) : ⟨source, binding, name⟩ ∈ i.entries := by
  obtain ⟨e, he, rfl⟩ := Option.map_eq_some_iff.mp h
  have hexport := List.find?_some he
  simp only [Bool.and_eq_true, beq_iff_eq] at hexport
  obtain ⟨rfl, rfl⟩ := hexport
  exact List.mem_of_find?_eq_some he

/-- An export that is asked for has a name already, or it gets a new one. -/
theorem importName_cases {source hint name : String} {binding : Binding} {s t : State}
    (h : outcome (importName source binding hint) s = (.ok name, t)) :
    (t = s ∧ ⟨source, binding, name⟩ ∈ s.imports.entries) ∨
      (name = s.names.fresh hint ∧ t = { s with
        names := s.names.reserve (s.names.fresh hint)
        imports := ⟨s.imports.entries ++ [⟨source, binding, s.names.fresh hint⟩]⟩ }) := by
  rw [outcome_importName] at h
  cases hfind : s.imports.find? source binding with
  | some known =>
    rw [hfind] at h
    cases h
    exact .inl ⟨rfl, Imports.mem_entries_of_find? hfind⟩
  | none =>
    rw [hfind] at h
    cases h
    exact .inr ⟨rfl, rfl⟩

/-- A run that succeeds from a state which `P` holds of leads to another one, and its value is as `Q`
says. -/
def Ensures (P : State → Prop) (Q : α → Prop) (x : Lower α) : Prop :=
  ∀ s a t, P s → outcome x s = (.ok a, t) → P t ∧ Q a

section

variable {P : State → Prop}

theorem ensures_pure {Q : α → Prop} {a : α} (h : Q a) : Ensures P Q (pure a) := by
  intro s b t hs hrun
  obtain ⟨rfl, rfl⟩ := outcome_pure_eq_ok.mp hrun
  exact ⟨hs, h⟩

theorem ensures_throw {Q : α → Prop} (e : Error) : Ensures P Q (throw e : Lower α) := by
  intro s a t _ hrun
  rw [outcome_throw] at hrun
  cases hrun

theorem ensures_bind {Q : α → Prop} {Q' : β → Prop} {x : Lower α} {f : α → Lower β}
    (hx : Ensures P Q x) (hf : ∀ a, Q a → Ensures P Q' (f a)) : Ensures P Q' (x >>= f) := by
  intro s b t hs hrun
  obtain ⟨a, u, ha, hb⟩ := outcome_bind_eq_ok.mp hrun
  obtain ⟨hu, hQ⟩ := hx s a u hs ha
  exact hf a hQ u b t hu hb

theorem ensures_get {Q : α → Prop} {f : State → Lower α} (h : ∀ s, P s → Ensures P Q (f s)) :
    Ensures P Q (MonadState.get >>= f) := fun s a t hs hrun => h s hs s a t hs hrun

end

end TemplateCompiler.Render
