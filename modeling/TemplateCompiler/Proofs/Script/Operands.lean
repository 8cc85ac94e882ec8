import Mathlib.Data.Option.Basic
import TemplateCompiler.Script.Parser

/-!
# Operands

What the rules for expressions read binds as tightly as the place asks for: the arguments of a call are no
sequences, and the right operand of an operator binds more tightly than the operator
(`reads_separates_expression`). The other way round, an expression that binds more tightly than an operator is
read by the rule for the operands of that operator, where the rule for arguments reads it
(`assignmentRule_climb`). For both, a judgement on parsers is proved rule by rule (`Reads`).
-/

namespace TemplateCompiler.Script

/-! ## How tightly expressions bind -/

/-- How tightly an expression binds: a sequence not at all, an assignment, a choice and an arrow function more
loosely than each binary operator, and an operand with what is applied to it most tightly. -/
def Expr.level : Expr → Nat
  | .sequence _ => 0
  | .assign _ _ _ | .conditional _ _ _ | .arrow _ _ _ | .arrowTo _ _ _ | .yield _ _ => 1
  | .binary op _ _ => 1 + (Grammar.precedence? op).getD 0
  | _ => 14

mutual

/-- The arguments of a call are no sequences, and what stands to the right of an operator other than a power
binds more tightly than the operator. -/
def Expr.Separates : Expr → Prop
  | .call _ arguments _ => Expr.AreSeparate arguments
  | .binary op _ right => ∀ level < 12, Grammar.precedence? op = some level → 1 + level < right.level
  | _ => True
termination_by structural e => e

/-- None of the arguments is a sequence, and they separate their own operands. -/
def Expr.AreSeparate : List Expr → Prop
  | [] => True
  | e :: es => 0 < e.level ∧ e.Separates ∧ Expr.AreSeparate es
termination_by structural es => es

end

theorem Expr.areSeparate_of_forall {es : List Expr} (h : ∀ e ∈ es, 0 < e.level ∧ e.Separates) :
    Expr.AreSeparate es := by
  induction es with
  | nil => trivial
  | cons e es ih =>
    have he := h e List.mem_cons_self
    exact ⟨he.1, he.2, ih fun e he => h e (List.mem_cons_of_mem _ he)⟩

namespace Grammar

/-! ## Primitive steps -/

section

variable {α β : Type} (r : Reader)

@[simp] theorem pure_apply (a : α) : (pure a : Parser α) r = some (a, r) := rfl

@[simp] theorem bind_apply (p : Parser α) (f : α → Parser β) : (p >>= f) r = (p r).bind fun x => f x.1 x.2 := by
  show (p r >>= fun (a, m) => f a m) = _
  cases p r <;> rfl

theorem map_apply (f : α → β) (p : Parser α) : (f <$> p) r = (p r).map fun x => (f x.1, x.2) := by
  show (p r).bind _ = _
  cases p r <;> rfl

@[simp] theorem guard_apply (c : Prop) [Decidable c] :
    (guard c : Parser Unit) r = if c then some ((), r) else none := by
  unfold guard
  split <;> rfl

@[simp] theorem peek_apply : peek r = some (r.token, r) := rfl

@[simp] theorem onNewLine_apply : onNewLine r = some (r.newline, r) := rfl

@[simp] theorem remaining_apply : remaining r = some (r.rest.length + 2, r) := rfl

theorem advance_apply :
    advance r = (nextToken r.rest).map fun x => ((), { r with token := x.1, newline := x.2.1, rest := x.2.2 }) := by
  show (nextToken r.rest >>= fun x => some ((), { r with token := x.1, newline := x.2.1, rest := x.2.2 })) = _
  cases nextToken r.rest <;> rfl

theorem advance_of_nextToken {t : Token} {newline newline' : Bool} {cs cs' : List Char} {k : Nat}
    (hnext : nextToken cs = some (t, newline', cs')) (t' : Token) :
    advance ⟨t', newline, cs, k⟩ = some ((), ⟨t, newline', cs', k⟩) := by
  rw [advance_apply, hnext]
  rfl

@[simp] theorem atSymbol_apply (s : String) : atSymbol s r = some (decide (r.token = .symbol s), r) := by
  cases r with
  | mk token newline rest covers => cases token <;> simp [atSymbol]; rfl

@[simp] theorem atWord_apply (w : String) : atWord w r = some (decide (r.token = .name w false), r) := by
  cases r with
  | mk token newline rest covers =>
    cases token with
    | name text escaped => cases escaped <;> simp [atWord]; rfl
    | _ => simp [atWord]

theorem eatSymbol_apply (s : String) :
    eatSymbol s r = if r.token = .symbol s then (advance r).map fun x => (true, x.2) else some (false, r) := by
  simp only [eatSymbol, bind_apply, atSymbol_apply, Option.bind_some]
  split
  · simp_all
    cases advance r <;> rfl
  · simp_all

theorem expectSymbol_apply (s : String) :
    expectSymbol s r = if r.token = .symbol s then advance r else none := by
  simp only [expectSymbol, bind_apply, atSymbol_apply, Option.bind_some, guard_apply]
  split <;> simp_all

end

/-! ## What parsers come to -/

variable {α β : Type}

theorem bind_eq_some_iff {p : Parser α} {f : α → Parser β} {r r' : Reader} {b : β} :
    (p >>= f) r = some (b, r') ↔ ∃ a m, p r = some (a, m) ∧ f a m = some (b, r') := by
  show (p r >>= fun (a, m) => f a m) = _ ↔ _
  cases p r with
  | none => simp
  | some x => exact ⟨fun hf => ⟨x.1, x.2, rfl, hf⟩, fun ⟨a, m, heq, hf⟩ => by cases heq; exact hf⟩

theorem eq_of_guard {p : Prop} [Decidable p] {r m : Reader} {u : Unit} (h : (guard p : Parser Unit) r = some (u, m)) :
    r = m := by
  rw [guard_apply] at h
  split at h
  · cases h
    rfl
  · cases h

/-- `Q` holds of what the parser reads, wherever it starts. -/
def Reads (Q : α → Prop) (p : Parser α) : Prop := ∀ r a r', p r = some (a, r') → Q a

theorem reads_pure {Q : α → Prop} {a : α} (h : Q a) : Reads Q (pure a) := by
  rintro r b r' ⟨⟩
  exact h

theorem reads_failure {Q : α → Prop} : Reads Q (failure : Parser α) := by
  rintro r b r' ⟨⟩

theorem reads_bind {P : α → Prop} {Q : β → Prop} {p : Parser α} {f : α → Parser β} (hp : Reads P p)
    (hf : ∀ a, P a → Reads Q (f a)) : Reads Q (p >>= f) := by
  intro r b r' h
  obtain ⟨a, m, ha, hb⟩ := bind_eq_some_iff.mp h
  exact hf a (hp r a m ha) m b r' hb

theorem reads_bind_any {Q : β → Prop} {p : Parser α} {f : α → Parser β} (hf : ∀ a, Reads Q (f a)) :
    Reads Q (p >>= f) :=
  reads_bind (P := fun _ => True) (fun _ _ _ _ => trivial) fun a _ => hf a

theorem reads_ite {Q : α → Prop} {c : Prop} [Decidable c] {p q : Parser α} (hp : Reads Q p)
    (hq : Reads Q q) : Reads Q (if c then p else q) := by
  split
  · exact hp
  · exact hq

/-- What holds of each item holds of all items between commas. -/
theorem reads_commaItems {Q : α → Prop} {item : Parser α} (hitem : Reads Q item) (close : String) (steps : Nat) :
    Reads (fun x => ∀ a ∈ x.1, Q a) (commaItems close item steps) := by
  induction steps with
  | zero => exact reads_failure
  | succ steps ih =>
    refine reads_bind_any fun _ => reads_ite (reads_pure (by simp)) ?_
    refine reads_bind hitem fun a ha => reads_bind_any fun _ => reads_ite ?_ ?_
    · refine reads_bind_any fun _ => reads_ite (reads_pure (by simpa using ha)) ?_
      exact reads_bind ih fun x hx => reads_pure (by simpa using ⟨ha, hx⟩)
    · exact reads_bind_any fun _ => reads_bind_any fun _ => reads_pure (by simpa using ha)

/-! ## Operands bind most tightly -/

/-- The expression binds more tightly than a level, and separates its operands. -/
def BindsAbove (level : Nat) (e : Expr) : Prop := level < e.level ∧ e.Separates

/-- The expression binds most tightly, and separates its operands. -/
def IsOperand (e : Expr) : Prop := e.level = 14 ∧ e.Separates

theorem IsOperand.bindsAbove {e : Expr} (h : IsOperand e) {level : Nat} (hlevel : level < 14) :
    BindsAbove level e :=
  ⟨h.1 ▸ hlevel, h.2⟩

/-- The expression binds more loosely than each operator, and separates its operands. -/
def IsLoose (e : Expr) : Prop := e.level = 1 ∧ e.Separates

theorem IsLoose.bindsAbove {e : Expr} (h : IsLoose e) : BindsAbove 0 e :=
  ⟨h.1 ▸ Nat.one_pos, h.2⟩

/-- The rules read what binds as tightly as their places ask for. -/
structure Rules.Binds (g : Rules) : Prop where
  assignment : ∀ c, Reads (BindsAbove 0) (g.assignment c)
  binary : ∀ c, ∀ min < 12, Reads (BindsAbove (1 + min)) (g.binary c min)
  construct : ∀ c, Reads IsOperand (g.construct c)

section

variable {α : Type} {g : Rules}

/-- No argument is a sequence. -/
theorem reads_areSeparate_callArguments (hg : g.Binds) (c : Context) :
    Reads Expr.AreSeparate (callArguments g c) := by
  have hargument : Reads (BindsAbove 0) (spreadable g c) := by
    refine reads_bind_any fun _ => reads_ite ?_ (hg.assignment _)
    exact reads_bind_any fun operand => reads_pure ⟨Nat.zero_lt_succ 13, trivial⟩
  refine reads_bind (P := fun x => ∀ e ∈ x.1, BindsAbove 0 e) ?_ fun x hx =>
    reads_pure (Expr.areSeparate_of_forall hx)
  refine reads_bind_any fun _ => reads_bind_any fun steps => ?_
  exact reads_bind (reads_commaItems hargument ")" steps) fun x hx => reads_bind_any fun _ => reads_pure hx

theorem reads_isOperand_nameOperand (c : Context) : Reads IsOperand (nameOperand c) :=
  reads_bind_any fun _ => reads_pure ⟨rfl, trivial⟩

theorem reads_isOperand_wordOperand (hg : g.Binds) (c : Context) (w : String) :
    Reads IsOperand (wordOperand g c w) := by
  unfold wordOperand
  refine reads_bind_any fun isFunction => reads_ite (reads_bind_any fun f => reads_pure ⟨rfl, trivial⟩) ?_
  split
  · exact reads_bind_any fun _ => reads_pure ⟨rfl, trivial⟩
  · exact reads_bind_any fun _ => reads_pure ⟨rfl, trivial⟩
  · exact reads_bind_any fun _ => reads_pure ⟨rfl, trivial⟩
  · exact reads_bind_any fun _ => reads_pure ⟨rfl, trivial⟩
  · exact reads_bind_any fun _ => reads_pure ⟨rfl, trivial⟩
  · exact reads_bind_any fun _ => hg.construct c
  · exact reads_bind_any fun _ => reads_bind_any fun _ => reads_bind_any fun _ => reads_pure ⟨rfl, trivial⟩
  · refine reads_bind_any fun _ => reads_bind_any fun _ => reads_ite ?_ ?_
    · exact reads_bind_any fun _ => reads_pure ⟨rfl, trivial⟩
    · exact reads_bind_any fun r => reads_bind_any fun _ => reads_pure ⟨rfl, trivial⟩
  · exact reads_isOperand_nameOperand c

theorem reads_isOperand_regexLiteral : Reads IsOperand regexLiteral := by
  refine reads_bind_any fun r => ?_
  dsimp only
  split
  -- whichever token the literal starts with, what is scanned is the same
  all_goals
    refine reads_bind_any fun text => ?_
    split
    · exact reads_bind_any fun _ => reads_bind_any fun _ => reads_pure ⟨rfl, trivial⟩
    · exact reads_failure

theorem reads_isOperand_operand (hg : g.Binds) (c : Context) : Reads IsOperand (operand g c) := by
  refine reads_bind_any fun token => ?_
  split
  · exact reads_ite (reads_isOperand_nameOperand c) (reads_isOperand_wordOperand hg c _)
  · exact reads_bind_any fun _ => reads_pure ⟨rfl, trivial⟩
  · exact reads_bind_any fun _ => reads_pure ⟨rfl, trivial⟩
  · exact reads_bind_any fun _ => reads_pure ⟨rfl, trivial⟩
  · exact reads_bind_any fun r => reads_bind_any fun _ => reads_pure ⟨rfl, trivial⟩
  · refine reads_bind_any fun r => reads_bind_any fun _ => ?_
    split
    · exact reads_failure
    · exact reads_pure ⟨rfl, trivial⟩
    · exact reads_pure ⟨rfl, trivial⟩
  · exact reads_bind_any fun r => reads_pure ⟨rfl, trivial⟩
  · exact reads_bind_any fun r => reads_pure ⟨rfl, trivial⟩
  · exact reads_bind_any fun ds => reads_bind_any fun _ => reads_pure ⟨rfl, trivial⟩
  · exact reads_ite reads_isOperand_regexLiteral reads_failure
  · exact reads_failure

theorem reads_isOperand_dotMember (base : Expr) (optional : Bool) :
    Reads IsOperand (dotMember base optional) := by
  refine reads_bind_any fun token => ?_
  split
  · exact reads_bind_any fun _ => reads_pure ⟨rfl, trivial⟩
  · exact reads_bind_any fun _ => reads_pure ⟨rfl, trivial⟩
  · exact reads_failure

theorem reads_isOperand_indexMember (c : Context) (base : Expr) (optional : Bool) :
    Reads IsOperand (indexMember g c base optional) :=
  reads_bind_any fun _ => reads_bind_any fun _ => reads_bind_any fun _ => reads_pure ⟨rfl, trivial⟩

theorem reads_isOperand_optionalMember (hg : g.Binds) (c : Context) (base : Expr) :
    Reads IsOperand (optionalMember g c base) := by
  refine reads_bind_any fun token => ?_
  split
  · exact reads_ite reads_failure (reads_isOperand_indexMember c base true)
  · exact reads_bind (reads_areSeparate_callArguments hg c) fun es hes => reads_pure ⟨rfl, hes⟩
  · exact reads_isOperand_dotMember base true

theorem reads_isOperand_applied (hg : g.Binds) (c : Context) (tail : Tail) (steps : Nat) {base : Expr}
    (hbase : IsOperand base) (inChain : Bool) :
    Reads (fun x => IsOperand x.1) (applied g c tail steps base inChain) := by
  induction steps generalizing base inChain with
  | zero => exact reads_failure
  | succ steps ih =>
    refine reads_bind_any fun token => ?_
    split
    · exact reads_bind_any fun _ => reads_bind (reads_isOperand_dotMember base false) fun e he => ih he _
    · refine reads_ite (reads_pure hbase) ?_
      exact reads_bind (reads_isOperand_indexMember c base false) fun e he => ih he _
    · refine reads_bind_any fun _ => reads_bind_any fun _ => ?_
      exact reads_bind (reads_isOperand_optionalMember hg c base) fun e he => ih he _
    · exact reads_bind_any fun _ => reads_bind_any fun x =>
        ih (show IsOperand (.tagged base x.1 x.2) from ⟨rfl, trivial⟩) _
    · refine reads_ite ?_ (reads_pure hbase)
      exact reads_bind (reads_areSeparate_callArguments hg c) fun es hes =>
        ih (show IsOperand (.call base es false) from ⟨rfl, hes⟩) _
    · exact reads_pure hbase

theorem reads_isOperand_calleeRule (hg : g.Binds) (c : Context) :
    Reads IsOperand (calleeRule g c) := by
  refine reads_bind (reads_isOperand_operand hg c) fun base hbase => reads_bind_any fun steps => ?_
  refine reads_bind (reads_isOperand_applied hg c _ steps hbase false) fun x hx => reads_pure ?_
  split
  · exact ⟨rfl, trivial⟩
  · exact hx

theorem reads_isOperand_constructRule (c : Context) : Reads IsOperand (constructRule g c) := by
  refine reads_bind_any fun _ => reads_ite ?_ ?_
  · exact reads_bind_any fun _ => reads_pure ⟨rfl, trivial⟩
  · refine reads_bind_any fun _ => reads_bind_any fun _ => reads_bind_any fun base => ?_
    refine reads_bind_any fun steps => reads_bind_any fun x => reads_bind_any fun _ => ?_
    refine reads_ite ?_ ?_
    · exact reads_bind_any fun _ => reads_pure ⟨rfl, trivial⟩
    · exact reads_bind_any fun _ => reads_pure ⟨rfl, trivial⟩

theorem reads_isOperand_updated (hg : g.Binds) (c : Context) : Reads IsOperand (updated g c) := by
  refine reads_bind_any fun token => ?_
  split
  · exact reads_bind_any fun _ => reads_bind_any fun e => reads_bind_any fun _ => reads_pure ⟨rfl, trivial⟩
  · refine reads_bind (reads_isOperand_calleeRule hg c) fun e he => reads_bind_any fun token => ?_
    split
    · refine reads_bind_any fun newline => reads_ite ?_ (reads_pure he)
      exact reads_bind_any fun _ => reads_bind_any fun _ => reads_pure ⟨rfl, trivial⟩
    · exact reads_pure he

theorem reads_isOperand_unaryRule (hg : g.Binds) (c : Context) : Reads IsOperand (unaryRule g c) := by
  refine reads_bind_any fun token => ?_
  split
  · exact reads_bind_any fun _ => reads_bind_any fun _ => reads_bind_any fun _ =>
      reads_bind_any fun _ => reads_pure ⟨rfl, trivial⟩
  · refine reads_bind_any fun isAwait => reads_ite ?_ (reads_isOperand_updated hg c)
    exact reads_bind_any fun _ => reads_bind_any fun _ => reads_bind_any fun _ =>
      reads_bind_any fun _ => reads_pure ⟨rfl, trivial⟩

/-! ## Binary operators -/

theorem precedence?_of_binaryOperator? {c : Context} {token : Token} {op : String} {level : Nat}
    (h : binaryOperator? c token = some (op, level)) : precedence? op = some level := by
  have hmap {s : String} (h : (precedence? s).map (s, ·) = some (op, level)) :
      precedence? op = some level := by
    obtain ⟨n, hn, heq⟩ := Option.map_eq_some_iff.mp h
    cases heq
    exact hn
  unfold binaryOperator? at h
  split at h
  · exact hmap h
  · split at h
    · exact hmap h
    · cases h
  · cases h

/-- What binds more tightly than an operator still does behind operators that do. -/
theorem reads_bindsAbove_binaryRest (hg : g.Binds) (c : Context) {min : Nat} (hmin : min < 12) (steps : Nat)
    {left : Expr} (hleft : BindsAbove (1 + min) left) :
    Reads (BindsAbove (1 + min)) (binaryRest g c min steps left) := by
  induction steps generalizing left with
  | zero => exact reads_failure
  | succ steps ih =>
    refine reads_bind_any fun token => ?_
    split
    · exact reads_pure hleft
    · rename_i op level hop
      have hop' := precedence?_of_binaryOperator? hop
      split
      · rename_i habove
        have hlevel : 1 + min < 1 + level := by
          unfold bindsAbove at habove
          split at habove
          · rename_i hpower
            rw [eq_of_beq hpower] at hop'
            have hlevel : level = 12 := (Option.some.inj hop').symm
            omega
          · have := of_decide_eq_true habove
            omega
        have hright : Reads (fun e => level < 12 → 1 + level < e.level) (g.binary c level) :=
          fun r e r' h hlt => (hg.binary c level hlt r e r' h).1
        refine reads_bind_any fun _ => reads_bind hright fun right hright => reads_bind_any fun _ => ih ⟨?_, ?_⟩
        · rw [Expr.level, hop']
          exact hlevel
        · intro n hn h
          cases hop'.symm.trans h
          exact hright hn
      · exact reads_pure hleft

theorem reads_bindsAbove_binaryRule (hg : g.Binds) (c : Context) {min : Nat} (hmin : min < 12) :
    Reads (BindsAbove (1 + min)) (binaryRule g c min) := by
  refine reads_bind_any fun token => ?_
  split
  · rename_i name
    refine reads_bind_any fun _ => reads_bind_any fun _ => reads_bind_any fun _ => ?_
    refine reads_bind_any fun right => reads_bind_any fun steps => ?_
    have hleft : IsOperand (.privateIn name right) := ⟨rfl, trivial⟩
    exact reads_bindsAbove_binaryRest hg c hmin steps (hleft.bindsAbove (by omega))
  · refine reads_bind (reads_isOperand_unaryRule hg c) fun left hleft => reads_bind_any fun steps => ?_
    exact reads_bindsAbove_binaryRest hg c hmin steps (hleft.bindsAbove (by omega))

/-! ## Assignments -/

theorem reads_isLoose_arrowBody (c : Context) (isAsync : Bool) (ps : List Pattern) :
    Reads IsLoose (arrowBody g c isAsync ps) := by
  refine reads_bind_any fun _ => reads_ite ?_ ?_
  · exact reads_bind_any fun _ => reads_pure ⟨rfl, trivial⟩
  · exact reads_bind_any fun _ => reads_pure ⟨rfl, trivial⟩

theorem reads_isLoose_simpleArrow (c : Context) (isAsync : Bool) (name : String) :
    Reads IsLoose (simpleArrow g c isAsync name) :=
  reads_bind_any fun _ => reads_isLoose_arrowBody c isAsync _

theorem reads_isLoose_arrowRule (c : Context) : Reads IsLoose (arrowRule g c) :=
  reads_bind_any fun _ => reads_bind_any fun _ => reads_isLoose_arrowBody c _ _

theorem reads_isLoose_yieldRule (c : Context) : Reads IsLoose (yieldRule g c) := by
  have hvalue (delegate : Bool) (value : Option Expr) : Reads IsLoose (pure (.yield delegate value)) :=
    reads_pure ⟨rfl, trivial⟩
  refine reads_bind_any fun _ => reads_bind_any fun _ => reads_ite (hvalue _ _) ?_
  refine reads_bind_any fun _ => reads_bind_any fun _ => reads_ite (hvalue _ _) ?_
  exact reads_bind_any fun _ => hvalue _ _

theorem conditionalRest_cases (c : Context) {left e : Expr} {r m : Reader}
    (h : conditionalRest g c left r = some (e, m)) : IsLoose e ∨ (e = left ∧ m = r) := by
  obtain ⟨more, r₁, hmore, h⟩ := bind_eq_some_iff.mp h
  split at h
  · have hreads : Reads IsLoose (do
        let yes ← g.assignment { c with allowsIn := true }
        expectSymbol ":"
        let no ← g.assignment c
        pure (.conditional left yes no)) :=
      reads_bind_any fun _ => reads_bind_any fun _ => reads_bind_any fun _ => reads_pure ⟨rfl, trivial⟩
    exact .inl (hreads _ _ _ h)
  · rename_i hfalse
    cases h
    rw [eatSymbol_apply] at hmore
    split at hmore
    · obtain ⟨x, -, heq⟩ := Option.map_eq_some_iff.mp hmore
      cases heq
      exact absurd rfl hfalse
    · cases hmore
      exact .inr ⟨rfl, rfl⟩

/-- An assignment or a choice is loose; everything else is left to the rule for operators. -/
theorem assignedOrChosen_cases (c : Context) {r m : Reader} {e : Expr} (h : assignedOrChosen g c r = some (e, m)) :
    IsLoose e ∨ binaryRule g c 0 r = some (e, m) := by
  obtain ⟨left, r₁, hleft, h⟩ := bind_eq_some_iff.mp h
  obtain ⟨t, r₂, hpeek, h⟩ := bind_eq_some_iff.mp h
  obtain rfl : r₁ = r₂ := by
    cases hpeek
    rfl
  clear hpeek
  have hchosen (h : conditionalRest g c left r₁ = some (e, m)) :
      IsLoose e ∨ binaryRule g c 0 r = some (e, m) := by
    obtain hloose | ⟨rfl, rfl⟩ := conditionalRest_cases c h
    · exact .inl hloose
    · exact .inr hleft
  split at h
  · exact .inl (reads_isLoose_simpleArrow c false _ _ _ _ h)
  · have hreads : Reads IsLoose (do
        let target ← patternOf left
        advance
        pure (.assign "=" target (← g.assignment c))) :=
      reads_bind_any fun _ => reads_bind_any fun _ => reads_bind_any fun _ => reads_pure ⟨rfl, trivial⟩
    exact .inl (hreads _ _ _ h)
  · split at h
    · have hreads (op : String) : Reads IsLoose (do
          let target ← simpleTarget left
          advance
          pure (.assign op (.target target) (← g.assignment c))) :=
        reads_bind_any fun _ => reads_bind_any fun _ => reads_bind_any fun _ => reads_pure ⟨rfl, trivial⟩
      exact .inl (hreads _ _ _ _ h)
    · exact hchosen h
  · exact hchosen h

theorem reads_bindsAbove_assignedOrChosen (hg : g.Binds) (c : Context) :
    Reads (BindsAbove 0) (assignedOrChosen g c) := by
  intro r e m h
  obtain hloose | hbinary := assignedOrChosen_cases c h
  · exact hloose.bindsAbove
  · have hbinds := reads_bindsAbove_binaryRule hg c (by decide) r e m hbinary
    exact ⟨Nat.zero_lt_of_lt hbinds.1, hbinds.2⟩

theorem eq_of_lookAhead {p : Parser α} {fallback a : α} {r m : Reader} (h : lookAhead p fallback r = some (a, m)) :
    m = r := by
  unfold lookAhead at h
  split at h <;> cases h <;> rfl

theorem eq_of_atYield {c : Context} {b : Bool} {r m : Reader} (h : atYield c r = some (b, m)) : m = r := by
  have hsecond {x : Bool} {r m : Reader} (h : beforeOperand r = some (x, m)) : m = r := by
    obtain ⟨y, r₁, hpeek, h⟩ := bind_eq_some_iff.mp h
    cases h
    obtain ⟨s, r₂, hget, hpeek⟩ := bind_eq_some_iff.mp hpeek
    cases hget
    cases hnext : nextToken r.rest <;> simp only [hnext] at hpeek <;> cases hpeek <;> rfl
  obtain ⟨isWord, r₁, hword, h⟩ := bind_eq_some_iff.mp h
  rw [atWord_apply] at hword
  cases hword
  split at h
  · split at h
    · cases h
      rfl
    · obtain ⟨before, r₂, hbefore, h⟩ := bind_eq_some_iff.mp h
      obtain ⟨u, r₃, hguard, h⟩ := bind_eq_some_iff.mp h
      cases h
      rw [← eq_of_guard hguard, hsecond hbefore]
  · cases h
    rfl

/-- A function or a yielded value is loose; everything else is left to the rule for assignments. -/
theorem assignmentRule_cases (c : Context) {r m : Reader} {e : Expr} (h : assignmentRule g c r = some (e, m)) :
    IsLoose e ∨ assignedOrChosen g c r = some (e, m) := by
  obtain ⟨yields, r₁, hyields, h⟩ := bind_eq_some_iff.mp h
  cases eq_of_atYield hyields
  split at h
  · exact .inl (reads_isLoose_yieldRule c _ _ _ h)
  obtain ⟨guess, r₂, hguess, h⟩ := bind_eq_some_iff.mp h
  cases eq_of_lookAhead hguess
  split at h
  · exact .inl (reads_isLoose_arrowRule c _ _ _ h)
  · obtain ⟨isArrow, r₃, hlook, h⟩ := bind_eq_some_iff.mp h
    cases eq_of_lookAhead hlook
    split at h
    · exact .inl (reads_isLoose_arrowRule c _ _ _ h)
    · exact .inr h
  · obtain ⟨isArrow, r₃, hlook, h⟩ := bind_eq_some_iff.mp h
    cases eq_of_lookAhead hlook
    split at h
    · have hreads : Reads IsLoose (do
          advance
          let name ← identifier { c with allowsAwait := true }
          simpleArrow g c true name) :=
        reads_bind_any fun _ => reads_bind_any fun name => reads_isLoose_simpleArrow c true name
      exact .inl (hreads _ _ _ h)
    · exact .inr h

/-- The rule for an argument reads no sequence. -/
theorem reads_bindsAbove_assignmentRule (hg : g.Binds) (c : Context) :
    Reads (BindsAbove 0) (assignmentRule g c) := by
  intro r e m h
  obtain hloose | hchosen := assignmentRule_cases c h
  · exact hloose.bindsAbove
  · exact reads_bindsAbove_assignedOrChosen hg c r e m hchosen

end

theorem binds_ofDepth (depth : Nat) : (Rules.ofDepth depth).Binds := by
  induction depth with
  | zero => exact ⟨fun _ => reads_failure, fun _ _ _ => reads_failure, fun _ => reads_failure⟩
  | succ depth ih =>
    exact
      { assignment := fun c => reads_bindsAbove_assignmentRule ih c
        binary := fun c min hmin => reads_bindsAbove_binaryRule ih c hmin
        construct := fun c => reads_isOperand_constructRule c }

theorem reads_separates_expression {g : Rules} (hg : g.Binds) (c : Context) :
    Reads Expr.Separates (g.expression c) := by
  refine reads_bind (hg.assignment c) fun first hfirst => reads_bind_any fun _ => ?_
  refine reads_ite ?_ (reads_pure hfirst.2)
  exact reads_bind_any fun _ => reads_bind_any fun rest =>
    reads_pure (show (Expr.sequence (first :: rest)).Separates from trivial)

/-! ## Levels of operators -/

/-- The next token is no operator that binds above a level. -/
def Halts (c : Context) (min : Nat) (r : Reader) : Prop :=
  ∀ op level, binaryOperator? c r.token = some (op, level) → bindsAbove op level min = false

section

variable {g : Rules} {c : Context}

theorem binaryRest_succ (min n : Nat) (left : Expr) (r : Reader) :
    binaryRest g c min (n + 1) left r =
      match binaryOperator? c r.token with
      | none => some (left, r)
      | some (op, level) =>
        if bindsAbove op level min then
          (do
            advance
            let right ← g.binary c level
            guard (!mixes op left right)
            binaryRest g c min n (.binary op left right)) r
        else some (left, r) := by
  rw [binaryRest, bind_apply, peek_apply, Option.bind_some]
  cases binaryOperator? c r.token with
  | none => rfl
  | some x =>
    dsimp only
    split <;> rfl

theorem halts_binaryRest {min n : Nat} {left e : Expr} {r m : Reader}
    (h : binaryRest g c min n left r = some (e, m)) : Halts c min m := by
  induction n generalizing left r with
  | zero => cases h
  | succ n ih =>
    rw [binaryRest_succ] at h
    split at h
    · rename_i hnone
      cases h
      intro op level hop
      rw [hnone] at hop
      cases hop
    · rename_i op level hop
      split at h
      · obtain ⟨-, r₁, -, h⟩ := bind_eq_some_iff.mp h
        obtain ⟨right, r₂, -, h⟩ := bind_eq_some_iff.mp h
        obtain ⟨-, r₃, -, h⟩ := bind_eq_some_iff.mp h
        exact ih h
      · rename_i hbelow
        cases h
        intro op' level' hop'
        cases hop.symm.trans hop'
        exact Bool.eq_false_iff.mpr hbelow

theorem halts_binaryRule {min : Nat} {e : Expr} {r m : Reader} (h : binaryRule g c min r = some (e, m)) :
    Halts c min m := by
  obtain ⟨token, r₀, -, h⟩ := bind_eq_some_iff.mp h
  split at h
  · obtain ⟨-, r₁, -, h⟩ := bind_eq_some_iff.mp h
    obtain ⟨-, r₂, -, h⟩ := bind_eq_some_iff.mp h
    obtain ⟨-, r₃, -, h⟩ := bind_eq_some_iff.mp h
    obtain ⟨right, r₄, -, h⟩ := bind_eq_some_iff.mp h
    obtain ⟨n, r₅, -, h⟩ := bind_eq_some_iff.mp h
    exact halts_binaryRest h
  · obtain ⟨left, r₁, -, h⟩ := bind_eq_some_iff.mp h
    obtain ⟨n, r₂, -, h⟩ := bind_eq_some_iff.mp h
    exact halts_binaryRest h

/-- The rules for operands of operators leave nothing that binds more tightly. -/
theorem halts_ofDepth (depth : Nat) (c : Context) {min : Nat} {e : Expr} {r m : Reader}
    (h : (Rules.ofDepth depth).binary c min r = some (e, m)) : Halts c min m := by
  cases depth with
  | zero => cases h
  | succ depth => exact halts_binaryRule h

theorem level_le_of_halts {level : Nat} {op : String} {min : Nat} (h : bindsAbove op level min = false) :
    level ≤ min := by
  unfold bindsAbove at h
  split at h <;> have := of_decide_eq_false h <;> omega

variable {depth : Nat}

/-- Behind an operator that binds loosely, the expression stays loose. -/
theorem level_le_of_binaryRest {n l : Nat} {left e : Expr} {r m : Reader} (hleft : left.level ≤ 1 + l)
    (hr : Halts c l r) (h : binaryRest (Rules.ofDepth depth) c 0 n left r = some (e, m)) : e.level ≤ 1 + l := by
  induction n generalizing left r l with
  | zero => cases h
  | succ n ih =>
    rw [binaryRest_succ] at h
    split at h
    · cases h
      exact hleft
    · rename_i op level hop
      have hlevel : level ≤ l := level_le_of_halts (hr op level hop)
      split at h
      · obtain ⟨-, r₁, -, h⟩ := bind_eq_some_iff.mp h
        obtain ⟨right, r₂, hright, h⟩ := bind_eq_some_iff.mp h
        obtain ⟨u, r₃, hmix, h⟩ := bind_eq_some_iff.mp h
        refine Nat.le_trans (ih (l := level) ?_ (eq_of_guard hmix ▸ halts_ofDepth depth c hright) h) (by omega)
        rw [Expr.level, precedence?_of_binaryOperator? hop]
        exact Nat.le_refl _
      · cases h
        exact hleft

/-- What binds above a level is read the same by the rule for operands above that level. -/
theorem binaryRest_climb {n l : Nat} {left e : Expr} {r m : Reader} (hl : 1 + l < e.level)
    (h : binaryRest (Rules.ofDepth depth) c 0 n left r = some (e, m)) (hm : Halts c l m) :
    binaryRest (Rules.ofDepth depth) c l n left r = some (e, m) := by
  induction n generalizing left r with
  | zero => cases h
  | succ n ih =>
    rw [binaryRest_succ] at h ⊢
    split at h
    · exact h
    · rename_i op level hop
      split at h
      · by_cases habove : bindsAbove op level l = true
        · rw [if_pos habove]
          obtain ⟨u, r₁, hadvance, h⟩ := bind_eq_some_iff.mp h
          obtain ⟨right, r₂, hright, h⟩ := bind_eq_some_iff.mp h
          obtain ⟨v, r₃, hmix, h⟩ := bind_eq_some_iff.mp h
          exact bind_eq_some_iff.mpr ⟨u, r₁, hadvance, bind_eq_some_iff.mpr ⟨right, r₂, hright,
            bind_eq_some_iff.mpr ⟨v, r₃, hmix, ih h⟩⟩⟩
        · obtain ⟨-, r₁, -, h⟩ := bind_eq_some_iff.mp h
          obtain ⟨right, r₂, hright, h⟩ := bind_eq_some_iff.mp h
          obtain ⟨u, r₃, hmix, h⟩ := bind_eq_some_iff.mp h
          have hlevel : level ≤ l := level_le_of_halts (Bool.eq_false_iff.mpr habove)
          have hloose := level_le_of_binaryRest ?_ (eq_of_guard hmix ▸ halts_ofDepth depth c hright) h
          · omega
          · rw [Expr.level, precedence?_of_binaryOperator? hop]
            exact Nat.le_refl _
      · cases h
        rw [if_neg (by simp [hm op level hop])]

theorem binaryRule_climb {l : Nat} {e : Expr} {r m : Reader} (hl : 1 + l < e.level)
    (h : binaryRule (Rules.ofDepth depth) c 0 r = some (e, m)) (hm : Halts c l m) :
    binaryRule (Rules.ofDepth depth) c l r = some (e, m) := by
  obtain ⟨token, r₀, hpeek, h⟩ := bind_eq_some_iff.mp h
  refine bind_eq_some_iff.mpr ⟨token, r₀, hpeek, ?_⟩
  split at h
  · obtain ⟨u, r₁, hguard, h⟩ := bind_eq_some_iff.mp h
    obtain ⟨v, r₂, hadvance, h⟩ := bind_eq_some_iff.mp h
    obtain ⟨w, r₃, hin, h⟩ := bind_eq_some_iff.mp h
    obtain ⟨right, r₄, hright, h⟩ := bind_eq_some_iff.mp h
    obtain ⟨n, r₅, hn, h⟩ := bind_eq_some_iff.mp h
    exact bind_eq_some_iff.mpr ⟨u, r₁, hguard, bind_eq_some_iff.mpr ⟨v, r₂, hadvance, bind_eq_some_iff.mpr
      ⟨w, r₃, hin, bind_eq_some_iff.mpr ⟨right, r₄, hright, bind_eq_some_iff.mpr
        ⟨n, r₅, hn, binaryRest_climb hl h hm⟩⟩⟩⟩⟩
  · obtain ⟨left, r₁, hleft, h⟩ := bind_eq_some_iff.mp h
    obtain ⟨n, r₂, hn, h⟩ := bind_eq_some_iff.mp h
    exact bind_eq_some_iff.mpr ⟨left, r₁, hleft, bind_eq_some_iff.mpr ⟨n, r₂, hn, binaryRest_climb hl h hm⟩⟩

/-- An expression that binds above an operator is read by the rule for what stands behind that. -/
theorem assignmentRule_climb {l : Nat} {e : Expr} {r m : Reader} (hlevel : 1 + l < e.level)
    (h : assignmentRule (Rules.ofDepth depth) c r = some (e, m)) (hm : Halts c l m) :
    binaryRule (Rules.ofDepth depth) c l r = some (e, m) := by
  have hloose : ¬IsLoose e := fun hloose => by
    rw [hloose.1] at hlevel
    omega
  have hchosen := (assignmentRule_cases c h).resolve_left hloose
  exact binaryRule_climb hlevel ((assignedOrChosen_cases c hchosen).resolve_left hloose) hm

end

end Grammar

end TemplateCompiler.Script
