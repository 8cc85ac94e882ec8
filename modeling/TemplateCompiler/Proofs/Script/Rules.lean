import TemplateCompiler.Proofs.Script.Alongside

/-!
# Rules side by side

Each rule for expressions reads the same in two texts that go on with the same plain tokens
(`follows_ofDepth`), and a deeper grammar reads what a shallower one does.
-/

namespace TemplateCompiler.Script.Grammar

/-- The rules for expressions read the same side by side, the second ones at least as deeply as the first, and no
argument starts with a semicolon. -/
structure Rules.Follows (k : Stop) (g g' : Rules) : Prop where
  assignment : ∀ c, Grammar.Follows k (Near k true) (g.assignment c) (g'.assignment c)
  assignment_semicolon : ∀ c r, r.token = .symbol ";" → g.assignment c r = Option.none
  binary : ∀ c min, Grammar.Follows k (Near k false) (g.binary c min) (g'.binary c min)
  unary : ∀ c, Grammar.Follows k (Near k false) (g.unary c) (g'.unary c)
  construct : ∀ c, Grammar.Follows k (Near k false) (g.construct c) (g'.construct c)

section

variable {k : Stop} {start : Bool} {α : Type}

/-! ## Lists -/

theorem commaItems_semicolon {close : String} (hclose : close ≠ ";") {item : Parser α}
    (hitem : ∀ r, r.token = .symbol ";" → item r = none) (steps : Nat) {r : Reader} (hr : r.token = .symbol ";") :
    commaItems close item steps r = none := by
  cases steps with
  | zero => rfl
  | succ steps => simp [commaItems, hr, hclose.symm, hitem r hr]

theorem follows_commaItems {close : String} (hclose : close ≠ ";") {item item' : Parser α}
    (hfollows : Follows k (Near k true) item item') (hitem : ∀ r, r.token = .symbol ";" → item r = none)
    {n n' : Nat} (hn : n ≤ n') :
    Follows k (Near k true) (commaItems close item n) (commaItems close item' n') := by
  induction n generalizing n' with
  | zero => exact follows_failure
  | succ n ih =>
    obtain ⟨n', rfl⟩ : ∃ l, n' = l + 1 := ⟨n' - 1, by omega⟩
    refine Follows.of_inside ?_ (follows_stopped fun r hr => commaItems_semicolon hclose hitem _ hr)
    refine follows_atSymbol_inside close fun closes => ?_
    refine follows_ite (follows_pure _).inside (follows_bind hfollows.inside fun x => ?_)
    refine Follows.of_inside (follows_eatSymbol_inside "," ?_ ?_) (follows_stopped fun r hr => ?_)
    · refine Follows.of_inside (follows_atSymbol_inside close fun closes => ?_) (follows_stopped fun r hr => ?_)
      · exact follows_ite (follows_pure _).inside (follows_bind (ih (by omega)).inside fun _ => follows_pure _)
      · simp [hr, hclose.symm, commaItems_semicolon hclose hitem, -bind_pure_comp]
    · exact follows_atSymbol_inside close fun closes => follows_guard _ (follows_pure _).inside
    · simp [hr, eatSymbol_apply, hclose.symm, -bind_pure_comp]

/-- A list in brackets. -/
theorem follows_bracketed {opening close : String} (hopening : startsArgument (.symbol opening))
    (hopening' : opening ≠ ";") (hclose : close ≠ ";") {item item' : Parser α}
    (hfollows : Follows k (Near k true) item item') (hitem : ∀ r, r.token = .symbol ";" → item r = none) :
    Follows k (Near k start) (bracketed opening close item) (bracketed opening close item') := by
  refine follows_expectSymbol hopening' ?_
  rw [hopening]
  refine follows_remaining fun n n' hn => ?_
  refine follows_bind (follows_commaItems hclose hfollows hitem hn) fun x => ?_
  exact follows_expectSymbol hclose (follows_pure _)

variable {g g' : Rules}

theorem spreadable_semicolon (hg : g.Follows k g') (c : Context) (r : Reader) (hr : r.token = .symbol ";") :
    spreadable g c r = none := by
  simp [spreadable, eatSymbol_apply, hr, hg.assignment_semicolon, -bind_pure_comp]

theorem follows_spreadable (hg : g.Follows k g') (c : Context) :
    Follows k (Near k true) (spreadable g c) (spreadable g' c) := by
  refine follows_eatSymbol (by decide) ?_ (hg.assignment _)
  exact follows_bind (hg.assignment _) fun _ => follows_pure _

theorem follows_callArguments (hg : g.Follows k g') (c : Context) :
    Follows k (Near k start) (callArguments g c) (callArguments g' c) := by
  refine follows_bind (follows_bracketed (by decide) (by decide) (by decide) ?_ ?_) fun x => follows_pure _
  · exact follows_spreadable hg c
  · exact spreadable_semicolon hg c

/-- Where the first reader does not come to the semicolon, arguments with commas before them are the same. -/
theorem repeatWhile_comma_inside {item item' : Parser α} (hfollows : Follows k (Near k true) item item') {n n' : Nat}
    (hn : n ≤ n') {r r' m : Reader} (h : Near k false r r') {xs : List α}
    (hrun : repeatWhile (eatSymbol ",") item n r = some (xs, m)) (hm : m.token ≠ .symbol ";") :
    ∃ m', repeatWhile (eatSymbol ",") item' n' r' = some (xs, m') ∧ Alongside k false m m' := by
  induction n generalizing n' r r' xs with
  | zero => cases hrun
  | succ n ih =>
    obtain ⟨n', rfl⟩ : ∃ l, n' = l + 1 := ⟨n' - 1, by omega⟩
    obtain h | h := h
    · obtain ⟨more, l, hmore, hrest⟩ := bind_eq_some_iff.mp hrun
      rw [eatSymbol_apply] at hmore
      by_cases htoken : r.token = .symbol ","
      · rw [if_pos htoken] at hmore
        obtain ⟨⟨⟨⟩, l⟩, hl, heq⟩ := Option.map_eq_some_iff.mp hmore
        cases heq
        obtain ⟨x, l₂, hx, hrest⟩ := bind_eq_some_iff.mp hrest
        obtain ⟨ys, l₃, hys, hrest⟩ := bind_eq_some_iff.mp hrest
        cases hrest
        obtain ⟨l', hl', hnear⟩ := h.advance hl
        rw [htoken] at hnear
        obtain ⟨l₂', hx', hnear₂⟩ := hfollows hnear hx
        obtain ⟨m', hys', hm'⟩ := ih (Nat.le_of_succ_le_succ hn) hnear₂ hys
        refine ⟨m', ?_, hm'⟩
        rw [repeatWhile, bind_apply, eatSymbol_apply, h.token_eq, if_pos htoken, hl']
        exact bind_eq_some_iff.mpr ⟨x, l₂', hx', bind_eq_some_iff.mpr ⟨ys, m', hys', rfl⟩⟩
      · rw [if_neg htoken] at hmore
        cases hmore
        cases hrest
        refine ⟨r', ?_, h.weaken⟩
        rw [repeatWhile, bind_apply, eatSymbol_apply, h.token_eq, if_neg htoken]
        rfl
    · simp [repeatWhile, eatSymbol_apply, h.token_eq, -bind_pure_comp] at hrun
      exact absurd (hrun.2 ▸ h.token_eq) hm

/-- Where the first reader does not come to the semicolon, expressions are the same. -/
theorem expression_inside (hg : g.Follows k g') (c : Context) {r r' m : Reader} (h : Near k true r r') {e : Expr}
    (hrun : g.expression c r = some (e, m)) (hm : m.token ≠ .symbol ";") :
    ∃ m', g'.expression c r' = some (e, m') ∧ Alongside k false m m' := by
  obtain ⟨first, l, hfirst, hrest⟩ := bind_eq_some_iff.mp hrun
  obtain ⟨l', hfirst', hl⟩ := hg.assignment c h hfirst
  refine (?_ : ∃ m', _ ∧ _).imp fun m' hm' => ⟨bind_eq_some_iff.mpr ⟨first, l', hfirst', hm'.1⟩, hm'.2⟩
  rw [bind_apply, atSymbol_apply, Option.bind_some] at hrest ⊢
  obtain hinside | hstopped := hl
  · rw [hinside.token_eq]
    split at hrest
    · rename_i hcomma
      rw [if_pos hcomma]
      rw [bind_apply, remaining_apply, Option.bind_some] at hrest ⊢
      obtain ⟨rest, l₂, hrest, heq⟩ := bind_eq_some_iff.mp hrest
      cases heq
      obtain ⟨m', hrest', hm'⟩ := repeatWhile_comma_inside (hg.assignment c)
        (Nat.add_le_add_right hinside.length_le 2) (.inl hinside) hrest hm
      exact ⟨m', bind_eq_some_iff.mpr ⟨rest, m', hrest', rfl⟩, hm'⟩
    · rename_i hcomma
      rw [if_neg hcomma]
      cases hrest
      exact ⟨l', rfl, hinside⟩
  · rw [hstopped.token_eq] at hrest
    cases hrest
    exact absurd hstopped.token_eq hm

/-- An expression in brackets. -/
theorem follows_expression_closed (hg : g.Follows k g') (c : Context) {close : String} (hclose : close ≠ ";")
    {f f' : Expr → Parser α} (hf : ∀ e, Follows k (Near k false) (f e) (f' e)) :
    Follows k (Near k true) (g.expression c >>= fun e => expectSymbol close >>= fun _ => f e)
      (g'.expression c >>= fun e => expectSymbol close >>= fun _ => f' e) := by
  intro r r' h x m hrun
  obtain ⟨e, l, he, hrest⟩ := bind_eq_some_iff.mp hrun
  have hl : l.token ≠ .symbol ";" := by
    intro heq
    rw [bind_apply, expectSymbol_apply, heq, if_neg (by simpa using hclose.symm)] at hrest
    cases hrest
  obtain ⟨l', he', hnear⟩ := expression_inside hg c h he hl
  have hclosed : Follows k (Near k false) (expectSymbol close >>= fun _ => f e)
      (expectSymbol close >>= fun _ => f' e) := follows_expectSymbol hclose (hf e).near
  obtain ⟨m', hm', hnear'⟩ := hclosed (.inl hnear) hrest
  exact ⟨m', bind_eq_some_iff.mpr ⟨e, l', he', hm'⟩, hnear'⟩

/-! ## Operands -/

theorem follows_identifier (c : Context) : Follows k (Near k start) (identifier c) (identifier c) := by
  refine follows_peek (fun t _ => ?_) (fun s _ => follows_failure)
  split
  · exact follows_guard _ (follows_advance (follows_pure _))
  · exact follows_failure

theorem follows_nameOperand (c : Context) : Follows k (Near k start) (nameOperand c) (nameOperand c) :=
  follows_bind (follows_identifier c) fun _ => follows_pure _

theorem follows_arrayLiteral (hg : g.Follows k g') (c : Context) :
    Follows k (Near k start) (arrayLiteral g c) (arrayLiteral g' c) := by
  refine follows_bind (follows_bracketed (by decide) (by decide) (by decide) ?_ ?_) fun x => follows_pure _
  · refine Follows.of_inside (follows_atSymbol_inside "," fun b => ?_) (follows_stopped fun r hr => ?_)
    · exact follows_ite (follows_pure _).inside (follows_spreadable hg c).inside
    · simp [hr, spreadable_semicolon hg c]
  · intro r hr
    simp [hr, spreadable_semicolon hg c]

theorem follows_parenthesized (hg : g.Follows k g') (c : Context) :
    Follows k (Near k start) (parenthesized g c) (parenthesized g' c) := by
  refine follows_bind (follows_bracketed (by decide) (by decide) (by decide) (hg.assignment _) ?_) fun x => ?_
  · exact hg.assignment_semicolon _
  · refine follows_guard _ ?_
    split
    · exact follows_failure
    · exact follows_pure _
    · exact follows_pure _

/-- No plain word starts a function. -/
theorem atFunction_of_isPlain {w : String} (hw : isPlain (.name w false)) {r : Reader}
    (hr : r.token = .name w false) : atFunction r = some (false, r) := by
  have hfunction : w ≠ "function" ∧ w ≠ "async" := by
    constructor <;> rintro rfl <;> exact absurd hw (by decide)
  simp [atFunction, atAsyncFunction, hr, hfunction]

theorem follows_wordOperand (hg : g.Follows k g') (c : Context) {w : String} (hw : isPlain (.name w false)) :
    Follows k (At k start (.name w false)) (wordOperand g c w) (wordOperand g' c w) := by
  refine follows_answer (x := false) (fun r r' h => ?_) ?_
  · exact ⟨atFunction_of_isPlain hw h.2, atFunction_of_isPlain hw (h.1.token_eq.trans h.2)⟩
  rw [if_neg Bool.false_ne_true, if_neg Bool.false_ne_true]
  split
  · exact follows_advance (follows_pure _)
  · exact follows_advance (follows_pure _)
  · exact follows_advance (follows_pure _)
  · exact follows_advance (follows_pure _)
  · exact absurd hw (by decide)
  · exact follows_advance (hg.construct c)
  · exact absurd hw (by decide)
  · exact absurd hw (by decide)
  · exact (follows_nameOperand c).at

theorem follows_operand (hg : g.Follows k g') (c : Context) :
    Follows k (Near k start) (operand g c) (operand g' c) := by
  refine follows_peek (fun t ht => ?_) (fun s _ => follows_failure)
  split
  · rename_i w escaped
    cases escaped with
    | true => exact (follows_nameOperand c).at
    | false => exact follows_wordOperand hg c ht
  · exact follows_advance (follows_pure _)
  · exact follows_advance (follows_pure _)
  · exact follows_advance (follows_pure _)
  · cases ht
  · exact (follows_parenthesized hg c).at
  · exact (follows_arrayLiteral hg c).at
  · exact absurd ht (by decide)
  · exact absurd ht (by decide)
  · rename_i s _ _ _ _
    split
    · rename_i hs
      obtain hs | hs := Bool.or_eq_true_iff.mp hs <;> exact absurd (eq_of_beq hs ▸ ht) (by decide)
    · exact follows_failure
  · exact follows_failure

/-! ## Members and calls -/

theorem follows_dotMember (base : Expr) (optional : Bool) :
    Follows k (Near k start) (dotMember base optional) (dotMember base optional) := by
  refine follows_peek (fun t ht => ?_) (fun s _ => follows_failure)
  split
  · exact follows_advance (follows_pure _)
  · exact follows_advance (follows_pure _)
  · exact follows_failure

theorem follows_indexMember (hg : g.Follows k g') (c : Context) (base : Expr) (optional : Bool) :
    Follows k (Near k start) (indexMember g c base optional) (indexMember g' c base optional) :=
  follows_expectSymbol (by decide) (follows_expression_closed hg _ (by decide) fun _ => follows_pure _)

theorem follows_optionalMember (hg : g.Follows k g') (c : Context) (base : Expr) :
    Follows k (Near k start) (optionalMember g c base) (optionalMember g' c base) := by
  have hdot : Follows k (Near k start) (dotMember base true) (dotMember base true) := follows_dotMember base true
  refine follows_peek (fun t ht => ?_) (forall_stops hdot.stopped hdot.stopped hdot.stopped hdot.stopped)
  split
  · exact follows_ite follows_failure (follows_indexMember hg c base true).at
  · exact (follows_bind (follows_callArguments hg c) fun _ => follows_pure _).at
  · exact (follows_dotMember base true).at

theorem follows_applied (hg : g.Follows k g') (c : Context) (tail : Tail) {n n' : Nat} (hn : n ≤ n') (base : Expr)
    (inChain : Bool) :
    Follows k (Near k start) (applied g c tail n base inChain) (applied g' c tail n' base inChain) := by
  induction n generalizing n' base inChain start with
  | zero => exact follows_failure
  | succ n ih =>
    obtain ⟨n', rfl⟩ : ∃ l, n' = l + 1 := ⟨n' - 1, by omega⟩
    have hn' : n ≤ n' := by omega
    have hrest (p p' : Parser Expr) (hp : Follows k (Near k start) p p') (inChain : Bool) :
        Follows k (Near k start) (do applied g c tail n (← p) inChain)
          (do applied g' c tail n' (← p') inChain) :=
      follows_bind hp fun e => ih hn' e inChain
    have hpure : Follows k (Near k start) (pure (base, inChain)) (pure (base, inChain)) := follows_pure _
    refine follows_peek (fun t ht => ?_) (forall_stops hpure.stopped hpure.stopped hpure.stopped hpure.stopped)
    split
    · exact follows_advance (follows_bind (follows_dotMember base false) fun e => ih hn' e inChain)
    · exact follows_ite hpure.at (hrest _ _ (follows_indexMember hg c base false) inChain).at
    · refine follows_guard _ (follows_advance ?_)
      exact follows_bind (follows_optionalMember hg c base) fun e => ih hn' e true
    · cases ht
    · refine follows_ite ?_ hpure.at
      exact (follows_bind (follows_callArguments hg c) fun es => ih hn' _ inChain).at
    · exact hpure.at

theorem follows_calleeRule (hg : g.Follows k g') (c : Context) :
    Follows k (Near k start) (calleeRule g c) (calleeRule g' c) := by
  refine follows_bind (follows_operand hg c) fun base => follows_remaining fun n n' hn => ?_
  exact follows_bind (follows_applied hg c _ hn base false) fun x => follows_pure _

theorem follows_constructRule (hg : g.Follows k g') (c : Context) :
    Follows k (Near k start) (constructRule g c) (constructRule g' c) := by
  refine follows_eatSymbol (by decide) (follows_expectWord _ (follows_pure _)) ?_
  refine follows_atWord _ fun b => follows_guard _ ?_
  refine follows_bind (follows_operand hg c) fun base => follows_remaining fun n n' hn => ?_
  refine follows_bind (follows_applied hg c _ hn base false) fun x => follows_atSymbol (by decide) fun b => ?_
  refine follows_ite ?_ (follows_pure _)
  exact follows_bind (follows_callArguments hg c) fun es => follows_pure _

/-! ## Operators -/

/-- An operand with the operator behind it, if there is one. -/
def postfixed (e : Expr) : Parser Expr := do
  if let some op := updateOperator? (← peek) then
    if !(← onNewLine) then
      advance
      return .update op false (← simpleTarget e)
  return e

theorem follows_updated (hg : g.Follows k g') (c : Context) :
    Follows k (Near k start) (updated g c) (updated g' c) := by
  have hpure (e : Expr) : Follows k (Near k false) (pure e) (pure e) := follows_pure e
  have hbehind : Follows k (Near k start) (calleeRule g c >>= postfixed) (calleeRule g' c >>= postfixed) := by
    refine follows_bind (follows_calleeRule hg c) fun e => follows_peek (fun t ht => ?_) ?_
    · split
      · refine follows_onNewLine fun b => follows_ite (follows_advance ?_) (hpure e).at
        exact follows_simpleTarget e fun target => follows_pure _
      · exact (hpure e).at
    · exact forall_stops (hpure e).stopped (hpure e).stopped (hpure e).stopped (hpure e).stopped
  refine follows_peek (fun t ht => ?_) ?_
  · split
    · refine follows_advance (follows_bind (hg.unary c).near fun e => ?_)
      exact follows_simpleTarget e fun target => follows_pure _
    · exact hbehind.at
  · exact forall_stops hbehind.stopped hbehind.stopped hbehind.stopped hbehind.stopped

theorem follows_unaryRule (hg : g.Follows k g') (c : Context) :
    Follows k (Near k start) (unaryRule g c) (unaryRule g' c) := by
  have hoperator (e : Expr) : Follows k (Near k false) (do
      guard (!(← atSymbol "**"))
      pure e) (do
      guard (!(← atSymbol "**"))
      pure e) :=
    follows_atSymbol (by decide) fun b => follows_guard _ (follows_pure _)
  have hrest : Follows k (Near k start)
      (do
        if ← atAwait c then
          advance
          let e ← g.unary c
          guard (!(← atSymbol "**"))
          return .await e
        updated g c)
      (do
        if ← atAwait c then
          advance
          let e ← g'.unary c
          guard (!(← atSymbol "**"))
          return .await e
        updated g' c) := by
    refine follows_answer (x := false) (fun r r' h => ?_) (follows_updated hg c)
    obtain ⟨hr, hr'⟩ := h.ne_special (w := "await") (by decide) false
    simp [atAwait, hr, hr']
  refine follows_peek (fun t ht => ?_) ?_
  · split
    · exact follows_advance (follows_bind (hg.unary c).near fun e => hoperator (.unary _ e))
    · exact hrest.at
  · exact forall_stops hrest.stopped hrest.stopped hrest.stopped hrest.stopped

theorem follows_binaryRest (hg : g.Follows k g') (c : Context) (min : Nat) {n n' : Nat} (hn : n ≤ n') (left : Expr) :
    Follows k (Near k start) (binaryRest g c min n left) (binaryRest g' c min n' left) := by
  induction n generalizing n' left start with
  | zero => exact follows_failure
  | succ n ih =>
    obtain ⟨n', rfl⟩ : ∃ l, n' = l + 1 := ⟨n' - 1, by omega⟩
    have hpure : Follows k (Near k start) (pure left) (pure left) := follows_pure _
    refine follows_peek (fun t ht => ?_) (forall_stops hpure.stopped hpure.stopped hpure.stopped hpure.stopped)
    split
    · exact hpure.at
    · refine follows_ite (follows_advance ?_) hpure.at
      refine follows_bind (hg.binary c _).near fun right => follows_guard _ ?_
      exact ih (by omega) _

theorem follows_binaryRule (hg : g.Follows k g') (c : Context) (min : Nat) :
    Follows k (Near k start) (binaryRule g c min) (binaryRule g' c min) := by
  have hoperand : Follows k (Near k start) (do
      let left ← unaryRule g c
      binaryRest g c min (← remaining) left) (do
      let left ← unaryRule g' c
      binaryRest g' c min (← remaining) left) :=
    follows_bind (follows_unaryRule hg c) fun left => follows_remaining fun n n' hn =>
      follows_binaryRest hg c min hn left
  refine follows_peek (fun t ht => ?_) ?_
  · split
    · cases ht
    · exact hoperand.at
  · exact forall_stops hoperand.stopped hoperand.stopped hoperand.stopped hoperand.stopped

/-! ## Assignments -/

theorem follows_arrowBody (hg : g.Follows k g') (c : Context) (isAsync : Bool) (ps : List Pattern) :
    Follows k (Near k true) (arrowBody g c isAsync ps) (arrowBody g' c isAsync ps) := by
  refine follows_atSymbol_special (by decide) (by decide) ?_
  exact follows_bind (hg.assignment _) fun e => follows_pure _

theorem follows_conditionalRest (hg : g.Follows k g') (c : Context) (test : Expr) :
    Follows k (Near k start) (conditionalRest g c test) (conditionalRest g' c test) := by
  refine follows_eatSymbol (by decide) ?_ (follows_pure _)
  refine follows_bind (hg.assignment _) fun yes => follows_expectSymbol (by decide) ?_
  exact follows_bind (hg.assignment _) fun no => follows_pure _

theorem follows_simpleArrow (hg : g.Follows k g') (c : Context) (isAsync : Bool) (name : String) {t : Token} :
    Follows k (At k start t) (simpleArrow g c isAsync name) (simpleArrow g' c isAsync name) := by
  simp only [simpleArrow, expectArrow, bind_assoc]
  refine follows_onNewLine fun newline => follows_guard _ ?_
  exact (follows_expectSymbol (by decide) (follows_arrowBody hg c isAsync _)).at

theorem follows_assignedOrChosen (hg : g.Follows k g') (c : Context) :
    Follows k (Near k start) (assignedOrChosen g c) (assignedOrChosen g' c) := by
  refine follows_bind (follows_binaryRule hg c 0) fun left => ?_
  have hchosen : Follows k (Near k false) (conditionalRest g c left) (conditionalRest g' c left) :=
    follows_conditionalRest hg c left
  refine follows_peek (fun t ht => ?_) ?_
  · split
    · exact follows_simpleArrow hg c false _
    · refine follows_patternOf left fun target => follows_advance ?_
      exact follows_bind (hg.assignment c) fun value => follows_pure _
    · split
      · rename_i op _ _ hop
        have hstart : startsArgument (.symbol op) := by
          simp only [startsArgument, hop, Bool.or_true]
        refine follows_simpleTarget left fun target => follows_advance ?_
        rw [hstart]
        exact follows_bind (hg.assignment c) fun value => follows_pure _
      · exact hchosen.at
    · exact hchosen.at
  · refine forall_stops ?_ ?_ ?_ ?_ <;> cases left <;> exact hchosen.stopped

/-- A reader at a parenthesis that cannot open parameters. -/
theorem guessArrow_paren {r : Reader} {t : Token} {newline : Bool} {rest : List Char}
    (hr : r.token = .symbol "(") (hnext : nextToken r.rest = some (t, newline, rest))
    (ht : ∀ s, t = .symbol s → s ∉ [")", "[", "\x7b", "..."])
    (hthird : isNameToken t → ∃ t' newline' rest', nextToken rest = some (t', newline', rest') ∧
      ∀ s, t' = .symbol s → s ∉ [",", "=", ")"]) :
    lookAhead guessArrow .no r = some (.no, r) := by
  have hguess : ∃ m, guessAfterParen ⟨t, newline, rest, r.covers⟩ = some (.no, m) := by
    rw [guessAfterParen, bind_apply, peek_apply, Option.bind_some]
    dsimp only
    split
    · exact absurd (by decide) (ht ")" rfl)
    · exact absurd (by decide) (ht "[" rfl)
    · exact absurd (by decide) (ht "\x7b" rfl)
    · exact absurd (by decide) (ht "..." rfl)
    · split
      · rename_i hname
        obtain ⟨t', newline', rest', hnext', ht'⟩ := hthird hname
        rw [bind_apply, advance_apply, hnext', Option.map_some, Option.bind_some, bind_apply, peek_apply,
          Option.bind_some]
        cases t' with
        | symbol s =>
          have hs := ht' s rfl
          simp_all
        | _ => exact ⟨_, rfl⟩
      · exact ⟨_, rfl⟩
  obtain ⟨m, hm⟩ := hguess
  have hrun : guessArrow r = some (.no, m) := by
    simp [guessArrow, eatSymbol_apply, advance_apply, hr, hnext, hm]
  rw [lookAhead, hrun]

/-- No argument starts like the parameters of an arrow function. -/
theorem Near.guessArrow {r r' : Reader} (h : Near k true r r') :
    lookAhead guessArrow .no r = some (.no, r) ∧ lookAhead guessArrow .no r' = some (.no, r') := by
  obtain ⟨hasync, hasync'⟩ := h.ne_special (w := "async") (by decide) false
  by_cases hparen : r.token = .symbol "("
  · obtain h | h := h
    · obtain ⟨ts, hplain, hagree⟩ := h.exists_tokens
      have hresemble : resembleParameters ts = false := by
        cases hts : resembleParameters ts with
        | false => rfl
        | true => simp [arePlain, hparen, hts] at hplain
      cases hagree with
      | ended => simp [resembleParameters] at hresemble
      | @more _ _ rest rest' t ts newline hr hr' _ hagree =>
        have ht (s : String) (heq : t = .symbol s) : s ∉ [")", "[", "\x7b", "..."] := by
          subst heq
          simpa [resembleParameters] using hresemble
        -- if the token behind the parenthesis is a name, the guess goes by the one behind that
        have hthird (hname : isNameToken t) : ∃ t' newline' rest₂ rest₂',
            nextToken rest = some (t', newline', rest₂) ∧ nextToken rest' = some (t', newline', rest₂') ∧
              ∀ s, t' = .symbol s → s ∉ [",", "=", ")"] := by
          cases hagree with
          | ended => cases t <;> simp_all [resembleParameters, isNameToken]
          | more hr hr' _ _ =>
            refine ⟨_, _, _, _, hr, hr', ?_⟩
            rintro s rfl
            cases t <;> simp_all [resembleParameters, isNameToken]
        constructor
        · refine guessArrow_paren hparen hr ht fun hname => ?_
          obtain ⟨t', newline', rest₂, -, hnext, -, hs⟩ := hthird hname
          exact ⟨t', newline', rest₂, hnext, hs⟩
        · refine guessArrow_paren (h.token_eq.trans hparen) hr' ht fun hname => ?_
          obtain ⟨t', newline', -, rest₂, -, hnext, hs⟩ := hthird hname
          exact ⟨t', newline', rest₂, hnext, hs⟩
    · simp [h.token_eq] at hparen
  · have hparen' : r'.token ≠ .symbol "(" := mt (h.atSymbol (by decide)).mp hparen
    simp [lookAhead, Grammar.guessArrow, eatSymbol_apply, hasync, hasync', hparen, hparen']

theorem follows_assignmentRule (hg : g.Follows k g') (c : Context) :
    Follows k (Near k true) (assignmentRule g c) (assignmentRule g' c) := by
  refine follows_answer (x := false) (fun r r' h => ?_) ?_
  · obtain ⟨hr, hr'⟩ := h.ne_special (w := "yield") (by decide) false
    simp [atYield, hr, hr']
  refine follows_answer (x := .no) (fun r r' h => h.guessArrow) ?_
  refine follows_answer (x := false) (fun r r' h => ?_) ?_
  · obtain ⟨hr, hr'⟩ := h.ne_special (w := "async") (by decide) false
    simp [lookAhead, atAsyncArrow, hr, hr']
  exact follows_assignedOrChosen hg c

/-- No argument starts with one of these symbols. -/
theorem assignmentRule_none (c : Context) {s : String} (hs : s ∈ [")", ";", "..."]) (r : Reader)
    (hr : r.token = .symbol s) : assignmentRule g c r = none := by
  have hoperand : operand g c r = none := by
    rw [operand, bind_apply, peek_apply, hr]
    simp only [List.mem_cons, List.not_mem_nil, or_false] at hs
    obtain rfl | rfl | rfl := hs <;> rfl
  have hcallee : calleeRule g c r = none := by
    rw [calleeRule, bind_apply, hoperand]
    rfl
  have hparen : s ≠ "(" ∧ unaryOperator? (.symbol s) = none ∧ updateOperator? (.symbol s) = none := by
    clear hoperand hr
    revert s
    decide
  have hunary : unaryRule g c r = none := by
    simp [unaryRule, updated, atAwait, hr, hparen, hcallee]
  have hbinary : binaryRule g c 0 r = none := by
    simp [binaryRule, hr, hunary]
  simp [assignmentRule, atYield, lookAhead, guessArrow, atAsyncArrow, eatSymbol_apply, assignedOrChosen, hr, hparen,
    hbinary]

end

/-- Rules of any depth read the same as deeper ones. -/
theorem follows_ofDepth (k : Stop) {depth depth' : Nat} (h : depth ≤ depth') :
    (Rules.ofDepth depth).Follows k (Rules.ofDepth depth') := by
  induction depth generalizing depth' with
  | zero =>
    exact ⟨fun _ => follows_failure, fun _ _ _ => rfl, fun _ _ => follows_failure, fun _ => follows_failure,
      fun _ => follows_failure⟩
  | succ depth ih =>
    obtain ⟨depth', rfl⟩ : ∃ l, depth' = l + 1 := ⟨depth' - 1, by omega⟩
    have hg := ih (Nat.le_of_succ_le_succ h)
    exact
      { assignment := follows_assignmentRule hg
        assignment_semicolon := fun c => assignmentRule_none c (by decide)
        binary := follows_binaryRule hg
        unary := follows_unaryRule hg
        construct := follows_constructRule hg }

end TemplateCompiler.Script.Grammar
