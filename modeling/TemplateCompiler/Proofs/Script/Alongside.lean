import TemplateCompiler.Proofs.Script.Operands

/-!
# Readers side by side

Two texts may go on with the same tokens up to a place where the first one ends with a semicolon and the second
one comes to the end of an operand. What a parser reads in the first text it then reads in the second one as
well (`Follows`). The judgement has a rule for each way to put parsers together. It asks for plain tokens, which
are scanned the same whatever comes before them, and for stops, which no operand goes on with.
-/

namespace TemplateCompiler.Script.Grammar

/-! ## Plain tokens -/

/-- The words that start functions, classes and imports, and those that are operators in some places only. -/
def specialWords : List String := ["async", "await", "class", "function", "import", "super", "yield"]

/-- The symbols of blocks and classes, those that may start a regular expression, and the semicolon. -/
def specialSymbols : List String := ["\x7b", "\x7d", "@", "/", "/=", ";"]

/-- The token is a word or symbol of expressions without functions, classes, objects and templates. -/
def isPlain : Token → Bool
  | .name w _ => !specialWords.contains w
  | .number _ | .bigInt _ | .string _ => true
  | .symbol s => !specialSymbols.contains s
  | _ => false

/-- An argument, or what else is read like one, starts behind the token. -/
def startsArgument : Token → Bool
  | .symbol s => ["(", ",", "[", "?", ":", "=", "=>", "..."].contains s || assignmentOperators.contains s
  | _ => false

/-- By its first tokens, what is behind a parenthesis may turn out to be the parameters of an arrow function. -/
def resembleParameters : List Token → Bool
  | [] => true
  | .symbol s :: _ => [")", "[", "\x7b", "..."].contains s
  | [t] => isNameToken t
  | t :: .symbol s :: _ => isNameToken t && [",", "=", ")"].contains s
  | _ => false

/-- The tokens are plain, and no argument starts with a parenthesis that may open parameters. The flag tells
whether an argument starts with the first token. -/
def arePlain : Bool → List Token → Bool
  | _, [] => true
  | start, t :: ts =>
    isPlain t && !(start && t == .symbol "(" && resembleParameters ts) && arePlain (startsArgument t) ts

/-! ## Readers side by side -/

/-- The symbols that end an operand where it stands. -/
def stops : List String := [",", ")", ";", ":"]

/-- A place where an operand ends: the symbol there, and the text behind it. -/
structure Stop where
  symbol : String
  after : List Char
  isStop : symbol ∈ stops

/-- Two texts go on with the same tokens. Then the first one ends with a semicolon, and the second one comes to
the stop. -/
inductive Agree (k : Stop) : List Token → List Char → List Char → Prop
  | ended {cs cs' : List Char} {newline newline' : Bool} :
    nextToken cs = some (.symbol ";", newline, []) →
    nextToken cs' = some (.symbol k.symbol, newline', k.after) → Agree k [] cs cs'
  | more {cs cs' rest rest' : List Char} {t : Token} {ts : List Token} {newline : Bool} :
    nextToken cs = some (t, newline, rest) → nextToken cs' = some (t, newline, rest') →
    rest.length ≤ rest'.length → Agree k ts rest rest' → Agree k (t :: ts) cs cs'

/-- Two readers have the same plain tokens before them. -/
structure Alongside (k : Stop) (start : Bool) (r r' : Reader) : Prop where
  token_eq : r'.token = r.token
  newline_eq : r'.newline = r.newline
  covers_eq : r'.covers = r.covers
  length_le : r.rest.length ≤ r'.rest.length
  exists_tokens : ∃ ts, arePlain start (r.token :: ts) ∧ Agree k ts r.rest r'.rest

/-- The first reader has come to the semicolon, and the second one to the stop. -/
structure Stopped (k : Stop) (r r' : Reader) : Prop where
  token_eq : r.token = .symbol ";"
  rest_eq : r.rest = []
  token_eq' : r'.token = .symbol k.symbol
  rest_eq' : r'.rest = k.after
  covers_eq : r'.covers = r.covers

/-- Two readers go side by side, up to the stop. -/
def Near (k : Stop) (start : Bool) (r r' : Reader) : Prop := Alongside k start r r' ∨ Stopped k r r'

/-- Two readers go side by side, and the next token is given. -/
def At (k : Stop) (start : Bool) (t : Token) (r r' : Reader) : Prop := Alongside k start r r' ∧ r.token = t

/-- From readers side by side, what the first parser reads the second one reads as well, and they still go side
by side. -/
def Follows (k : Stop) {α : Type} (S : Reader → Reader → Prop) (p p' : Parser α) : Prop :=
  ∀ ⦃r r'⦄, S r r' → ∀ ⦃a m⦄, p r = some (a, m) → ∃ m', p' r' = some (a, m') ∧ Near k false m m'

section

variable {k : Stop} {start : Bool} {r r' m : Reader}

theorem arePlain_false {ts : List Token} (h : arePlain start ts) : arePlain false ts := by
  cases ts with
  | nil => rfl
  | cons t ts => simp_all [arePlain]

theorem arePlain_cons {t : Token} {ts : List Token} (h : arePlain start (t :: ts)) :
    isPlain t ∧ arePlain (startsArgument t) ts := by
  simp only [arePlain, Bool.and_eq_true] at h
  exact ⟨h.1.1, h.2⟩

theorem Alongside.weaken (h : Alongside k start r r') : Alongside k false r r' :=
  { h with exists_tokens := h.exists_tokens.imp fun _ ⟨hplain, hagree⟩ => ⟨arePlain_false hplain, hagree⟩ }

theorem Alongside.isPlain (h : Alongside k start r r') : isPlain r.token := by
  obtain ⟨ts, hplain, -⟩ := h.exists_tokens
  exact (arePlain_cons hplain).1

theorem Near.weaken (h : Near k start r r') : Near k false r r' :=
  h.imp_left Alongside.weaken

theorem At.near {t : Token} (h : At k start t r r') : Near k start r r' := .inl h.1

theorem Near.length_le (h : Near k start r r') : r.rest.length ≤ r'.rest.length := by
  obtain h | h := h
  · exact h.length_le
  · simp [h.rest_eq]

theorem forall_stops {P : String → Prop} (hcomma : P ",") (hclose : P ")") (hend : P ";") (hcolon : P ":") :
    ∀ s ∈ stops, P s := by
  simp [stops, hcomma, hclose, hend, hcolon]

/-- One step on, the readers still go side by side. -/
theorem Alongside.advance (h : Alongside k start r r') (hm : advance r = some ((), m)) :
    ∃ m', advance r' = some ((), m') ∧ Near k (startsArgument r.token) m m' := by
  obtain ⟨ts, hplain, hagree⟩ := h.exists_tokens
  rw [advance_apply] at hm ⊢
  cases hagree with
  | @ended _ _ newline newline' hr hr' =>
    -- The stop may be on another line than the semicolon: how it comes to an end is all that is the same.
    rw [hr] at hm
    cases hm
    refine ⟨⟨.symbol k.symbol, newline', k.after, r'.covers⟩, by rw [hr']; rfl, .inr ?_⟩
    exact ⟨rfl, rfl, rfl, rfl, h.covers_eq⟩
  | @more _ _ rest rest' t ts newline hr hr' hlength hagree =>
    rw [hr] at hm
    cases hm
    refine ⟨⟨t, newline, rest', r'.covers⟩, by rw [hr']; rfl, .inl ?_⟩
    exact ⟨rfl, rfl, h.covers_eq, hlength, ts, (arePlain_cons hplain).2, hagree⟩

variable {α β : Type} {p p' : Parser α} {S T : Reader → Reader → Prop}

theorem Follows.mono (h : Follows k S p p') (hS : ∀ r r', T r r' → S r r') : Follows k T p p' :=
  fun _ _ hT => h (hS _ _ hT)

theorem Follows.near (h : Follows k (Near k false) p p') : Follows k (Near k start) p p' :=
  h.mono fun _ _ => Near.weaken

theorem Follows.at {t : Token} (h : Follows k (Near k start) p p') : Follows k (At k start t) p p' :=
  h.mono fun _ _ => At.near

theorem Follows.stopped (h : Follows k (Near k start) p p') : Follows k (Stopped k) p p' :=
  h.mono fun _ _ => .inr

theorem Follows.inside (h : Follows k (Near k start) p p') : Follows k (Alongside k start) p p' :=
  h.mono fun _ _ => .inl

theorem Follows.of_inside (hinside : Follows k (Alongside k start) p p') (hstopped : Follows k (Stopped k) p p') :
    Follows k (Near k start) p p' := by
  rintro r r' (h | h) a m hrun
  · exact hinside h hrun
  · exact hstopped h hrun

/-- Nothing is to be shown where the first parser fails at the semicolon. -/
theorem follows_stopped (h : ∀ r, r.token = .symbol ";" → p r = none) : Follows k (Stopped k) p p' := by
  intro r r' hstopped a m hrun
  rw [h r hstopped.token_eq] at hrun
  cases hrun

theorem follows_failure : Follows k S (failure : Parser α) p' := by
  rintro r r' - a m ⟨⟩

theorem follows_pure (a : α) : Follows k (Near k start) (pure a) (pure a) := by
  rintro r r' h b m ⟨⟩
  exact ⟨r', rfl, h.weaken⟩

theorem follows_bind {f f' : α → Parser β} (hp : Follows k S p p')
    (hf : ∀ a, Follows k (Near k false) (f a) (f' a)) : Follows k S (p >>= f) (p' >>= f') := by
  intro r r' h b m hrun
  obtain ⟨a, n, ha, hb⟩ := bind_eq_some_iff.mp hrun
  obtain ⟨n', ha', hn⟩ := hp h ha
  obtain ⟨m', hb', hm⟩ := hf a hn hb
  exact ⟨m', bind_eq_some_iff.mpr ⟨a, n', ha', hb'⟩, hm⟩

theorem follows_ite {c : Prop} [Decidable c] {q q' : Parser α} (hp : Follows k S p p') (hq : Follows k S q q') :
    Follows k S (if c then p else q) (if c then p' else q') := by
  split
  · exact hp
  · exact hq

theorem follows_guard {f f' : Unit → Parser α} (c : Prop) [Decidable c] (hf : Follows k S (f ()) (f' ())) :
    Follows k S (guard c >>= f) (guard c >>= f') := by
  intro r r' h a m hrun
  rw [bind_apply, guard_apply] at hrun ⊢
  split at hrun
  · rename_i hc
    rw [if_pos hc]
    exact hf h hrun
  · cases hrun

/-- The next token decides how to go on. -/
theorem follows_peek {f f' : Token → Parser α} (hf : ∀ t, isPlain t → Follows k (At k start t) (f t) (f' t))
    (hstop : ∀ s ∈ stops, Follows k (Stopped k) (f (.symbol ";")) (f' (.symbol s))) :
    Follows k (Near k start) (peek >>= f) (peek >>= f') := by
  intro r r' h a m hrun
  rw [bind_apply] at hrun ⊢
  obtain h | h := h
  · rw [peek_apply, h.token_eq]
    exact hf r.token h.isPlain ⟨h, rfl⟩ hrun
  · rw [peek_apply, h.token_eq'] at *
    rw [h.token_eq] at hrun
    exact hstop k.symbol k.isStop h hrun

theorem follows_advance {t : Token} {f f' : Unit → Parser α}
    (hf : Follows k (Near k (startsArgument t)) (f ()) (f' ())) :
    Follows k (At k start t) (advance >>= f) (advance >>= f') := by
  rintro r r' ⟨h, rfl⟩ a m hrun
  obtain ⟨⟨⟩, n, hn, hm⟩ := bind_eq_some_iff.mp hrun
  obtain ⟨n', hn', hnear⟩ := h.advance hn
  obtain ⟨m', hm', hnear'⟩ := hf hnear hm
  exact ⟨m', bind_eq_some_iff.mpr ⟨(), n', hn', hm'⟩, hnear'⟩

/-- A parser that looks at the text and answers the same to both readers. -/
theorem follows_answer {q : Parser α} {x : α} {f f' : α → Parser β}
    (hq : ∀ r r', S r r' → q r = some (x, r) ∧ q r' = some (x, r')) (hf : Follows k S (f x) (f' x)) :
    Follows k S (q >>= f) (q >>= f') := by
  intro r r' h a m hrun
  rw [bind_apply, (hq r r' h).1] at hrun
  rw [bind_apply, (hq r r' h).2]
  exact hf h hrun

theorem follows_remaining {f f' : Nat → Parser α}
    (hf : ∀ n n', n ≤ n' → Follows k (Near k start) (f n) (f' n')) :
    Follows k (Near k start) (remaining >>= f) (remaining >>= f') := by
  -- What is left is a bound on the number of steps, so the second reader may have more of it.
  intro r r' h a m hrun
  exact hf _ _ (Nat.add_le_add_right h.length_le 2) h hrun

/-- Away from the stop, both readers see the same symbol. -/
theorem Near.atSymbol (h : Near k start r r') {s : String} (hs : s ∉ stops) :
    r'.token = .symbol s ↔ r.token = .symbol s := by
  obtain h | h := h
  · rw [h.token_eq]
  · have hend : s ≠ ";" := fun heq => hs (by simp [heq, stops])
    have hsymbol : s ≠ k.symbol := fun heq => hs (heq ▸ k.isStop)
    simp [h.token_eq, h.token_eq', hend.symm, hsymbol.symm]

theorem follows_atSymbol {s : String} (hs : s ∉ stops) {f f' : Bool → Parser α}
    (hf : ∀ b, Follows k (Near k start) (f b) (f' b)) :
    Follows k (Near k start) (atSymbol s >>= f) (atSymbol s >>= f') := by
  intro r r' h a m hrun
  rw [bind_apply, atSymbol_apply] at hrun ⊢
  rw [decide_eq_decide.mpr (h.atSymbol hs)]
  exact hf _ h hrun

/-- No plain token opens a block. -/
theorem follows_atSymbol_special {s : String} (hs : s ∈ specialSymbols) (hstop : s ∉ stops)
    {f f' : Bool → Parser α} (hf : Follows k (Near k start) (f false) (f' false)) :
    Follows k (Near k start) (atSymbol s >>= f) (atSymbol s >>= f') := by
  intro r r' h a m hrun
  have hne : r.token ≠ .symbol s := by
    intro heq
    obtain h | h := h
    · have hplain := h.isPlain
      simp [heq, Grammar.isPlain, hs] at hplain
    · have heq' := Token.symbol.inj (h.token_eq.symm.trans heq)
      exact hstop (by simp [← heq', stops])
  have hne' : r'.token ≠ .symbol s := fun heq => hne ((h.atSymbol hstop).mp heq)
  rw [bind_apply, atSymbol_apply] at hrun ⊢
  rw [decide_eq_false hne] at hrun
  rw [decide_eq_false hne']
  exact hf h hrun

theorem follows_atSymbol_inside (s : String) {f f' : Bool → Parser α}
    (hf : ∀ b, Follows k (Alongside k start) (f b) (f' b)) :
    Follows k (Alongside k start) (atSymbol s >>= f) (atSymbol s >>= f') := by
  intro r r' h a m hrun
  rw [bind_apply, atSymbol_apply] at hrun ⊢
  rw [h.token_eq]
  exact hf _ h hrun

theorem follows_eatSymbol_inside (s : String) {f f' : Bool → Parser α}
    (ht : Follows k (Near k (startsArgument (.symbol s))) (f true) (f' true))
    (hf : Follows k (Alongside k start) (f false) (f' false)) :
    Follows k (Alongside k start) (eatSymbol s >>= f) (eatSymbol s >>= f') := by
  have hmap (f : Bool → Parser α) (r : Reader) :
      ((advance r).map fun x => (true, x.2)).bind (fun x => f x.1 x.2) = (advance >>= fun _ => f true) r := by
    rw [bind_apply]
    cases advance r <;> rfl
  intro r r' h a m hrun
  rw [bind_apply, eatSymbol_apply] at hrun ⊢
  rw [h.token_eq]
  by_cases htoken : r.token = .symbol s
  · rw [if_pos htoken, hmap] at hrun ⊢
    have hadvance : Follows k (At k start r.token) (advance >>= fun _ => f true) (advance >>= fun _ => f' true) :=
      follows_advance (htoken ▸ ht)
    exact hadvance ⟨h, rfl⟩ hrun
  · rw [if_neg htoken] at hrun ⊢
    exact hf h hrun

/-- A symbol that only stands inside is there for both readers or for neither. -/
theorem follows_eatSymbol {s : String} (hs : s ∉ stops) {f f' : Bool → Parser α}
    (ht : Follows k (Near k (startsArgument (.symbol s))) (f true) (f' true))
    (hf : Follows k (Near k start) (f false) (f' false)) :
    Follows k (Near k start) (eatSymbol s >>= f) (eatSymbol s >>= f') := by
  refine (follows_eatSymbol_inside s ht hf.inside).of_inside ?_
  intro r r' h a m hrun
  have hnear : Near k start r r' := .inr h
  have htoken : r.token ≠ .symbol s := by
    intro heq
    have heq' := Token.symbol.inj (h.token_eq.symm.trans heq)
    exact hs (by simp [← heq', stops])
  rw [bind_apply, eatSymbol_apply] at hrun ⊢
  rw [if_neg htoken] at hrun
  rw [if_neg (mt (hnear.atSymbol hs).mp htoken)]
  exact hf hnear hrun

/-- A symbol that has to come can only come before the stop. -/
theorem follows_expectSymbol {s : String} (hs : s ≠ ";") {f f' : Unit → Parser α}
    (hf : Follows k (Near k (startsArgument (.symbol s))) (f ()) (f' ())) :
    Follows k (Near k start) (expectSymbol s >>= f) (expectSymbol s >>= f') := by
  intro r r' h a m hrun
  rw [bind_apply, expectSymbol_apply] at hrun ⊢
  by_cases htoken : r.token = .symbol s
  · obtain h | h := h
    · rw [if_pos htoken] at hrun
      rw [if_pos (h.token_eq.trans htoken)]
      have hadvance : Follows k (At k start r.token) (advance >>= f) (advance >>= f') :=
        follows_advance (htoken ▸ hf)
      exact hadvance ⟨h, rfl⟩ hrun
    · exact absurd (Token.symbol.inj (h.token_eq.symm.trans htoken)).symm hs
  · rw [if_neg htoken] at hrun
    cases hrun

/-- Both readers see the same word. -/
theorem Near.atName (h : Near k start r r') (w : String) (escaped : Bool) :
    r'.token = .name w escaped ↔ r.token = .name w escaped := by
  obtain h | h := h
  · rw [h.token_eq]
  · simp [h.token_eq, h.token_eq']

/-- No special word comes next. -/
theorem Near.ne_special (h : Near k start r r') {w : String} (hw : w ∈ specialWords) (escaped : Bool) :
    r.token ≠ .name w escaped ∧ r'.token ≠ .name w escaped := by
  have hne : r.token ≠ .name w escaped := by
    intro heq
    obtain h | h := h
    · have hplain := h.isPlain
      simp [heq, Grammar.isPlain, hw] at hplain
    · simp [h.token_eq] at heq
  exact ⟨hne, mt (h.atName w escaped).mp hne⟩

theorem follows_atWord (w : String) {f f' : Bool → Parser α} (hf : ∀ b, Follows k (Near k start) (f b) (f' b)) :
    Follows k (Near k start) (atWord w >>= f) (atWord w >>= f') := by
  intro r r' h a m hrun
  rw [bind_apply, atWord_apply] at hrun ⊢
  rw [decide_eq_decide.mpr (h.atName w false)]
  exact hf _ h hrun

theorem follows_expectWord (w : String) {f f' : Unit → Parser α} (hf : Follows k (Near k false) (f ()) (f' ())) :
    Follows k (Near k start) (expectWord w >>= f) (expectWord w >>= f') := by
  have hexpect (f : Unit → Parser α) (r : Reader) :
      (expectWord w >>= f) r = if r.token = .name w false then (advance >>= f) r else none := by
    simp only [expectWord, bind_apply, atWord_apply, Option.bind_some, guard_apply]
    split <;> simp_all
  intro r r' h a m hrun
  rw [hexpect] at hrun ⊢
  split at hrun
  · rename_i htoken
    obtain h | h := h
    · rw [if_pos (h.token_eq.trans htoken)]
      exact follows_advance hf ⟨h, htoken⟩ hrun
    · simp [h.token_eq] at htoken
  · cases hrun

theorem follows_onNewLine {t : Token} {f f' : Bool → Parser α} (hf : ∀ b, Follows k (At k start t) (f b) (f' b)) :
    Follows k (At k start t) (onNewLine >>= f) (onNewLine >>= f') := by
  intro r r' h a m hrun
  rw [bind_apply, onNewLine_apply] at hrun ⊢
  rw [h.1.newline_eq]
  exact hf _ h hrun

theorem follows_simpleTarget (e : Expr) {f f' : Expr → Parser α} (hf : ∀ target, Follows k S (f target) (f' target)) :
    Follows k S (simpleTarget e >>= f) (simpleTarget e >>= f') := by
  intro r r' h a m hrun
  obtain ⟨target, n, htarget, hrest⟩ := bind_eq_some_iff.mp hrun
  obtain ⟨_, he, heq⟩ := Option.bind_eq_some_iff.mp htarget
  cases heq
  obtain ⟨m', hm', hnear⟩ := hf _ h hrest
  exact ⟨m', bind_eq_some_iff.mpr ⟨_, r', Option.bind_eq_some_iff.mpr ⟨_, he, rfl⟩, hm'⟩, hnear⟩

theorem follows_patternOf (e : Expr) {t : Token} {f f' : Pattern → Parser α}
    (hf : ∀ p, Follows k (At k start t) (f p) (f' p)) :
    Follows k (At k start t) (patternOf e >>= f) (patternOf e >>= f') := by
  intro r r' h a m hrun
  obtain ⟨p, n, hp, hrest⟩ := bind_eq_some_iff.mp hrun
  obtain ⟨⟨_, count⟩, he, heq⟩ := Option.bind_eq_some_iff.mp hp
  cases heq
  -- The members `name = value` of the pattern no longer wait for one, and both readers had as many.
  have hcounted : At k start t { r with covers := r.covers - count } { r' with covers := r'.covers - count } :=
    ⟨{ h.1 with covers_eq := congrArg (· - count) h.1.covers_eq }, h.2⟩
  obtain ⟨m', hm', hnear⟩ := hf _ hcounted hrest
  exact ⟨m', bind_eq_some_iff.mpr ⟨_, _, Option.bind_eq_some_iff.mpr ⟨_, he, rfl⟩, hm'⟩, hnear⟩

end

end TemplateCompiler.Script.Grammar
