import TemplateCompiler.Proofs.Script.Calls

/-!
# Reading token by token

A text spells tokens if the scanner finds them one after another and nothing else (`IsSpelled`). What a parser takes
from such a text depends on the tokens only (`Takes`): there is one rule for each step of a parser, and one for each
way to combine steps.
-/

namespace TemplateCompiler.Script

/-- A line end in front of a gap only adds to the line ends in it. -/
theorem skipGap_newline (gap : Gap) (newline : Bool) (cs : List Char) :
    skipGap gap true cs = (skipGap gap newline cs).map fun x => (true, x.2) := by
  fun_induction skipGap gap newline cs
  -- Behind a line end the same is skipped in both cases.
  case case5 hend ih | case8 hend ih => rw [skipGap, if_pos hend, ← ih]; all_goals assumption
  case case11 hopen ih =>
    rw [skipGap, Bool.true_or]
    · exact ih
    · exact hopen
  all_goals simp_all [skipGap]

namespace Grammar

/-! ## Spelled texts -/

/-- The scanner finds the tokens in the text one after another, and then the end of the text. -/
inductive IsSpelled : List Char → List Token → Prop
  | finish {cs rest : List Char} {newline : Bool} (hnext : nextToken cs = some (.finish, newline, rest)) :
    IsSpelled cs []
  | token {cs rest : List Char} {newline : Bool} {t : Token} {ts : List Token}
    (hnext : nextToken cs = some (t, newline, rest)) (hlength : rest.length < cs.length) (hrest : IsSpelled rest ts) :
    IsSpelled cs (t :: ts)

theorem nextToken_newline (cs : List Char) :
    nextToken ('\n' :: cs) = (nextToken cs).map fun x => (x.1, true, x.2.2) := by
  have hgap : skipGap .open false ('\n' :: cs) = skipGap .open true cs := rfl
  rw [nextToken, nextToken, hgap, skipGap_newline .open false]
  cases skipGap .open false cs with
  | none => rfl
  | some x =>
    simp only [Option.map_some, Option.bind_eq_bind, Option.bind_some]
    cases scanToken x.2 <;> rfl

namespace IsSpelled

variable {cs : List Char} {ts : List Token} {c : Char}

theorem nil : IsSpelled [] [] := .finish rfl

theorem length_le (h : IsSpelled cs ts) : ts.length ≤ cs.length := by
  induction h with
  | finish => exact Nat.zero_le _
  | token _ hlength _ ih => exact Nat.lt_of_le_of_lt ih hlength

theorem blank (h : IsSpelled cs ts) : IsSpelled (' ' :: cs) ts := by
  cases h with
  | finish hnext => exact .finish ((nextToken_space cs).trans hnext)
  | token hnext hlength hrest =>
    exact .token ((nextToken_space cs).trans hnext) (Nat.lt_succ_of_lt hlength) hrest

theorem newline (h : IsSpelled cs ts) : IsSpelled ('\n' :: cs) ts := by
  have hsame {t : Token} {newline : Bool} {rest : List Char} (hnext : nextToken cs = some (t, newline, rest)) :
      nextToken ('\n' :: cs) = some (t, true, rest) := by
    rw [nextToken_newline, hnext]
    rfl
  cases h with
  | finish hnext => exact .finish (hsame hnext)
  | token hnext hlength hrest => exact .token (hsame hnext) (Nat.lt_succ_of_lt hlength) hrest

/-- A token of one character. -/
theorem cons {t : Token} {newline : Bool} (h : IsSpelled cs ts) (hnext : nextToken (c :: cs) = some (t, newline, cs)) :
    IsSpelled (c :: cs) (t :: ts) :=
  .token hnext (Nat.lt_succ_self _) h

theorem word (h : IsSpelled (c :: cs) ts) {x : String} (hx : isIdentifierName x = true) (hc : EndsName c) :
    IsSpelled (x.toList ++ c :: cs) (.name x false :: ts) := by
  have hne : x.toList ≠ [] := by
    intro hnil
    rw [isIdentifierName, hnil] at hx
    exact Bool.noConfusion hx
  refine .token (nextToken_identifierName hx hc) ?_ h
  have hpos := List.length_pos_of_ne_nil hne
  rw [List.length_append]
  omega

theorem quote (h : IsSpelled cs ts) (text : String) :
    IsSpelled ((Json.quote text).toList ++ cs) (.string (quoted text) :: ts) := by
  refine .token (nextToken_quote text cs) ?_ h
  rw [Json.toList_quote, List.length_append, List.length_cons]
  omega

end IsSpelled

/-! ## Parsers on tokens -/

/-- The reader stands in front of the tokens. -/
inductive Reader.IsBefore : Reader → List Token → Prop
  | finish {newline : Bool} {rest : List Char} : IsBefore ⟨.finish, newline, rest, 0⟩ []
  | token {t : Token} {newline : Bool} {rest : List Char} {ts : List Token} (hrest : IsSpelled rest ts) :
    IsBefore ⟨t, newline, rest, 0⟩ (t :: ts)

theorem IsSpelled.exists_nextToken {cs : List Char} {ts : List Token} (h : IsSpelled cs ts) :
    ∃ t newline rest, nextToken cs = some (t, newline, rest) ∧ (Reader.mk t newline rest 0).IsBefore ts := by
  cases h with
  | finish hnext => exact ⟨_, _, _, hnext, .finish⟩
  | token hnext _ hrest => exact ⟨_, _, _, hnext, .token hrest⟩

theorem Reader.IsBefore.length_lt {r : Reader} {ts : List Token} (h : r.IsBefore ts) :
    ts.length < r.rest.length + 2 := by
  cases h with
  | finish => exact Nat.succ_pos _
  | token hrest => exact Nat.succ_lt_succ (Nat.lt_succ_of_le hrest.length_le)

theorem Reader.IsBefore.token_eq {r : Reader} {ts : List Token} (h : r.IsBefore ts) : r.token = ts.headD .finish := by
  cases h <;> rfl

/-- In front of `ts` the parser reads `a`, up to `us`. -/
def Takes {α : Type} (p : Parser α) (ts : List Token) (a : α) (us : List Token) : Prop :=
  ∀ r : Reader, r.IsBefore ts → ∃ r', p r = some (a, r') ∧ r'.IsBefore us

section

variable {α β : Type} {ts us vs : List Token} {a : α} {b : β}

theorem takes_pure (a : α) (ts : List Token) : Takes (pure a) ts a ts := fun r hr => ⟨r, rfl, hr⟩

theorem Takes.bind {p : Parser α} {f : α → Parser β} (hp : Takes p ts a us) (hf : Takes (f a) us b vs) :
    Takes (p >>= f) ts b vs := by
  intro r hr
  obtain ⟨m, hm, hbefore⟩ := hp r hr
  obtain ⟨r', hr', hafter⟩ := hf m hbefore
  exact ⟨r', bind_eq_some_iff.mpr ⟨a, m, hm, hr'⟩, hafter⟩

theorem takes_guard {c : Prop} [Decidable c] (hc : c) (ts : List Token) : Takes (guard c) ts () ts := by
  intro r hr
  rw [guard_apply, if_pos hc]
  exact ⟨r, rfl, hr⟩

theorem takes_peek (ts : List Token) : Takes peek ts (ts.headD .finish) ts := by
  intro r hr
  rw [peek_apply, hr.token_eq]
  exact ⟨r, rfl, hr⟩

theorem takes_advance (t : Token) (ts : List Token) : Takes advance (t :: ts) () ts := by
  rintro r ⟨⟩
  rename_i newline rest hrest
  obtain ⟨t', newline', rest', hnext, hbefore⟩ := hrest.exists_nextToken
  exact ⟨_, advance_of_nextToken hnext t, hbefore⟩

theorem takes_atSymbol (s : String) (ts : List Token) :
    Takes (atSymbol s) ts (decide (ts.headD .finish = .symbol s)) ts := by
  intro r hr
  rw [atSymbol_apply, hr.token_eq]
  exact ⟨r, rfl, hr⟩

theorem takes_atSymbol_of_ne {s : String} (h : ts.headD .finish ≠ .symbol s) : Takes (atSymbol s) ts false ts := by
  rw [← decide_eq_false h]
  exact takes_atSymbol s ts

theorem takes_atWord (w : String) (ts : List Token) :
    Takes (atWord w) ts (decide (ts.headD .finish = .name w false)) ts := by
  intro r hr
  rw [atWord_apply, hr.token_eq]
  exact ⟨r, rfl, hr⟩

theorem takes_eatSymbol (s : String) (ts : List Token) : Takes (eatSymbol s) (.symbol s :: ts) true ts := by
  refine (takes_atSymbol s _).bind ?_
  rw [List.headD_cons, if_pos (decide_eq_true rfl)]
  exact (takes_advance _ ts).bind (takes_pure true ts)

theorem takes_eatSymbol_of_ne {s : String} (h : ts.headD .finish ≠ .symbol s) : Takes (eatSymbol s) ts false ts := by
  refine (takes_atSymbol_of_ne h).bind ?_
  rw [if_neg Bool.false_ne_true]
  exact takes_pure false ts

theorem takes_eatWord (w : String) (ts : List Token) : Takes (eatWord w) (.name w false :: ts) true ts := by
  refine (takes_atWord w _).bind ?_
  rw [List.headD_cons, if_pos (decide_eq_true rfl)]
  exact (takes_advance _ ts).bind (takes_pure true ts)

theorem takes_eatWord_of_ne {w : String} (h : ts.headD .finish ≠ .name w false) : Takes (eatWord w) ts false ts := by
  refine (takes_atWord w _).bind ?_
  rw [decide_eq_false h, if_neg Bool.false_ne_true]
  exact takes_pure false ts

theorem takes_expectSymbol (s : String) (ts : List Token) : Takes (expectSymbol s) (.symbol s :: ts) () ts :=
  (takes_atSymbol s _).bind ((takes_guard (decide_eq_true rfl) _).bind (takes_advance _ ts))

theorem takes_expectWord (w : String) (ts : List Token) : Takes (expectWord w) (.name w false :: ts) () ts :=
  (takes_atWord w _).bind ((takes_guard (decide_eq_true rfl) _).bind (takes_advance _ ts))

/-- The bound on the number of tokens that are left is not reached. -/
theorem takes_remaining {f : Nat → Parser β} (h : ∀ n, ts.length < n → Takes (f n) ts b us) :
    Takes (remaining >>= f) ts b us := by
  intro r hr
  rw [bind_apply, remaining_apply, Option.bind_some]
  exact h _ hr.length_lt r hr

theorem takes_peekSecond {t t' : Token} {f : Token × Bool → Parser β}
    (h : ∀ newline, Takes (f (t', newline)) (t :: t' :: ts) b us) :
    Takes (peekSecond >>= f) (t :: t' :: ts) b us := by
  rintro r hr
  obtain ⟨newline, hsecond⟩ : ∃ newline, peekSecond r = some ((t', newline), r) := by
    obtain _ | ⟨_ | @⟨_, _, newline, _, _, hnext⟩⟩ := hr
    refine ⟨newline, ?_⟩
    simp only [peekSecond, bind_apply]
    show Option.bind (some _) _ = _
    simp [hnext]
  rw [bind_apply, hsecond, Option.bind_some]
  exact h newline r hr

theorem takes_identifier {c : Context} {x : String} (hx : c.allowsName x = true) (escaped : Bool) (ts : List Token) :
    Takes (identifier c) (.name x escaped :: ts) x ts :=
  (takes_peek _).bind ((takes_guard hx _).bind ((takes_advance _ ts).bind (takes_pure x ts)))

/-- The end of a statement is its semicolon. -/
theorem takes_endStatement (ts : List Token) : Takes endStatement (.symbol ";" :: ts) () ts :=
  (takes_eatSymbol ";" ts).bind (takes_pure _ ts)

/-! ## Lists -/

variable {ι : Type} {tokens : ι → List Token} {is : List ι}

/-- What takes each item up to a comma, and up to the closing symbol, takes all items between commas. -/
theorem takes_commaItems {item : Parser α} {value : ι → α} {close : String} (hclose : close ≠ ",")
    (hfirst : ∀ i ∈ is, ∃ t ts, tokens i = t :: ts ∧ t ≠ .symbol close)
    (hitem : ∀ i ∈ is, ∀ s ∈ [",", close], ∀ us,
      Takes item (tokens i ++ .symbol s :: us) (value i) (.symbol s :: us)) {n : Nat} (hn : is.length < n)
    (us : List Token) :
    Takes (commaItems close item n) ([Token.symbol ","].intercalate (is.map tokens) ++ .symbol close :: us)
      (is.map value, false) (.symbol close :: us) := by
  obtain ⟨n, rfl⟩ := Nat.exists_eq_succ_of_ne_zero (Nat.ne_zero_of_lt hn)
  induction is generalizing n with
  | nil =>
    refine (takes_atSymbol close _).bind ?_
    rw [List.map_nil, List.intercalate_nil, List.nil_append, List.headD_cons, if_pos (decide_eq_true rfl)]
    exact takes_pure _ _
  | cons i rest ih =>
    obtain ⟨t, ts, htokens, ht⟩ := hfirst i List.mem_cons_self
    have hopen (vs : List Token) : (tokens i ++ vs).headD .finish ≠ .symbol close := by
      rw [htokens]
      exact ht
    cases rest with
    | nil =>
      rw [List.map_cons, List.map_nil, List.intercalate_singleton]
      refine (takes_atSymbol_of_ne (hopen _)).bind ?_
      rw [if_neg Bool.false_ne_true]
      refine (hitem i List.mem_cons_self close (by simp) us).bind ?_
      refine (takes_eatSymbol_of_ne (by simpa using hclose)).bind ?_
      rw [if_neg Bool.false_ne_true]
      refine (takes_atSymbol close _).bind ?_
      exact (takes_guard (decide_eq_true rfl) _).bind (takes_pure _ _)
    | cons j rest =>
      obtain ⟨m, rfl⟩ := Nat.exists_eq_succ_of_ne_zero (Nat.ne_zero_of_lt (Nat.lt_of_succ_lt_succ hn))
      have hrest := ih (fun j hj => hfirst j (List.mem_cons_of_mem _ hj))
        (fun j hj => hitem j (List.mem_cons_of_mem _ hj)) m (Nat.lt_of_succ_lt_succ hn)
      -- Behind a comma another item follows, not the closing symbol.
      have hmore : ([Token.symbol ","].intercalate ((j :: rest).map tokens) ++ .symbol close :: us).headD .finish ≠
          .symbol close := by
        obtain ⟨t', ts', htokens', ht'⟩ := hfirst j (List.mem_cons_of_mem _ List.mem_cons_self)
        rw [List.map_cons, htokens']
        cases rest <;> exact ht'
      rw [List.map_cons, List.map_cons, List.intercalate_cons_cons, ← List.map_cons, List.append_assoc,
        List.append_assoc, List.singleton_append]
      refine (takes_atSymbol_of_ne (hopen _)).bind ?_
      rw [if_neg Bool.false_ne_true]
      refine (hitem i List.mem_cons_self "," (by simp) _).bind ?_
      refine (takes_eatSymbol "," _).bind ?_
      rw [if_pos rfl]
      refine (takes_atSymbol_of_ne hmore).bind ?_
      rw [if_neg Bool.false_ne_true]
      exact hrest.bind (takes_pure _ _)

/-- A list in brackets. -/
theorem takes_bracketed {item : Parser α} {value : ι → α} {opening close : String} (hclose : close ≠ ",")
    (hfirst : ∀ i ∈ is, ∃ t ts, tokens i = t :: ts ∧ t ≠ .symbol close)
    (hitem : ∀ i ∈ is, ∀ s ∈ [",", close], ∀ us,
      Takes item (tokens i ++ .symbol s :: us) (value i) (.symbol s :: us)) (us : List Token) :
    Takes (bracketed opening close item)
      (.symbol opening :: ([Token.symbol ","].intercalate (is.map tokens) ++ .symbol close :: us))
      (is.map value, false) us := by
  refine (takes_expectSymbol opening _).bind (takes_remaining fun n hn => ?_)
  have hlength : is.length < n := by
    refine Nat.lt_of_le_of_lt ?_ hn
    clear hn hitem
    induction is with
    | nil => exact Nat.zero_le _
    | cons i rest ih =>
      obtain ⟨t, ts, htokens, -⟩ := hfirst i List.mem_cons_self
      have hrest := ih fun j hj => hfirst j (List.mem_cons_of_mem _ hj)
      cases rest with
      | nil =>
        simp only [List.length_cons, List.length_append, List.length_nil]
        omega
      | cons j rest =>
        rw [List.map_cons, List.map_cons, List.intercalate_cons_cons, ← List.map_cons, htokens]
        simp only [List.length_cons, List.length_append] at hrest ⊢
        omega
  exact (takes_commaItems hclose hfirst hitem hlength us).bind
    ((takes_expectSymbol close us).bind (takes_pure _ us))

/-- What takes each item of a module takes the module. -/
theorem takes_moduleItems {g : Rules} {value : ι → Statement}
    (hfirst : ∀ i ∈ is, ∃ t ts, tokens i = t :: ts ∧ t ≠ .finish)
    (hitem : ∀ i ∈ is, ∀ us, Takes (g.statement .module) (tokens i ++ us) (value i) us) :
    Takes (moduleItems g) (is.flatMap tokens) (is.map value) [] := by
  have htest (ts : List Token) : Takes (do pure ((← peek) != .finish)) ts (ts.headD .finish != .finish) ts :=
    (takes_peek ts).bind (takes_pure _ _)
  refine takes_remaining fun n hn => ?_
  induction is generalizing n with
  | nil =>
    obtain ⟨n, rfl⟩ := Nat.exists_eq_succ_of_ne_zero (Nat.ne_zero_of_lt hn)
    exact (htest _).bind (takes_pure _ _)
  | cons i rest ih =>
    obtain ⟨n, rfl⟩ := Nat.exists_eq_succ_of_ne_zero (Nat.ne_zero_of_lt hn)
    obtain ⟨t, ts, htokens, ht⟩ := hfirst i List.mem_cons_self
    have hmore : (((i :: rest).flatMap tokens).headD .finish != .finish) = true := by
      rw [List.flatMap_cons, htokens]
      simpa using ht
    have hshorter : (rest.flatMap tokens).length < n := by
      rw [List.flatMap_cons, htokens, List.length_append, List.length_cons] at hn
      omega
    have hrest := ih (fun j hj => hfirst j (List.mem_cons_of_mem _ hj))
      (fun j hj => hitem j (List.mem_cons_of_mem _ hj)) n hshorter
    rw [repeatWhile]
    refine (htest _).bind ?_
    rw [hmore, if_pos rfl, List.flatMap_cons]
    exact (hitem i List.mem_cons_self _).bind (hrest.bind (takes_pure _ _))

end

end Grammar

end TemplateCompiler.Script
