import TemplateCompiler.Proofs.Json.Reading
import TemplateCompiler.Proofs.Script.Splices

/-!
# Calls as they are generated

How the pieces of generated text are read that stand around a copied expression: names, quoted texts, functions
without parameters, calls, comparisons and choices. Each is an argument up to a stop (`IsArgument`) if its own
parts are.
-/

namespace TemplateCompiler.Script

open Text Grammar

/-! ## Tokens of generated text -/

/-- A word that names a variable wherever an operand may stand. -/
def isVariable (x : String) : Bool :=
  isPlainIdentifier x && !reservedWords.contains x && !(["async", "await", "yield"].contains x)

/-- A word as it is written without escapes. -/
def isIdentifierName (x : String) : Bool :=
  match x.toList with
  | [] => false
  | c :: cs => isIdentifierStart c && cs.all isIdentifierPart

theorem toNat_lt_of_isPlainPart {c : Char} (h : isPlainPart c = true) : c.toNat < 0x80 := by
  simp only [isPlainPart, isPlainStart, isAsciiLetter, isAsciiDigit, Bool.or_eq_true, Bool.and_eq_true,
    decide_eq_true_eq, beq_iff_eq, Char.le_def] at h
  obtain (((⟨-, h⟩ | ⟨-, h⟩) | rfl) | rfl) | ⟨-, h⟩ := h
  · exact Nat.lt_of_le_of_lt (UInt32.le_iff_toNat_le.mp h) (by decide)
  · exact Nat.lt_of_le_of_lt (UInt32.le_iff_toNat_le.mp h) (by decide)
  · decide
  · decide
  · exact Nat.lt_of_le_of_lt (UInt32.le_iff_toNat_le.mp h) (by decide)

theorem isIdentifierStart_of_isPlainStart {c : Char} (h : isPlainStart c = true) : isIdentifierStart c = true := by
  rw [isIdentifierStart, if_pos (toNat_lt_of_isPlainPart (isPlainPart_of_isPlainStart h)), h]

theorem isIdentifierPart_of_isPlainPart {c : Char} (h : isPlainPart c = true) : isIdentifierPart c = true := by
  rw [isIdentifierPart, if_pos (toNat_lt_of_isPlainPart h), h]

theorem isIdentifierName_of_isPlainIdentifier {x : String} (hx : isPlainIdentifier x = true) :
    isIdentifierName x = true := by
  unfold isPlainIdentifier at hx
  unfold isIdentifierName
  cases hlist : x.toList with
  | nil =>
    rw [hlist] at hx
    exact hx
  | cons c cs =>
    rw [hlist] at hx
    simp only [Bool.and_eq_true, List.all_eq_true] at hx ⊢
    exact ⟨isIdentifierStart_of_isPlainStart hx.1, fun d hd => isIdentifierPart_of_isPlainPart (hx.2 d hd)⟩

section

variable {c : Char} (h : isIdentifierStart c = true)

include h

theorem ne_of_isIdentifierStart {d : Char} (hd : isIdentifierStart d = false) : c ≠ d := by
  rintro rfl
  exact Bool.false_ne_true (hd.symm.trans h)

theorem not_isAsciiDigit_of_isIdentifierStart : isAsciiDigit c = false := by
  rw [Bool.eq_false_iff]
  intro hdigit
  simp only [isAsciiDigit, Bool.and_eq_true, decide_eq_true_eq, Char.le_def, UInt32.le_iff_toNat_le] at hdigit
  have hlt : c.toNat < 0x80 := Nat.lt_of_le_of_lt hdigit.2 (by decide)
  rw [isIdentifierStart, if_pos hlt] at h
  simp only [isPlainStart, isAsciiLetter, Bool.or_eq_true, Bool.and_eq_true, decide_eq_true_eq, beq_iff_eq,
    Char.le_def, UInt32.le_iff_toNat_le] at h
  obtain ((h | h) | rfl) | rfl := h
  · exact absurd (Nat.le_trans h.1 hdigit.2) (by decide)
  · exact absurd (Nat.le_trans h.1 hdigit.2) (by decide)
  · exact absurd hdigit.2 (by decide)
  · exact absurd hdigit.1 (by decide)

theorem not_isLineEnd_of_isIdentifierStart : isLineEnd c = false := by
  have hne := @ne_of_isIdentifierStart c h
  simp only [isLineEnd, Bool.or_eq_false_iff, beq_eq_false_iff_ne]
  exact ⟨⟨⟨hne (by decide), hne (by decide)⟩, hne (by decide +kernel)⟩, hne (by decide +kernel)⟩

theorem not_isSpace_of_isIdentifierStart : isSpace c = false := by
  rw [Bool.eq_false_iff]
  intro hspace
  simp only [isSpace, Bool.or_eq_true, beq_iff_eq, Bool.and_eq_true, decide_eq_true_eq] at hspace
  obtain (((((((((((rfl | rfl) | rfl) | rfl) | rfl) | rfl) | rfl) | rfl) | hrange) | rfl) | rfl) | rfl) := hspace
  case inl.inl.inl.inr =>
    have hnone : ∀ n ∈ List.range' 0x2000 12, isIdentifierStart (Char.ofNat n) = false := by decide +kernel
    simp only [Char.le_def, UInt32.le_iff_toNat_le] at hrange
    have hmem : c.toNat ∈ List.range' 0x2000 12 := List.mem_range'_1.mpr ⟨hrange.1, Nat.lt_succ_of_le hrange.2⟩
    exact ne_of_isIdentifierStart h (hnone _ hmem) (Char.ofNat_toNat c).symm
  all_goals exact absurd h (by decide +kernel)

end

theorem scanNameChars_of_isIdentifierPart {cs : List Char} (hcs : cs.all isIdentifierPart = true) {n : Nat}
    (hn : cs.length < n) {name : List Char} (hname : name ≠ []) :
    scanNameChars n name false cs = some (cs.reverse ++ name, false, []) := by
  induction cs generalizing n name with
  | nil =>
    cases n with
    | zero => exact absurd hn (Nat.not_lt_zero _)
    | succ n => rfl
  | cons c cs ih =>
    obtain ⟨n, rfl⟩ : ∃ m, n = m + 1 := ⟨n - 1, by omega⟩
    rw [List.all_cons, Bool.and_eq_true] at hcs
    have hc : c ≠ '\\' := by
      rintro rfl
      exact absurd hcs.1 (by decide)
    have hempty : name.isEmpty = false := by simpa using hname
    rw [scanNameChars_cons hc, hempty, if_neg Bool.false_ne_true, if_pos hcs.1,
      ih hcs.2 (Nat.lt_of_succ_lt_succ hn) (List.cons_ne_nil _ _)]
    simp

theorem scanName_of_isIdentifierName {x : String} (hx : isIdentifierName x = true) :
    scanName x.toList = some (x, false, []) := by
  unfold isIdentifierName at hx
  split at hx
  · exact Bool.noConfusion hx
  · rename_i c cs hlist
    rw [Bool.and_eq_true] at hx
    have hc : c ≠ '\\' := ne_of_isIdentifierStart hx.1 (by decide)
    have hchars : scanNameChars ((c :: cs).length + 1) [] false (c :: cs) = some (cs.reverse ++ [c], false, []) := by
      rw [scanNameChars_cons hc, List.isEmpty_nil, if_pos rfl, if_pos hx.1]
      exact scanNameChars_of_isIdentifierPart hx.2 (Nat.lt_succ_self _) (List.cons_ne_nil _ _)
    have hname : (cs.reverse ++ [c]).isEmpty = false := by simp
    rw [hlist, scanName, hchars]
    simp only [Option.bind_eq_bind, Option.bind_some, hname, Bool.false_eq_true, if_false]
    rw [List.reverse_append, List.reverse_reverse, List.reverse_singleton, List.singleton_append, ← hlist,
      String.ofList_toList]
    rfl

namespace Grammar

variable {b : List Char}

theorem nextToken_space (cs : List Char) : nextToken (' ' :: cs) = nextToken cs := by
  simp [nextToken, skipGap, isLineEnd, isSpace]

theorem nextToken_open (cs : List Char) : nextToken ('(' :: cs) = some (.symbol "(", false, cs) := rfl

theorem nextToken_close (cs : List Char) : nextToken (')' :: cs) = some (.symbol ")", false, cs) := rfl

theorem nextToken_comma (cs : List Char) : nextToken (',' :: cs) = some (.symbol ",", false, cs) := rfl

theorem nextToken_semicolon_cons (cs : List Char) : nextToken (';' :: cs) = some (.symbol ";", false, cs) := rfl

/-- A word is read as it is written. -/
theorem nextToken_identifierName {x : String} (hx : isIdentifierName x = true) {c : Char} (hc : EndsName c) :
    nextToken (x.toList ++ c :: b) = some (.name x false, false, c :: b) := by
  have hscan : scanName (x.toList ++ c :: b) = some (x, false, c :: b) := by
    rw [scanName_append hc, scanName_of_isIdentifierName hx]
    rfl
  unfold isIdentifierName at hx
  split at hx
  · exact Bool.noConfusion hx
  · rename_i d cs hlist
    rw [Bool.and_eq_true] at hx
    have hne (e : Char) (he : isIdentifierStart e = false) : d ≠ e := ne_of_isIdentifierStart hx.1 he
    rw [hlist, List.cons_append] at hscan ⊢
    refine nextToken_eq_some_iff.mpr ⟨d :: (cs ++ c :: b), ?_, ?_⟩
    · rw [skipGap_open fun hd => absurd hd (hne '/' (by decide)), not_isLineEnd_of_isIdentifierStart hx.1,
        not_isSpace_of_isIdentifierStart hx.1, if_neg Bool.false_ne_true, if_neg Bool.false_ne_true]
    · simp [scanToken, hne '\x22' (by decide), hne '\'' (by decide), hne '\x60' (by decide), hne '#' (by decide),
        hne '.' (by decide), not_isAsciiDigit_of_isIdentifierStart hx.1, hx.1, hscan]

/-- A generated name is read as a word. -/
theorem nextToken_name {x : String} (hx : isPlainIdentifier x = true) {c : Char} (hc : EndsName c) :
    nextToken (x.toList ++ c :: b) = some (.name x false, false, c :: b) :=
  nextToken_identifierName (isIdentifierName_of_isPlainIdentifier hx) hc

end Grammar

/-! ## Quoted texts -/

/-- The literal that a text is quoted as. -/
def quoted (text : String) : Quoted :=
  ⟨String.ofList (text.toList.flatMap Json.escapeChar), text.toList.map .char⟩

theorem joinSurrogates_map_char (cs : List Char) : joinSurrogates (cs.map .char) = cs.map .char := by
  induction cs with
  | nil => rfl
  | cons c cs ih =>
    rw [List.map_cons, joinSurrogates, ih]
    rintro high low rest ⟨⟩

/-- One step reads one character, escaped or not. -/
theorem scanUnits_escapeChar (n : Nat) (units : List StringUnit) (c : Char) (b : List Char) :
    scanUnits '\x22' (n + 1) units (Json.escapeChar c ++ b) = scanUnits '\x22' n (.char c :: units) b := by
  have hescape {d : Char} {cs : List Char} (h : scanEscape false (cs ++ b) = some ([.char d], b)) :
      scanUnits '\x22' (n + 1) units ('\\' :: cs ++ b) = scanUnits '\x22' n (.char d :: units) b := by
    rw [List.cons_append, scanUnits]
    simp [h]
  unfold Json.escapeChar
  split_ifs with hquote hslash hb hf hn hr ht hcontrol
  · rw [beq_iff_eq.mp hquote]
    exact hescape rfl
  · rw [beq_iff_eq.mp hslash]
    exact hescape rfl
  · rw [beq_iff_eq.mp hb]
    exact hescape rfl
  · rw [beq_iff_eq.mp hf]
    exact hescape rfl
  · rw [beq_iff_eq.mp hn]
    exact hescape rfl
  · rw [beq_iff_eq.mp hr]
    exact hescape rfl
  · rw [beq_iff_eq.mp ht]
    exact hescape rfl
  · refine hescape ?_
    -- other control characters have four digits, which stand for one character
    obtain ⟨hvalue, hdigits⟩ := Json.readUnicode_control c.toNat hcontrol
    have hhex : scanHex 4 ('0' :: '0' :: hexDigit (c.toNat / 16) :: hexDigit c.toNat :: b) = some (c.toNat, b) := by
      show (if (decide (['0', '0', hexDigit (c.toNat / 16), hexDigit c.toNat].length = 4) &&
          ['0', '0', hexDigit (c.toNat / 16), hexDigit c.toNat].all (isDigitOf 16)) = true then
        some (ofDigits 16 ['0', '0', hexDigit (c.toNat / 16), hexDigit c.toNat], b) else none) = _
      rw [hdigits, hvalue]
      rfl
    have hunit : unitsOf c.toNat = .char c := by
      rw [unitsOf, decide_eq_false (by omega), Bool.false_and, if_neg Bool.false_ne_true, Char.ofNat_toNat]
    show (scanCodePoint ('0' :: '0' :: hexDigit (c.toNat / 16) :: hexDigit c.toNat :: b)).map _ = _
    rw [scanCodePoint_of_ne (by simp), hhex, ← hunit]
    rfl
  · show scanUnits '\x22' (n + 1) units (c :: b) = _
    rw [scanUnits, if_neg hquote, if_neg hslash, if_neg (by simp_all)]

theorem scanUnits_flatMap (cs b : List Char) {n : Nat} (hn : cs.length < n) (units : List StringUnit) :
    scanUnits '\x22' n units (cs.flatMap Json.escapeChar ++ '\x22' :: b) =
      some ((cs.map .char).reverse ++ units, b) := by
  induction cs generalizing n units with
  | nil =>
    obtain ⟨n, rfl⟩ := Nat.exists_eq_succ_of_ne_zero (Nat.ne_zero_of_lt hn)
    rfl
  | cons c cs ih =>
    obtain ⟨n, rfl⟩ := Nat.exists_eq_succ_of_ne_zero (Nat.ne_zero_of_lt hn)
    rw [List.flatMap_cons, List.append_assoc, scanUnits_escapeChar, ih (Nat.lt_of_succ_lt_succ hn), List.map_cons,
      List.reverse_cons, List.append_assoc, List.singleton_append]

/-- A quoted text is read as its literal. -/
theorem Grammar.nextToken_quote (text : String) (b : List Char) :
    nextToken ((Json.quote text).toList ++ b) = some (.string (quoted text), false, b) := by
  have hlength := Json.length_le_length_flatMap text.toList
  have hunits : scanUnits '\x22' ((text.toList.flatMap Json.escapeChar ++ '\x22' :: b).length + 1) []
      (text.toList.flatMap Json.escapeChar ++ '\x22' :: b) = some ((text.toList.map .char).reverse ++ [], b) :=
    scanUnits_flatMap _ b (by rw [List.length_append]; omega) []
  have hbetween : between (text.toList.flatMap Json.escapeChar ++ '\x22' :: b) b =
      text.toList.flatMap Json.escapeChar ++ ['\x22'] := by
    have happend := between_append (text.toList.flatMap Json.escapeChar ++ ['\x22']) [] b
    rw [List.append_assoc, List.nil_append] at happend
    exact happend.trans (by simp [between])
  have hstring : scanString '\x22' (text.toList.flatMap Json.escapeChar ++ '\x22' :: b) = some (quoted text, b) := by
    rw [scanString, hunits]
    show some (Quoted.mk (String.ofList (between _ b).dropLast) (joinSurrogates _), b) = _
    rw [hbetween, List.dropLast_concat, List.append_nil, List.reverse_reverse, joinSurrogates_map_char]
    rfl
  rw [Json.toList_quote, List.cons_append, List.append_assoc]
  refine nextToken_eq_some_iff.mpr ⟨'\x22' :: (text.toList.flatMap Json.escapeChar ++ '\x22' :: b), rfl, ?_⟩
  show (scanString '\x22' _).map _ = _
  rw [hstring]
  rfl

namespace Grammar

/-! ## Operands in front of a stop -/

/-- The tokens that generated operands start with. -/
inductive IsHead : Token → Prop
  | name {x : String} : isVariable x = true → IsHead (.name x false)
  | string (q : Quoted) : IsHead (.string q)

/-- The symbols behind generated operands. -/
def ends : List String := [",", ")", ";", ":", "<=", ">="]

theorem ne_of_isVariable {x w : String} (hx : isVariable x = true)
    (hw : w ∈ reservedWords ++ ["async", "await", "yield"]) : x ≠ w := by
  rintro rfl
  simp only [isVariable, Bool.and_eq_true, Bool.not_eq_true', List.contains_eq_mem, decide_eq_false_iff_not] at hx
  exact (List.mem_append.mp hw).elim hx.1.2 hx.2

theorem isPlainIdentifier_of_isVariable {x : String} (hx : isVariable x = true) : isPlainIdentifier x = true := by
  simp only [isVariable, Bool.and_eq_true] at hx
  exact hx.1.1

theorem isIdentifierName_of_isVariable {x : String} (hx : isVariable x = true) : isIdentifierName x = true :=
  isIdentifierName_of_isPlainIdentifier (isPlainIdentifier_of_isVariable hx)

theorem nextToken_variable {x : String} (hx : isVariable x = true) {c : Char} (hc : EndsName c) (cs : List Char) :
    nextToken (x.toList ++ c :: cs) = some (.name x false, false, c :: cs) :=
  nextToken_identifierName (isIdentifierName_of_isVariable hx) hc

theorem allowsName_of_isVariable {x : String} (hx : isVariable x = true) (c : Context) : c.allowsName x = true := by
  have hawait := ne_of_isVariable hx (w := "await") (by decide)
  have hyield := ne_of_isVariable hx (w := "yield") (by decide)
  simp only [isVariable, Bool.and_eq_true] at hx
  rw [Context.allowsName, hx.1.2, beq_eq_false_iff_ne.mpr hawait, beq_eq_false_iff_ne.mpr hyield]
  simp

section

variable {g : Rules} {c : Context} {x : String} {t : Token} {newline newline' : Bool} {cs cs' : List Char} {k : Nat}

theorem operand_name (hx : isVariable x = true) (hnext : nextToken cs = some (t, newline', cs')) :
    operand g c ⟨.name x false, newline, cs, k⟩ = some (.name x, ⟨t, newline', cs', k⟩) := by
  have hname : nameOperand c ⟨.name x false, newline, cs, k⟩ = some (.name x, ⟨t, newline', cs', k⟩) := by
    simp [nameOperand, identifier, allowsName_of_isVariable hx c, map_apply, advance_of_nextToken hnext]
  have hfunction : x ≠ "function" := ne_of_isVariable hx (by decide)
  have hasync : x ≠ "async" := ne_of_isVariable hx (by decide)
  have hstart : atFunction ⟨.name x false, newline, cs, k⟩ = some (false, ⟨.name x false, newline, cs, k⟩) := by
    simp [atFunction, atAsyncFunction, hfunction, hasync]
  show wordOperand g c x _ = _
  rw [wordOperand, bind_apply, hstart, Option.bind_some, if_neg Bool.false_ne_true]
  · exact hname
  -- The words with rules of their own name no variable.
  all_goals
    rintro rfl
    exact absurd hx (by decide)

/-- Where an operand ends, nothing is applied to it. -/
theorem applied_of_ends {s : String} (hs : s ∈ ends) (tail : Tail) (n : Nat) (e : Expr) :
    applied g c tail (n + 1) e false ⟨.symbol s, newline, cs, k⟩ =
      some ((e, false), ⟨.symbol s, newline, cs, k⟩) := by
  simp only [ends, List.mem_cons, List.not_mem_nil, or_false] at hs
  rcases hs with rfl | rfl | rfl | rfl | rfl | rfl <;> rfl

theorem updateOperator?_of_ends {s : String} (hs : s ∈ ends) : updateOperator? (.symbol s) = none := by
  simp only [ends, List.mem_cons, List.not_mem_nil, or_false] at hs
  rcases hs with rfl | rfl | rfl | rfl | rfl | rfl <;> rfl

variable {e : Expr} {s : String} {b : List Char}

/-- What an operand with a head is read as, with all that is applied to it. -/
theorem unaryRule_of_calleeRule (ht : IsHead t) (hs : s ∈ ends)
    (h : calleeRule g c ⟨t, newline, cs, k⟩ = some (e, ⟨.symbol s, newline', b, k⟩)) :
    unaryRule g c ⟨t, newline, cs, k⟩ = some (e, ⟨.symbol s, newline', b, k⟩) := by
  have hunary : unaryOperator? t = none := by
    cases ht with
    | @name x hx =>
      have hword : unaryWords.contains x = false := by
        have htypeof := ne_of_isVariable hx (w := "typeof") (by decide)
        have hvoid := ne_of_isVariable hx (w := "void") (by decide)
        have hdelete := ne_of_isVariable hx (w := "delete") (by decide)
        simp [unaryWords, htypeof, hvoid, hdelete]
      rw [unaryOperator?, hword, if_neg Bool.false_ne_true]
    | string q => rfl
  have hupdate : updateOperator? t = none := by cases ht <;> rfl
  have hawait : t ≠ .name "await" false := by
    rintro rfl
    cases ht with
    | name hx => exact absurd hx (by decide)
  simp [unaryRule, hunary, atAwait, hawait, updated, hupdate, h, updateOperator?_of_ends hs]

theorem binaryOperator?_of_stops (hs : s ∈ stops) : binaryOperator? c (.symbol s) = none :=
  forall_stops (P := fun s => binaryOperator? c (.symbol s) = none) rfl rfl rfl rfl s hs

theorem binaryRest_of_stops (hs : s ∈ stops) (min n : Nat) :
    binaryRest g c min (n + 1) e ⟨.symbol s, newline, b, k⟩ = some (e, ⟨.symbol s, newline, b, k⟩) := by
  simp only [binaryRest_succ, binaryOperator?_of_stops hs]

theorem binaryRule_of_isHead (ht : IsHead t) (min : Nat) (r : Reader) (hr : r.token = t) :
    binaryRule g c min r = (unaryRule g c r).bind fun x => binaryRest g c min (x.2.rest.length + 2) x.1 x.2 := by
  rw [binaryRule, bind_apply, peek_apply, Option.bind_some, hr]
  cases ht <;> simp

theorem assignmentRule_of_binaryRule (ht : IsHead t) (hs : s ∈ stops)
    (h : binaryRule g c 0 ⟨t, newline, cs, k⟩ = some (e, ⟨.symbol s, newline', b, k⟩)) :
    assignmentRule g c ⟨t, newline, cs, k⟩ = some (e, ⟨.symbol s, newline', b, k⟩) := by
  have hword (w : String) (hw : w ∈ reservedWords ++ ["async", "await", "yield"]) : t ≠ .name w false := by
    rintro rfl
    cases ht with
    | name hx => exact ne_of_isVariable hx hw rfl
  have hsymbol (s : String) : t ≠ .symbol s := by
    rintro rfl
    cases ht
  have hchosen : assignedOrChosen g c ⟨t, newline, cs, k⟩ = some (e, ⟨.symbol s, newline', b, k⟩) := by
    have hchoice : conditionalRest g c e ⟨.symbol s, newline', b, k⟩ = some (e, ⟨.symbol s, newline', b, k⟩) := by
      have hs' : s ≠ "?" := by
        rintro rfl
        exact absurd hs (by decide)
      simp [conditionalRest, eatSymbol_apply, hs']
    have hoperator : assignmentOperators.contains s = false :=
      forall_stops (P := fun s => assignmentOperators.contains s = false) rfl rfl rfl rfl s hs
    rw [assignedOrChosen, bind_apply, h, Option.bind_some, bind_apply, peek_apply, Option.bind_some]
    generalize htoken : Token.symbol s = u at hchoice ⊢
    dsimp only
    split
    · cases htoken
      exact absurd hs (by decide)
    · cases htoken
      exact absurd hs (by decide)
    · cases htoken
      rw [hoperator, if_neg Bool.false_ne_true]
      exact hchoice
    · exact hchoice
  simp [assignmentRule, atYield, hword "yield" (by decide), lookAhead, guessArrow, hword "async" (by decide),
    eatSymbol_apply, hsymbol, atAsyncArrow, hchosen]

theorem mem_ends_of_stops (hs : s ∈ stops) : s ∈ ends :=
  forall_stops (P := (· ∈ ends)) (by decide) (by decide) (by decide) (by decide) s hs

/-- An operand that nothing stands behind is an argument. -/
theorem assignmentRule_of_calleeRule (ht : IsHead t) (hs : s ∈ stops)
    (h : calleeRule g c ⟨t, newline, cs, k⟩ = some (e, ⟨.symbol s, newline', b, k⟩)) :
    assignmentRule g c ⟨t, newline, cs, k⟩ = some (e, ⟨.symbol s, newline', b, k⟩) := by
  refine assignmentRule_of_binaryRule ht hs ?_
  rw [binaryRule_of_isHead ht 0 _ rfl, unaryRule_of_calleeRule ht (mem_ends_of_stops hs) h]
  exact binaryRest_of_stops hs 0 _

theorem calleeRule_name (hx : isVariable x = true) (hnext : nextToken cs = some (t, newline', cs')) {m : Reader}
    (happlied : applied g c ⟨true, true⟩ (cs'.length + 2) (.name x) false ⟨t, newline', cs', k⟩ =
      some ((e, false), m)) :
    calleeRule g c ⟨.name x false, newline, cs, k⟩ = some (e, m) := by
  rw [calleeRule, bind_apply, operand_name hx hnext, Option.bind_some, bind_apply, remaining_apply, Option.bind_some,
    bind_apply, happlied]
  rfl

theorem calleeRule_string (q : Quoted) (hs : s ∈ ends) (hnext : nextToken cs = some (.symbol s, newline', b)) :
    calleeRule g c ⟨.string q, newline, cs, k⟩ = some (.string q, ⟨.symbol s, newline', b, k⟩) := by
  have hoperand : operand g c ⟨.string q, newline, cs, k⟩ = some (.string q, ⟨.symbol s, newline', b, k⟩) := by
    simp [operand, map_apply, advance_of_nextToken hnext]
  rw [calleeRule, bind_apply, hoperand, Option.bind_some, bind_apply, remaining_apply, Option.bind_some, bind_apply,
    applied_of_ends hs]
  rfl

end

/-! ## Arguments -/

/-- Up to a closing parenthesis, the text is a list of arguments. -/
inductive AreArguments (d : Nat) : List Char → List Expr → List Char → Prop
  | last {cs b : List Char} {e : Expr} : IsArgument d cs e ")" b → AreArguments d cs [e] b
  | more {cs cs' b : List Char} {e : Expr} {es : List Expr} :
    IsArgument d cs e "," cs' → AreArguments d cs' es b → AreArguments d cs (e :: es) b

section

variable {d depth : Nat} {cs cs' b b' : List Char} {e : Expr} {es : List Expr} {s x : String} {newline : Bool}

theorem IsArgument.mono (h : IsArgument d cs e s b) {d' : Nat} (hd : d ≤ d') : IsArgument d' cs e s b := by
  obtain ⟨t, newline, mid, hnext, hclose, hspread, hread⟩ := h
  exact ⟨t, newline, mid, hnext, hclose, hspread, fun depth hdepth => hread depth (hd.trans hdepth)⟩

theorem IsArgument.space (h : IsArgument d cs e s b) : IsArgument d (' ' :: cs) e s b := by
  rwa [IsArgument, nextToken_space]

/-- The expression of a text that is an argument up to the semicolon at its end. -/
theorem IsArgument.readExpression?_eq (h : IsArgument d cs e ";" []) (hd : d ≤ cs.length + 2) :
    readExpression? cs = some e := by
  obtain ⟨t, newline, mid, hnext, -, -, hread⟩ := h
  obtain ⟨newline', hread⟩ := hread _ hd
  have hexpression : (Rules.forText cs).expression .module ⟨t, newline, mid, 0⟩ =
      some (e, ⟨.symbol ";", newline', [], 0⟩) := by
    rw [Rules.expression, Rules.forText, bind_apply, hread]
    rfl
  rw [readExpression?, Reader.ofText, hnext]
  show ((Rules.forText cs).expression .module ⟨t, newline, mid, 0⟩).bind _ = _
  rw [hexpression]
  rfl

theorem AreArguments.commaItems_eq (h : AreArguments d cs es b) (hdepth : d ≤ depth) :
    ∃ t newline mid, nextToken cs = some (t, newline, mid) ∧ t ≠ .symbol ")" ∧ ∀ n, es.length ≤ n →
      ∃ newline', commaItems ")" (spreadable (Rules.ofDepth depth) .module) n ⟨t, newline, mid, 0⟩ =
        some ((es, false), ⟨.symbol ")", newline', b, 0⟩) := by
  have hitem {t : Token} {newline : Bool} {mid : List Char} (hspread : t ≠ .symbol "...") :
      spreadable (Rules.ofDepth depth) .module ⟨t, newline, mid, 0⟩ =
        (Rules.ofDepth depth).assignment .module ⟨t, newline, mid, 0⟩ := by
    rw [spreadable, bind_apply, eatSymbol_apply, if_neg hspread]
    rfl
  induction h with
  | last h =>
    obtain ⟨t, newline, mid, hnext, hclose, hspread, hread⟩ := h
    obtain ⟨newline', hread⟩ := hread depth hdepth
    refine ⟨t, newline, mid, hnext, hclose, fun n hn => ⟨newline', ?_⟩⟩
    obtain ⟨n, rfl⟩ := Nat.exists_eq_succ_of_ne_zero (Nat.ne_zero_of_lt hn)
    simp [commaItems, hclose, hitem hspread, hread, eatSymbol_apply]
  | more h _ ih =>
    obtain ⟨t, newline, mid, hnext, hclose, hspread, hread⟩ := h
    obtain ⟨newline', hread⟩ := hread depth hdepth
    obtain ⟨t', newline₁, mid', hnext', hclose', hmore⟩ := ih
    refine ⟨t, newline, mid, hnext, hclose, fun n hn => ?_⟩
    obtain ⟨n, rfl⟩ := Nat.exists_eq_succ_of_ne_zero (Nat.ne_zero_of_lt hn)
    obtain ⟨newline₂, hmore⟩ := hmore n (Nat.le_of_succ_le_succ hn)
    refine ⟨newline₂, ?_⟩
    simp [commaItems, hclose, hitem hspread, hread, eatSymbol_apply, advance_of_nextToken hnext', hclose', map_apply,
      hmore]

/-- Arguments in parentheses are read as they are. -/
theorem AreArguments.callArguments_eq (h : AreArguments d cs es b) (hdepth : d ≤ depth)
    (hlength : ∀ t newline mid, nextToken cs = some (t, newline, mid) → es.length ≤ mid.length + 2)
    (hnext : nextToken b = some (.symbol s, newline, b')) (newline' : Bool) :
    callArguments (Rules.ofDepth depth) .module ⟨.symbol "(", newline', cs, 0⟩ =
      some (es, ⟨.symbol s, newline, b', 0⟩) := by
  obtain ⟨t, newline₁, mid, hfirst, -, hitems⟩ := h.commaItems_eq hdepth
  obtain ⟨newline₂, hitems⟩ := hitems _ (hlength _ _ _ hfirst)
  simp [callArguments, bracketed, expectSymbol_apply, advance_of_nextToken hfirst, hitems,
    advance_of_nextToken hnext, map_apply]

theorem applied_call {g : Rules} {c : Context} {r m : Reader} (hr : r.token = .symbol "(")
    (h : callArguments g c r = some (es, m)) (n : Nat) :
    applied g c ⟨true, true⟩ (n + 1) e false r = applied g c ⟨true, true⟩ n (.call e es false) false m := by
  rw [applied, bind_apply, peek_apply, Option.bind_some, hr]
  show (callArguments g c >>= fun es => applied g c ⟨true, true⟩ n (.call e es false) false) r = _
  rw [bind_apply, h, Option.bind_some]

/-- A call of a variable, up to a stop. -/
theorem isArgument_call (hx : isVariable x = true) (h : AreArguments d cs es b)
    (hlength : ∀ t newline mid, nextToken cs = some (t, newline, mid) → es.length ≤ mid.length + 2)
    (hs : s ∈ stops) (hnext : nextToken b = some (.symbol s, newline, b')) :
    IsArgument (d + 1) (x.toList ++ '(' :: cs) (.call (.name x) es false) s b' := by
  have hends : EndsName '(' := endsName_of_mem (by decide)
  refine ⟨_, _, _, nextToken_variable hx hends _, nofun, nofun, fun depth hdepth => ?_⟩
  obtain ⟨depth, rfl⟩ : ∃ n, depth = n + 1 := ⟨depth - 1, by omega⟩
  refine ⟨newline, assignmentRule_of_calleeRule (.name hx) hs (calleeRule_name hx (nextToken_open cs) ?_)⟩
  have harguments := h.callArguments_eq (Nat.le_of_succ_le_succ hdepth) hlength hnext false
  rw [applied_call rfl harguments, applied_of_ends (mem_ends_of_stops hs)]

/-- A call of a member of a variable, up to a stop. -/
theorem isArgument_memberCall {y : String} (hx : isVariable x = true) (hy : isPlainIdentifier y = true)
    (hdot : nextToken ('.' :: (y.toList ++ '(' :: cs)) = some (.symbol ".", false, y.toList ++ '(' :: cs))
    (h : AreArguments d cs es b)
    (hlength : ∀ t newline mid, nextToken cs = some (t, newline, mid) → es.length ≤ mid.length + 2)
    (hs : s ∈ stops) (hnext : nextToken b = some (.symbol s, newline, b')) :
    IsArgument (d + 1) (x.toList ++ '.' :: (y.toList ++ '(' :: cs)) (.call (.member (.name x) y false) es false)
      s b' := by
  have hends : EndsName '(' := endsName_of_mem (by decide)
  have hends' : EndsName '.' := ⟨by decide, by decide, by decide, by decide⟩
  refine ⟨_, _, _, nextToken_variable hx hends' _, nofun, nofun, fun depth hdepth => ?_⟩
  obtain ⟨depth, rfl⟩ : ∃ n, depth = n + 1 := ⟨depth - 1, by omega⟩
  refine ⟨newline, assignmentRule_of_calleeRule (.name hx) hs (calleeRule_name hx hdot ?_)⟩
  have harguments := h.callArguments_eq (Nat.le_of_succ_le_succ hdepth) hlength hnext false
  have hmember : dotMember (.name x) false ⟨.name y false, false, '(' :: cs, 0⟩ =
      some (.member (.name x) y false, ⟨.symbol "(", false, cs, 0⟩) := by
    simp [dotMember, map_apply, advance_of_nextToken (nextToken_open cs)]
  rw [applied, bind_apply, peek_apply, Option.bind_some]
  show (advance >>= fun _ => dotMember (.name x) false >>= fun base => applied _ _ _ _ base false) _ = _
  rw [bind_apply, advance_of_nextToken (nextToken_name hy hends), Option.bind_some, bind_apply, hmember,
    Option.bind_some, applied_call rfl harguments]
  obtain ⟨n, hn⟩ : ∃ n, (y.toList ++ '(' :: cs).length = n + 1 := ⟨y.toList.length + cs.length, by simp; omega⟩
  rw [hn, applied_of_ends (mem_ends_of_stops hs)]

/-- A variable, up to a stop. -/
theorem isArgument_name (hx : isVariable x = true) {c : Char} (hc : EndsName c) (hs : s ∈ stops)
    (hnext : nextToken (c :: b) = some (.symbol s, newline, b')) :
    IsArgument 1 (x.toList ++ c :: b) (.name x) s b' := by
  refine ⟨_, _, _, nextToken_variable hx hc _, nofun, nofun, fun depth hdepth => ?_⟩
  obtain ⟨depth, rfl⟩ : ∃ n, depth = n + 1 := ⟨depth - 1, by omega⟩
  refine ⟨newline, assignmentRule_of_calleeRule (.name hx) hs (calleeRule_name hx hnext ?_)⟩
  exact applied_of_ends (mem_ends_of_stops hs) _ _ _

/-- A quoted text, up to a stop. -/
theorem isArgument_quote (text : String) (hs : s ∈ stops) (hnext : nextToken b = some (.symbol s, newline, b')) :
    IsArgument 1 ((Json.quote text).toList ++ b) (.string (quoted text)) s b' := by
  refine ⟨_, _, _, nextToken_quote text b, nofun, nofun, fun depth hdepth => ?_⟩
  obtain ⟨depth, rfl⟩ : ∃ n, depth = n + 1 := ⟨depth - 1, by omega⟩
  exact ⟨newline, assignmentRule_of_calleeRule (.string _) hs (calleeRule_string _ (mem_ends_of_stops hs) hnext)⟩

/-- A function without parameters. -/
theorem assignmentRule_arrow {g : Rules} {c : Context} {t : Token} {newline' : Bool} {cs₁ cs₂ cs₃ : List Char}
    {k : Nat} {m : Reader} (hclose : nextToken cs = some (.symbol ")", false, cs₁))
    (harrow : nextToken cs₁ = some (.symbol "=>", false, cs₂)) (hnext : nextToken cs₂ = some (t, newline', cs₃))
    (ht : t ≠ .symbol "\x7b")
    (h : g.assignment { c with allowsAwait := false, allowsYield := false, isTopLevel := false }
      ⟨t, newline', cs₃, k⟩ = some (e, m)) :
    assignmentRule g c ⟨.symbol "(", newline, cs, k⟩ = some (.arrowTo false [] e, m) := by
  have hguess : lookAhead guessArrow .no ⟨.symbol "(", newline, cs, k⟩ =
      some (.yes, ⟨.symbol "(", newline, cs, k⟩) := by
    simp [lookAhead, guessArrow, eatSymbol_apply, advance_of_nextToken hclose, guessAfterParen, map_apply,
      advance_of_nextToken harrow]
  have hparameters : arrowParameters g c ⟨.symbol "(", newline, cs, k⟩ =
      some ((false, []), ⟨.symbol "=>", false, cs₂, k⟩) := by
    simp [arrowParameters, eatWord, parameters, bracketed, expectSymbol_apply, advance_of_nextToken hclose,
      commaItems, advance_of_nextToken harrow, map_apply]
  simp [assignmentRule, atYield, hguess, arrowRule, hparameters, expectArrow, expectSymbol_apply,
    advance_of_nextToken hnext, arrowBody, ht, map_apply, h]

/-- A function without parameters that answers a variable, up to a stop. -/
theorem isArgument_arrow (hx : isVariable x = true) {c : Char} (hc : EndsName c) (hs : s ∈ stops)
    (hnext : nextToken (c :: b) = some (.symbol s, newline, b')) :
    IsArgument 2 ("() => ".toList ++ (x.toList ++ c :: b)) (.arrowTo false [] (.name x)) s b' := by
  refine ⟨.symbol "(", false, ") => ".toList ++ (x.toList ++ c :: b), rfl, nofun, nofun, fun depth hdepth => ?_⟩
  obtain ⟨depth, rfl⟩ : ∃ n, depth = n + 2 := ⟨depth - 2, by omega⟩
  have hname : nextToken (' ' :: (x.toList ++ c :: b)) = some (.name x false, false, c :: b) :=
    (nextToken_space _).trans (nextToken_variable hx hc _)
  refine ⟨newline, assignmentRule_arrow rfl rfl hname nofun ?_⟩
  exact assignmentRule_of_calleeRule (.name hx) hs
    (calleeRule_name hx hnext (applied_of_ends (mem_ends_of_stops hs) _ _ _))

end

/-! ## Spliced texts -/

section

variable {after : List Char}

/-- A text comes to a symbol that follows at once. -/
theorem comes_of_mem {c : Char} (hc : c ∈ [',', ')', ';']) {k : Stop} (hk : k.symbol = String.singleton c) :
    k.Comes c k.after := by
  simp only [List.mem_cons, List.not_mem_nil, or_false] at hc
  rcases hc with rfl | rfl | rfl
  all_goals exact ⟨breaks_of_mem (by decide), by decide, fun newline => ⟨_ :: k.after, rfl, hk ▸ rfl⟩⟩

/-- A text comes to a colon behind a blank. -/
theorem comes_colon {k : Stop} (hk : k.symbol = ":") : k.Comes ' ' (':' :: k.after) :=
  ⟨breaks_of_mem (by decide), by decide, fun newline => ⟨':' :: k.after, rfl, hk ▸ rfl⟩⟩

variable {k : Stop} {c : Char} {code : List Char} {e : Expr} (hcode : readExpression? (code ++ [';']) = some e)
  (hplain : isPlainText code = true)

include hcode hplain

theorem isArgument_comma (hlevel : 0 < e.level) (b : List Char) :
    IsArgument (code.length + 3) (code ++ ',' :: b) e "," b := by
  have hk : (Stop.mk "," b (by decide)).Comes ',' b := comes_of_mem (by decide) rfl
  exact isArgument_spliced hcode hplain hk hlevel

theorem isArgument_close (hlevel : 0 < e.level) (b : List Char) :
    IsArgument (code.length + 3) (code ++ ')' :: b) e ")" b := by
  have hk : (Stop.mk ")" b (by decide)).Comes ')' b := comes_of_mem (by decide) rfl
  exact isArgument_spliced hcode hplain hk hlevel

variable (hk : k.Comes c after)

include hk

/-- A text that binds above comparisons is the right operand of a comparison. -/
theorem isArgument_comparison {x : String} (hx : isVariable x = true) {op : String} (hop : op ∈ ["<=", ">="])
    (hlevel : 9 < e.level) :
    IsArgument (code.length + 4) (x.toList ++ ' ' :: (op.toList ++ ' ' :: (code ++ c :: after)))
      (.binary op (.name x) e) k.symbol k.after := by
  have hends : EndsName ' ' := endsName_of_mem (by decide)
  obtain ⟨hop', hop_ends, hoperator, habove, hmix⟩ :
      nextToken (' ' :: (op.toList ++ ' ' :: (code ++ c :: after))) =
        some (.symbol op, false, ' ' :: (code ++ c :: after)) ∧ op ∈ ends ∧
      binaryOperator? .module (.symbol op) = some (op, 8) ∧ bindsAbove op 8 0 = true ∧
      mixes op (.name x) e = false := by
    simp only [List.mem_cons, List.not_mem_nil, or_false] at hop
    rcases hop with rfl | rfl <;> exact ⟨rfl, by decide, rfl, rfl, rfl⟩
  refine ⟨_, _, _, nextToken_variable hx hends _, nofun, nofun, fun depth hdepth => ?_⟩
  obtain ⟨depth, rfl⟩ : ∃ n, depth = n + 1 := ⟨depth - 1, by omega⟩
  obtain ⟨t, newline, u, newline', hnext, hread⟩ :=
    exists_binary_spliced hcode hplain hk (Nat.le_of_succ_le_succ hdepth) hlevel
  refine ⟨newline', assignmentRule_of_binaryRule (.name hx) k.isStop ?_⟩
  have hleft : unaryRule (Rules.ofDepth depth) .module
      ⟨.name x false, false, ' ' :: (op.toList ++ ' ' :: (code ++ c :: after)), 0⟩ =
        some (.name x, ⟨.symbol op, false, ' ' :: (code ++ c :: after), 0⟩) :=
    unaryRule_of_calleeRule (.name hx) hop_ends (calleeRule_name hx hop' (applied_of_ends hop_ends _ _ _))
  have hadvance : advance ⟨.symbol op, false, ' ' :: (code ++ c :: after), 0⟩ =
      some ((), ⟨t, newline, u ++ c :: after, 0⟩) :=
    advance_of_nextToken ((nextToken_space _).trans hnext) _
  rw [binaryRule_of_isHead (.name hx) 0 _ rfl, hleft, Option.bind_some, binaryRest_succ]
  simp only [hoperator, habove, if_true]
  rw [bind_apply, hadvance, Option.bind_some, bind_apply, hread, Option.bind_some, bind_apply, hmix]
  exact binaryRest_of_stops k.isStop 0 _

end

/-! ## Choices -/

/-- The choice behind a test, in a text that ends with a semicolon. -/
def readChoice? (test : Expr) (cs : List Char) : Option Expr := do
  let r ← Reader.ofText cs
  let (e, r) ← conditionalRest (Rules.forText cs) .module test r
  guard (r.covers == 0 && r.token == .symbol ";" && r.rest.isEmpty)
  pure e

theorem IsArgument.readChoice?_eq {d : Nat} {cs cs' : List Char} {yes no : Expr} (hyes : IsArgument d cs yes ":" cs')
    (hno : IsArgument d cs' no ";" []) (hd : d ≤ cs.length) (test : Expr) :
    readChoice? test ('?' :: ' ' :: cs) = some (.conditional test yes no) := by
  obtain ⟨t, newline, mid, hnext, -, -, hread⟩ := hyes.space
  obtain ⟨newline₁, hread⟩ := hread (cs.length + 4) (by omega)
  obtain ⟨t', newline₂, mid', hnext', -, -, hread'⟩ := hno
  obtain ⟨newline₃, hread'⟩ := hread' (cs.length + 4) (by omega)
  have hcolon : expectSymbol ":" ⟨.symbol ":", newline₁, cs', 0⟩ = some ((), ⟨t', newline₂, mid', 0⟩) := by
    rw [expectSymbol_apply, if_pos rfl, advance_of_nextToken hnext']
  have hquestion : eatSymbol "?" ⟨.symbol "?", false, ' ' :: cs, 0⟩ = some (true, ⟨t, newline, mid, 0⟩) := by
    rw [eatSymbol_apply, if_pos rfl, advance_of_nextToken hnext]
    rfl
  have hchoice : conditionalRest (Rules.ofDepth (cs.length + 4)) .module test ⟨.symbol "?", false, ' ' :: cs, 0⟩ =
      some (.conditional test yes no, ⟨.symbol ";", newline₃, [], 0⟩) :=
    bind_eq_some_iff.mpr ⟨true, _, hquestion, bind_eq_some_iff.mpr ⟨yes, _, hread,
      bind_eq_some_iff.mpr ⟨(), _, hcolon, bind_eq_some_iff.mpr ⟨no, _, hread', rfl⟩⟩⟩⟩
  show (conditionalRest _ .module test ⟨.symbol "?", false, ' ' :: cs, 0⟩).bind _ = _
  rw [Rules.forText, List.length_cons, List.length_cons, hchoice]
  rfl

theorem separates_of_readChoice? {test yes no : Expr} {cs : List Char}
    (h : readChoice? test cs = some (.conditional test yes no)) : yes.Separates := by
  obtain ⟨r, -, h⟩ := Option.bind_eq_some_iff.mp h
  obtain ⟨⟨e, m⟩, hchoice, h⟩ := Option.bind_eq_some_iff.mp h
  obtain ⟨-, -, heq⟩ := Option.bind_eq_some_iff.mp h
  cases heq
  obtain ⟨more, r₁, -, hchoice⟩ := bind_eq_some_iff.mp hchoice
  split at hchoice
  · obtain ⟨yes', r₂, hyes, hchoice⟩ := bind_eq_some_iff.mp hchoice
    obtain ⟨-, r₃, -, hchoice⟩ := bind_eq_some_iff.mp hchoice
    obtain ⟨no', r₄, -, heq⟩ := bind_eq_some_iff.mp hchoice
    cases heq
    exact ((binds_ofDepth _).assignment _ _ _ _ hyes).2
  · have hsize := congrArg sizeOf (Prod.mk.inj (Option.some.inj hchoice)).1
    simp at hsize
    omega

end Grammar

end TemplateCompiler.Script
