import TemplateCompiler.Proofs.Json.Depth
import TemplateCompiler.Proofs.Json.Numbers

/-!
# Values read back

The compact text of a value is read back as the value (`readValue_render`), wherever the text goes on with
something that does not belong to a number. As a text of its own it is read exactly if the value does not nest
too deep (`read_render`). Lists of items are read back for all items that are, whatever blanks stand behind the
commas (`readList_intercalate`).
-/

namespace TemplateCompiler.Json

open Decimal (Binary64 signed)
open Text

/-! ## Blanks -/

/-- A blank of JSON. -/
def isBlank (c : Char) : Bool := c == ' ' || c == '\t' || c == '\n' || c == '\r'

theorem skipBlanks_append {gap : List Char} (hgap : ∀ c ∈ gap, isBlank c = true) (cs : List Char) :
    skipBlanks (gap ++ cs) = skipBlanks cs := List.dropWhile_append_of_pos hgap

theorem skipBlanks_cons {c : Char} (hc : isBlank c = false) (cs : List Char) :
    skipBlanks (c :: cs) = c :: cs := List.dropWhile_cons_of_neg (Bool.eq_false_iff.mp hc)

theorem isPlainPart_of_isBlank {c : Char} (hc : isBlank c = true) : isPlainPart c = false ∧ c ≠ '.' := by
  unfold isBlank at hc
  simp only [Bool.or_eq_true, beq_iff_eq] at hc
  rcases hc with ((rfl | rfl) | rfl) | rfl <;> decide

theorem endsWord_append {gap cs : List Char} (hgap : ∀ c ∈ gap, isBlank c = true)
    (hcs : EndsWord cs) : EndsWord (gap ++ cs) := by
  cases gap with
  | nil => exact hcs
  | cons b gap =>
    exact endsWord_cons (isPlainPart_of_isBlank (hgap b List.mem_cons_self)) _

/-! ## Strings -/

-- The characters that are written with their codes.
theorem readUnicode_control : ∀ n < 32, ofDigits 16 ['0', '0', hexDigit (n / 16), hexDigit n] = n ∧
    ['0', '0', hexDigit (n / 16), hexDigit n].all (isDigitOf 16) = true := by
  decide

theorem readEscape_control {c : Char} (hc : c.toNat < 32) (more : List Char) :
    readEscape ('u' :: '0' :: '0' :: hexDigit (c.toNat / 16) :: hexDigit c.toNat :: more) =
      some (c, more) := by
  obtain ⟨hvalue, hdigits⟩ := readUnicode_control c.toNat hc
  have hread : readHex4 ('0' :: '0' :: hexDigit (c.toNat / 16) :: hexDigit c.toNat :: more) =
      some (c.toNat, more) := by
    show (if (decide (['0', '0', hexDigit (c.toNat / 16), hexDigit c.toNat].length = 4) &&
        ['0', '0', hexDigit (c.toNat / 16), hexDigit c.toNat].all (isDigitOf 16)) = true then
      some (ofDigits 16 ['0', '0', hexDigit (c.toNat / 16), hexDigit c.toNat], more) else none) = _
    rw [hdigits, hvalue]
    rfl
  show readUnicode _ = _
  unfold readUnicode
  rw [hread]
  dsimp only [Option.bind_eq_bind, Option.bind_some]
  have hlow : (decide (0xDC00 ≤ c.toNat) && decide (c.toNat ≤ 0xDFFF)) = false := by
    rw [decide_eq_false (by omega), Bool.false_and]
  have hhigh : (decide (0xD800 ≤ c.toNat) && decide (c.toNat ≤ 0xDBFF)) = false := by
    rw [decide_eq_false (by omega), Bool.false_and]
  rw [hlow, hhigh, if_neg Bool.false_ne_true, if_neg Bool.false_ne_true, Char.ofNat_toNat]

/-- One step reads one character, escaped or not. -/
theorem readChars_escapeChar (steps : Nat) (text : List Char) (c : Char) (more : List Char) :
    readChars (steps + 1) text (escapeChar c ++ more) = readChars steps (c :: text) more := by
  have hescape {d : Char} {cs : List Char} (h : readEscape (cs ++ more) = some (d, more)) :
      readChars (steps + 1) text ('\\' :: cs ++ more) = readChars steps (d :: text) more := by
    rw [List.cons_append, readChars]
    simp [h]
  unfold escapeChar
  split_ifs with hquote hslash hb hf hn hr ht hcontrol
  · rw [beq_iff_eq.mp hquote]
    exact hescape rfl
  · rw [beq_iff_eq.mp hslash]
    exact hescape rfl
  · rw [beq_iff_eq.mp hb]
    exact hescape rfl
  · rw [beq_iff_eq.mp hf]
    exact hescape rfl
  · rw [beq_iff_eq.mp hn]
    exact hescape rfl
  · rw [beq_iff_eq.mp hr]
    exact hescape rfl
  · rw [beq_iff_eq.mp ht]
    exact hescape rfl
  · exact hescape (readEscape_control hcontrol more)
  · show readChars (steps + 1) text (c :: more) = _
    rw [readChars, if_neg hquote, if_neg hslash, if_neg hcontrol]

theorem readChars_flatMap (cs : List Char) (rest : List Char) {steps : Nat} (text : List Char)
    (hsteps : cs.length < steps) :
    readChars steps text (cs.flatMap escapeChar ++ '\x22' :: rest) = some (cs.reverse ++ text, rest) := by
  induction cs generalizing steps text with
  | nil =>
    obtain ⟨k, rfl⟩ := Nat.exists_eq_succ_of_ne_zero (Nat.ne_zero_of_lt hsteps)
    rfl
  | cons c cs ih =>
    obtain ⟨k, rfl⟩ := Nat.exists_eq_succ_of_ne_zero (Nat.ne_zero_of_lt hsteps)
    rw [List.flatMap_cons, List.append_assoc, readChars_escapeChar,
      ih (c :: text) (Nat.lt_of_succ_lt_succ hsteps), List.reverse_cons, List.append_assoc,
      List.singleton_append]

theorem length_le_length_flatMap (cs : List Char) : cs.length ≤ (cs.flatMap escapeChar).length := by
  have hone (c : Char) : 0 < (escapeChar c).length := by
    unfold escapeChar
    split_ifs <;> exact Nat.succ_pos _
  induction cs with
  | nil => exact le_rfl
  | cons c cs ih =>
    have hc := hone c
    rw [List.flatMap_cons, List.length_append, List.length_cons]
    omega

/-- A string is read back after its opening quote. -/
theorem readString_append (s : String) (rest : List Char) :
    readString (s.toList.flatMap escapeChar ++ '\x22' :: rest) = some (s, rest) := by
  have hlength := length_le_length_flatMap s.toList
  unfold readString
  rw [readChars_flatMap s.toList rest [] (by rw [List.length_append]; omega)]
  show some (String.ofList (s.toList.reverse ++ []).reverse, rest) = _
  rw [List.append_nil, List.reverse_reverse, String.ofList_toList]

/-! ## Lists -/

/-- A character that can close a list: no item goes on with it, nor the space between items. -/
def IsBracket (c : Char) : Prop := isBlank c = false ∧ c ≠ ',' ∧ isPlainPart c = false ∧ c ≠ '.'

instance : DecidablePred IsBracket := fun c =>
  inferInstanceAs (Decidable (isBlank c = false ∧ c ≠ ',' ∧ isPlainPart c = false ∧ c ≠ '.'))

/-- An item is written with a character in front that is no blank and does not close the list, and is read
back behind any blanks. -/
structure ReadsBack {α : Type} (item : List Char → Option (α × List Char)) (close : Char)
    (text : List Char) (x : α) : Prop where
  starts : ∃ c cs, text = c :: cs ∧ isBlank c = false ∧ c ≠ close
  reads : ∀ gap rest, (∀ c ∈ gap, isBlank c = true) → EndsWord rest →
    item (gap ++ (text ++ rest)) = some (x, rest)

section

variable {α β : Type} {item : List Char → Option (α × List Char)} {close : Char}
  {text : β → List Char} {value : β → α} {gap tail : List Char}

theorem readItems_intercalate (hclose : IsBracket close)
    (hgap : ∀ c ∈ gap, isBlank c = true) (htail : ∀ c ∈ tail, isBlank c = true) (rest : List Char)
    {xs : List β} (hxs : xs ≠ []) (hitems : ∀ x ∈ xs, ReadsBack item close (text x) (value x))
    {steps : Nat} (hsteps : xs.length ≤ steps) {lead : List Char} (hlead : ∀ c ∈ lead, isBlank c = true) :
    readItems item close steps
        (lead ++ (List.intercalate (',' :: gap) (xs.map text) ++ (tail ++ close :: rest))) =
      some (xs.map value, rest) := by
  obtain ⟨hblank, hcomma, hends⟩ := hclose
  have hcommaEnds (cs : List Char) : EndsWord (',' :: cs) := endsWord_cons (by decide) cs
  induction xs generalizing steps lead with
  | nil => exact absurd rfl hxs
  | cons x xs ih =>
    obtain ⟨k, rfl⟩ := Nat.exists_eq_succ_of_ne_zero (Nat.ne_zero_of_lt hsteps)
    have hx := (hitems x List.mem_cons_self).reads lead
    cases xs with
    | nil =>
      have hend : EndsWord (tail ++ close :: rest) := endsWord_append htail (endsWord_cons hends rest)
      rw [List.map_singleton, List.intercalate_singleton, readItems, hx _ hlead hend]
      dsimp only [Option.bind_eq_bind, Option.bind_some]
      rw [skipBlanks_append htail, skipBlanks_cons hblank]
      dsimp only
      rw [beq_self_eq_true, if_pos rfl]
      rfl
    | cons y ys =>
      have hmore := ih (List.cons_ne_nil y ys) (fun z hz => hitems z (List.mem_cons_of_mem x hz))
        (Nat.le_of_succ_le_succ hsteps) hgap
      rw [List.map_cons, List.map_cons, List.intercalate_cons_cons, ← List.map_cons, readItems]
      simp only [List.append_assoc, List.cons_append]
      rw [hx _ hlead (hcommaEnds _)]
      dsimp only [Option.bind_eq_bind, Option.bind_some]
      rw [skipBlanks_cons (by decide)]
      dsimp only
      rw [if_neg (by simpa using hcomma.symm), hmore]
      rfl

theorem length_le_length_intercalate {sep : List Char} {ls : List (List Char)} {l : List Char}
    (h : l ∈ ls) : l.length ≤ (List.intercalate sep ls).length := by
  induction ls with
  | nil => exact (List.not_mem_nil h).elim
  | cons k ls ih =>
    cases ls with
    | nil =>
      rw [List.mem_singleton.mp h, List.intercalate_singleton]
    | cons k' ls =>
      rw [List.intercalate_cons_cons, List.length_append, List.length_append]
      rcases List.mem_cons.mp h with rfl | h
      · omega
      · have hle := ih h
        omega

-- There are no more items than characters.
theorem length_le_length_intercalate_map (gap : List Char) {xs : List β}
    (hne : ∀ x ∈ xs, text x ≠ []) :
    xs.length ≤ (List.intercalate (',' :: gap) (xs.map text)).length := by
  induction xs with
  | nil => exact Nat.zero_le _
  | cons x xs ih =>
    have hx := List.length_pos_iff.mpr (hne x List.mem_cons_self)
    cases xs with
    | nil =>
      rw [List.map_singleton, List.intercalate_singleton]
      exact hx
    | cons y ys =>
      have hle := ih fun z hz => hne z (List.mem_cons_of_mem x hz)
      rw [List.map_cons, List.map_cons, List.intercalate_cons_cons, ← List.map_cons, List.length_append,
        List.length_append, List.length_cons]
      omega

/-- Items are read back up to the mark that closes their list. -/
theorem readList_intercalate (hclose : IsBracket close)
    (hgap : ∀ c ∈ gap, isBlank c = true) (htail : ∀ c ∈ tail, isBlank c = true) (rest : List Char)
    {xs : List β} (hitems : ∀ x ∈ xs, ReadsBack item close (text x) (value x)) {lead : List Char}
    (hlead : ∀ c ∈ lead, isBlank c = true) :
    readList item close
        (lead ++ (List.intercalate (',' :: gap) (xs.map text) ++ (tail ++ close :: rest))) =
      some (xs.map value, rest) := by
  unfold readList
  rw [skipBlanks_append hlead]
  cases xs with
  | nil =>
    have hskip : skipBlanks (tail ++ close :: rest) = close :: rest :=
      (skipBlanks_append htail _).trans (skipBlanks_cons hclose.1 _)
    rw [List.map_nil, List.intercalate_nil, List.nil_append]
    rw [hskip]
    dsimp only
    rw [beq_self_eq_true, if_pos rfl]
    rfl
  | cons x xs =>
    obtain ⟨c, cs, hx, hblank, hne⟩ := (hitems x List.mem_cons_self).starts
    obtain ⟨more, hmore⟩ : ∃ more, List.intercalate (',' :: gap) ((x :: xs).map text) = c :: more := by
      cases xs with
      | nil => exact ⟨cs, by rw [List.map_singleton, List.intercalate_singleton, hx]⟩
      | cons y ys =>
        rw [List.map_cons, List.map_cons, List.intercalate_cons_cons, hx, List.cons_append,
          List.cons_append]
        exact ⟨_, rfl⟩
    have hcount : (x :: xs).length ≤
        (lead ++ (List.intercalate (',' :: gap) ((x :: xs).map text) ++ (tail ++ close :: rest))).length := by
      have hne : ∀ y ∈ x :: xs, text y ≠ [] := by
        intro y hy
        obtain ⟨d, ds, hy, -⟩ := (hitems y hy).starts
        rw [hy]
        exact List.cons_ne_nil _ _
      have hle := length_le_length_intercalate_map gap hne
      rw [List.length_append, List.length_append]
      omega
    have hskip : skipBlanks (List.intercalate (',' :: gap) ((x :: xs).map text) ++ (tail ++ close :: rest)) =
        c :: (more ++ (tail ++ close :: rest)) := by
      rw [hmore, List.cons_append, skipBlanks_cons hblank]
    rw [hskip]
    dsimp only
    rw [if_neg (by simpa using hne)]
    exact readItems_intercalate hclose hgap htail rest (List.cons_ne_nil x xs) hitems hcount hlead

end

/-! ## Values -/

/-- The numbers in a value are ones that are read back. -/
inductive IsValid : Json → Prop
  | null : IsValid .null
  | boolean (b : Bool) : IsValid (.boolean b)
  | integer {n : Int} (h : IsInteger n) : IsValid (.integer n)
  | real {x : Binary64} (h : IsReal x) : IsValid (.real x)
  | string (s : String) : IsValid (.string s)
  | array {es : List Json} (h : ∀ e ∈ es, IsValid e) : IsValid (.array es)
  | object {ms : List (String × Json)} (h : ∀ m ∈ ms, IsValid m.2) : IsValid (.object ms)

theorem toList_render_array (es : List Json) :
    (Json.array es).render.toList =
      '[' :: (List.intercalate [','] (es.map fun e => e.render.toList) ++ [']']) := by
  have helements : renderElements es = es.map render := by
    induction es with
    | nil => rfl
    | cons e es ih => rw [renderElements, ih, List.map_cons]
  rw [render, helements]
  simp [String.toList_intercalate, Function.comp_def]

/-- The text of a member. -/
def memberChars (m : String × Json) : List Char :=
  '\x22' :: (m.1.toList.flatMap escapeChar ++ '\x22' :: ':' :: m.2.render.toList)

theorem toList_render_object (ms : List (String × Json)) :
    (Json.object ms).render.toList =
      '\x7b' :: (List.intercalate [','] (ms.map memberChars) ++ ['\x7d']) := by
  have hmembers : renderMembers ms = ms.map renderMember := by
    induction ms with
    | nil => rfl
    | cons m ms ih => rw [renderMembers, ih, List.map_cons]
  have hmember (m : String × Json) : (renderMember m).toList = memberChars m := by
    rw [renderMember]
    simp [toList_quote, memberChars]
  rw [render, hmembers]
  simp [String.toList_intercalate, Function.comp_def, hmember]

theorem dropWord_append (word : String) (rest : List Char) :
    dropWord word (word.toList ++ rest) = some rest := by
  unfold dropWord
  dsimp only
  rw [if_pos (List.isPrefixOf_iff_prefix.mpr (List.prefix_append _ _)), List.drop_left]

-- A text that starts like a number is read as one.
theorem readValue_of_number {c : Char} (hc : c = '-' ∨ isAsciiDigit c = true) (depth : Nat)
    (cs : List Char) : readValue depth (c :: cs) = readNumber (c :: cs) := by
  have hnumber : (c == '-' || isAsciiDigit c) = true := by simpa using hc
  have hne {d : Char} (hd : d ≠ '-') (hd' : isAsciiDigit d = false) : c ≠ d := by
    rintro rfl
    rcases hc with hc | hc
    · exact hd hc
    · rw [hd'] at hc
      cases hc
  have hquote : (c == '\x22') = false := beq_eq_false_iff_ne.mpr (hne (by decide) (by decide))
  have hblank : isBlank c = false := by
    unfold isBlank
    simp [hne (d := ' ') (by decide) (by decide), hne (d := '\t') (by decide) (by decide),
      hne (d := '\n') (by decide) (by decide), hne (d := '\r') (by decide) (by decide)]
  unfold readValue
  rw [skipBlanks_cons hblank]
  dsimp only
  rw [hquote, if_neg Bool.false_ne_true, if_pos hnumber]

theorem readValue_append {gap : List Char} (hgap : ∀ c ∈ gap, isBlank c = true) (depth : Nat)
    (cs : List Char) : readValue depth (gap ++ cs) = readValue depth cs := by
  unfold readValue
  rw [skipBlanks_append hgap]

theorem readsBack_of_spelling {s : Spelling} {j : Json} (hs : s.IsStrict) (hvalue : s.value = some j)
    (depth : Nat) : ReadsBack (readValue depth) ']' s.chars j := by
  obtain ⟨c, cs, hchars, hc⟩ : ∃ c cs, s.chars = c :: cs ∧ (c = '-' ∨ isAsciiDigit c = true) := by
    unfold Spelling.chars signed
    cases s.negative with
    | true => exact ⟨'-', _, rfl, .inl rfl⟩
    | false =>
      obtain ⟨d, ds, hwhole⟩ := List.exists_cons_of_ne_nil hs.whole.ne_nil
      rw [hwhole]
      exact ⟨d, _, rfl, .inr (hs.whole.digits d (hwhole ▸ List.mem_cons_self))⟩
  refine ⟨⟨c, cs, hchars, ?_, ?_⟩, fun gap rest hgap hrest => ?_⟩
  · rw [← Bool.not_eq_true]
    intro hblank
    unfold isBlank at hblank
    simp only [Bool.or_eq_true, beq_iff_eq] at hblank
    rcases hblank with ((rfl | rfl) | rfl) | rfl <;> exact absurd hc (by decide)
  · rintro rfl
    exact absurd hc (by decide)
  · rw [readValue_append hgap, hchars, List.cons_append, readValue_of_number hc, ← List.cons_append,
      ← hchars, readNumber_chars hs hrest, hvalue]
    rfl

theorem readsBack_of_word {word : String} {c : Char} {cs : List Char} {j : Json} {depth : Nat}
    (hchars : word.toList = c :: cs) (hblank : isBlank c = false) (hclose : c ≠ ']')
    (hword : ∀ rest, readValue depth (c :: rest) = (dropWord word (c :: rest)).map (j, ·)) :
    ReadsBack (readValue depth) ']' word.toList j := by
  refine ⟨⟨c, cs, hchars, hblank, hclose⟩, fun gap rest hgap _ => ?_⟩
  rw [readValue_append hgap, hchars, List.cons_append, hword, ← List.cons_append, ← hchars,
    dropWord_append]
  rfl

theorem readValue_bracket (depth : Nat) (cs : List Char) :
    readValue (depth + 1) ('[' :: cs) =
      (readList (readValue depth) ']' cs).map fun (es, rest) => (.array es, rest) := by
  rw [readValue, skipBlanks_cons (by decide)]
  rfl

theorem readValue_brace (depth : Nat) (cs : List Char) :
    readValue (depth + 1) ('\x7b' :: cs) =
      (readList (readMember (readValue depth)) '\x7d' cs).map fun (ms, rest) => (.object ms, rest) := by
  rw [readValue, skipBlanks_cons (by decide)]
  rfl

theorem readsBack_array {β : Type} {text : β → List Char} {value : β → Json} {gap : List Char}
    {depth : Nat} (hgap : ∀ c ∈ gap, isBlank c = true) {xs : List β}
    (hitems : ∀ x ∈ xs, ReadsBack (readValue depth) ']' (text x) (value x)) :
    ReadsBack (readValue (depth + 1)) ']'
      ('[' :: (List.intercalate (',' :: gap) (xs.map text) ++ [']'])) (.array (xs.map value)) := by
  have hnil : ∀ c ∈ ([] : List Char), isBlank c = true := List.forall_mem_nil _
  refine ⟨⟨_, _, rfl, by decide, by decide⟩, fun lead rest hlead _ => ?_⟩
  rw [readValue_append hlead, List.cons_append, List.append_assoc, readValue_bracket]
  have hlist := readList_intercalate (by decide) hgap hnil rest hitems hnil
  exact congrArg (Option.map _) hlist

theorem readMember_of_parts {value : List Char → Option (Json × List Char)}
    {cs chars rest tail more : List Char} {key : String} {j : Json} (hquote : skipBlanks cs = '\x22' :: chars)
    (hkey : readString chars = some (key, rest)) (hcolon : skipBlanks rest = ':' :: tail)
    (hvalue : value tail = some (j, more)) : readMember value cs = some ((key, j), more) := by
  unfold readMember
  rw [hquote]
  show (readString chars).bind _ = _
  rw [hkey, Option.bind_some]
  dsimp only
  rw [hcolon]
  show (value tail).bind _ = _
  rw [hvalue]
  rfl

theorem readsBack_member {value : List Char → Option (Json × List Char)} {m : String × Json}
    (h : ∀ rest, EndsWord rest → value (m.2.render.toList ++ rest) = some (m.2, rest)) :
    ReadsBack (readMember value) '\x7d' (memberChars m) m := by
  refine ⟨⟨_, _, rfl, by decide, by decide⟩, fun gap rest hgap hrest => ?_⟩
  have hquote : skipBlanks (gap ++ (memberChars m ++ rest)) =
      '\x22' :: (m.1.toList.flatMap escapeChar ++ '\x22' :: ':' :: (m.2.render.toList ++ rest)) := by
    rw [skipBlanks_append hgap, memberChars, List.cons_append, List.append_assoc, List.cons_append,
      List.cons_append, skipBlanks_cons (by decide)]
  exact readMember_of_parts hquote (readString_append _ _) (skipBlanks_cons (by decide) _) (h rest hrest)

theorem readsBack_string (s : String) (depth : Nat) :
    ReadsBack (readValue depth) ']' (quote s).toList (.string s) := by
  rw [toList_quote]
  refine ⟨⟨_, _, rfl, by decide, by decide⟩, fun gap rest hgap _ => ?_⟩
  rw [readValue_append hgap, List.cons_append, List.append_assoc, readValue, skipBlanks_cons (by decide)]
  show (readString (s.toList.flatMap escapeChar ++ '\x22' :: rest)).map _ = _
  rw [readString_append]
  rfl

theorem readsBack_object {depth : Nat} {ms : List (String × Json)}
    (hmembers : ∀ m ∈ ms, ReadsBack (readMember (readValue depth)) '\x7d' (memberChars m) (id m)) :
    ReadsBack (readValue (depth + 1)) ']'
      ('\x7b' :: (List.intercalate [','] (ms.map memberChars) ++ ['\x7d'])) (.object ms) := by
  have hnil : ∀ c ∈ ([] : List Char), isBlank c = true := List.forall_mem_nil _
  refine ⟨⟨_, _, rfl, by decide, by decide⟩, fun lead rest hlead _ => ?_⟩
  rw [readValue_append hlead, List.cons_append, List.append_assoc, readValue_brace]
  have hlist := readList_intercalate (by decide) hnil hnil rest hmembers hnil
  rw [List.map_id] at hlist
  exact congrArg (Option.map _) hlist

/-- A value is read back from its text, if arrays and objects may nest as deep as they do in it. -/
theorem readValue_render {j : Json} (h : IsValid j) {depth : Nat}
    (hdepth : j.depth ≤ depth) :
    ReadsBack (readValue depth) ']' j.render.toList j := by
  have hnil : ∀ c ∈ ([] : List Char), isBlank c = true := List.forall_mem_nil _
  induction h generalizing depth with
  | null =>
    rw [render]
    have hchars : "null".toList = 'n' :: ['u', 'l', 'l'] := by decide
    refine readsBack_of_word hchars (by decide) (by decide) ?_
    intro rest
    rw [readValue, skipBlanks_cons (by decide)]
    rfl
  | boolean b =>
    cases b with
    | true =>
      have hchars : "true".toList = 't' :: ['r', 'u', 'e'] := by decide
      refine readsBack_of_word hchars (by decide) (by decide) ?_
      intro rest
      rw [readValue, skipBlanks_cons (by decide)]
      rfl
    | false =>
      have hchars : "false".toList = 'f' :: ['a', 'l', 's', 'e'] := by decide
      refine readsBack_of_word hchars (by decide) (by decide) ?_
      intro rest
      rw [readValue, skipBlanks_cons (by decide)]
      rfl
  | integer h =>
    obtain ⟨s, hs, hchars, hvalue⟩ := exists_spelling_integer _ h
    rw [show (render (.integer _)).toList = s.chars from hchars]
    exact readsBack_of_spelling hs hvalue depth
  | real h =>
    obtain ⟨s, hs, hchars, hvalue⟩ := exists_spelling_real h
    rw [show (render (.real _)).toList = s.chars from hchars]
    exact readsBack_of_spelling hs hvalue depth
  | string s => exact readsBack_string s depth
  | @array es _ ih =>
    -- an array or object takes one level of the depth, its members are read with the rest
    obtain ⟨depth, rfl⟩ : ∃ d, depth = d + 1 := Nat.exists_eq_succ_of_ne_zero (Nat.ne_zero_of_lt hdepth)
    rw [depth_array_le_iff] at hdepth
    rw [toList_render_array]
    have hitems : ∀ e ∈ es, ReadsBack (readValue depth) ']' e.render.toList (id e) :=
      fun e he => ih e he (hdepth e he)
    have harray := readsBack_array hnil hitems
    rwa [List.map_id] at harray
  | @object ms _ ih =>
    obtain ⟨depth, rfl⟩ : ∃ d, depth = d + 1 := Nat.exists_eq_succ_of_ne_zero (Nat.ne_zero_of_lt hdepth)
    rw [depth_object_le_iff] at hdepth
    rw [toList_render_object]
    refine readsBack_object fun m hm => ?_
    have hread : ReadsBack (readValue depth) ']' m.2.render.toList m.2 := ih m hm (hdepth m hm)
    exact readsBack_member fun rest => hread.reads [] rest hnil

-- Each level is opened by a character.
theorem IsValid.depth_le_length {j : Json} (h : IsValid j) : j.depth ≤ j.render.toList.length := by
  induction h with
  | null | boolean _ | integer _ | real _ | string _ => exact Nat.zero_le _
  | @array es _ ih =>
    rw [toList_render_array, List.length_cons, List.length_append, depth_array_le_iff]
    intro e he
    have hle : e.render.toList.length ≤
        (List.intercalate [','] (es.map fun e => e.render.toList)).length :=
      length_le_length_intercalate (List.mem_map.mpr ⟨e, he, rfl⟩)
    have hdepth := ih e he
    omega
  | @object ms _ ih =>
    rw [toList_render_object, List.length_cons, List.length_append, depth_object_le_iff]
    intro m hm
    have hle : (memberChars m).length ≤ (List.intercalate [','] (ms.map memberChars)).length :=
      length_le_length_intercalate (List.mem_map_of_mem hm)
    have hvalue : m.2.render.toList.length ≤ (memberChars m).length := by
      unfold memberChars
      rw [List.length_cons, List.length_append, List.length_cons, List.length_cons]
      omega
    have hdepth := ih m hm
    omega

/-- A text is read back as the value that it was written for exactly if the value does not nest too deep. Else
it is not read at all. -/
theorem read_render {j : Json} (h : IsValid j) :
    read j.render = if j.depth ≤ maxDepth then some j else none := by
  have hread {depth : Nat} (hdepth : j.depth ≤ depth) : readValue depth j.render.toList = some (j, []) := by
    have hback := (readValue_render h hdepth).reads [] [] (List.forall_mem_nil _) (by simp [EndsWord])
    rwa [List.nil_append, List.append_nil] at hback
  unfold read
  by_cases hdepth : j.depth ≤ maxDepth
  · rw [hread hdepth, if_pos hdepth]
    rfl
  · rw [if_neg hdepth]
    cases hmax : readValue maxDepth j.render.toList with
    | none => rfl
    | some r =>
      -- what is read there would be read by a reader that may go deeper, too
      obtain ⟨value, rest⟩ := r
      have hmore := readValue_mono hmax (Nat.le_of_not_le hdepth)
      rw [hread (Nat.le_refl _)] at hmore
      cases hmore
      exact absurd (depth_le_of_readValue hmax) hdepth

/-! ## Line ends -/

/-- A text is one line. -/
def IsLine (cs : List Char) : Prop := '\n' ∉ cs ∧ '\r' ∉ cs

instance : DecidablePred IsLine := fun cs => inferInstanceAs (Decidable ('\n' ∉ cs ∧ '\r' ∉ cs))

theorem isLine_nil : IsLine [] := ⟨List.not_mem_nil, List.not_mem_nil⟩

theorem isLine_append {cs ds : List Char} : IsLine (cs ++ ds) ↔ IsLine cs ∧ IsLine ds := by
  unfold IsLine
  rw [List.mem_append, List.mem_append]
  tauto

theorem isLine_cons {c : Char} {cs : List Char} : IsLine (c :: cs) ↔ IsLine [c] ∧ IsLine cs := by
  rw [← isLine_append, List.singleton_append]

theorem isLine_of_forall {p : Char → Prop} {cs : List Char} (h : ∀ c ∈ cs, p c) (hn : ¬p '\n')
    (hr : ¬p '\r') : IsLine cs :=
  ⟨fun hmem => hn (h _ hmem), fun hmem => hr (h _ hmem)⟩

theorem isLine_intercalate {sep : List Char} (hsep : IsLine sep) {ls : List (List Char)}
    (h : ∀ l ∈ ls, IsLine l) : IsLine (List.intercalate sep ls) := by
  induction ls with
  | nil => exact isLine_nil
  | cons l ls ih =>
    have hl := h l List.mem_cons_self
    cases ls with
    | nil =>
      rw [List.intercalate_singleton]
      exact hl
    | cons k ls =>
      rw [List.intercalate_cons_cons]
      exact isLine_append.mpr ⟨isLine_append.mpr ⟨hl, hsep⟩, ih fun l hl => h l (List.mem_cons_of_mem _ hl)⟩

-- What would end a line is escaped.
theorem isLine_escapeChar (c : Char) : IsLine (escapeChar c) := by
  have hhex : ∀ d < 16, Nat.digitChar d ≠ '\n' ∧ Nat.digitChar d ≠ '\r' := by decide
  have hdigit (n : Nat) : IsLine [hexDigit n] := by
    obtain ⟨hn, hr⟩ := hhex (n % 16) (Nat.mod_lt _ (by decide))
    exact ⟨fun h => hn (List.mem_singleton.mp h).symm, fun h => hr (List.mem_singleton.mp h).symm⟩
  unfold escapeChar
  split_ifs with hquote hslash hb hf hn hr ht hcontrol
  all_goals try decide
  · have hcode : IsLine ['\\', 'u', '0', '0'] := by decide
    exact isLine_append.mpr ⟨hcode, isLine_cons.mpr ⟨hdigit _, hdigit _⟩⟩
  · constructor
    · intro h
      exact hn (beq_iff_eq.mpr (List.mem_singleton.mp h).symm)
    · intro h
      exact hr (beq_iff_eq.mpr (List.mem_singleton.mp h).symm)

theorem isLine_flatMap_escapeChar (cs : List Char) : IsLine (cs.flatMap escapeChar) := by
  induction cs with
  | nil => decide
  | cons c cs ih =>
    rw [List.flatMap_cons]
    exact isLine_append.mpr ⟨isLine_escapeChar c, ih⟩

theorem isLine_quote (s : String) : IsLine (quote s).toList := by
  rw [toList_quote]
  exact isLine_cons.mpr ⟨by decide, isLine_append.mpr ⟨isLine_flatMap_escapeChar _, by decide⟩⟩

theorem Spelling.IsStrict.isLine {s : Spelling} (hs : s.IsStrict) : IsLine s.chars := by
  have hdigits {ds : List Char} (h : ∀ c ∈ ds, isAsciiDigit c = true) : IsLine ds :=
    isLine_of_forall h (by decide) (by decide)
  have hfraction : IsLine ((s.fraction.map ('.' :: ·)).getD []) := by
    cases hs' : s.fraction with
    | none => decide
    | some ds => exact isLine_cons.mpr ⟨by decide, hdigits (hs.fraction ds hs').digits⟩
  have hexponent : IsLine ((s.exponent.map fun e => 'e' :: Decimal.exponentText e).getD []) := by
    cases s.exponent with
    | none => decide
    | some e =>
      have hnat : IsLine (Nat.toDigits 10 e.natAbs) := hdigits (areDigits_toDigits _).digits
      show IsLine ('e' :: Decimal.exponentText e)
      unfold Decimal.exponentText
      split
      · exact isLine_cons.mpr ⟨by decide, isLine_cons.mpr ⟨by decide, hnat⟩⟩
      · exact isLine_cons.mpr ⟨by decide, hnat⟩
  have hall := isLine_append.mpr ⟨hdigits hs.whole.digits, isLine_append.mpr ⟨hfraction, hexponent⟩⟩
  unfold Spelling.chars signed
  split
  · exact isLine_cons.mpr ⟨by decide, hall⟩
  · exact hall

/-- The text of a value is one line. -/
theorem isLine_render {j : Json} (h : IsValid j) : IsLine j.render.toList := by
  induction h with
  | null =>
    rw [render]
    decide
  | boolean b =>
    cases b <;> decide
  | integer h =>
    obtain ⟨s, hs, hchars, -⟩ := exists_spelling_integer _ h
    rw [show (render (.integer _)).toList = s.chars from hchars]
    exact hs.isLine
  | real h =>
    obtain ⟨s, hs, hchars, -⟩ := exists_spelling_real h
    rw [show (render (.real _)).toList = s.chars from hchars]
    exact hs.isLine
  | string s => exact isLine_quote s
  | @array es _ ih =>
    rw [toList_render_array]
    refine isLine_cons.mpr ⟨by decide, isLine_append.mpr ⟨isLine_intercalate (by decide) ?_, by decide⟩⟩
    exact List.forall_mem_map.mpr ih
  | @object ms _ ih =>
    rw [toList_render_object]
    refine isLine_cons.mpr ⟨by decide, isLine_append.mpr ⟨isLine_intercalate (by decide) ?_, by decide⟩⟩
    intro l hl
    obtain ⟨m, hm, rfl⟩ := List.mem_map.mp hl
    have hvalue : IsLine ('\x22' :: ':' :: m.2.render.toList) :=
      isLine_cons.mpr ⟨by decide, isLine_cons.mpr ⟨by decide, ih m hm⟩⟩
    exact isLine_cons.mpr ⟨by decide, isLine_append.mpr ⟨isLine_flatMap_escapeChar _, hvalue⟩⟩

end TemplateCompiler.Json
