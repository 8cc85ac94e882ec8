import Mathlib.Data.Option.Basic
import TemplateCompiler.Proofs.Text.Runs
import TemplateCompiler.Script.Grammar.Reader

/-!
# Scanning in front of other text

The scanner looks ahead for the longest token, so that a token may be another one where other text comes
behind it. In front of some characters it is not: each part of the scanner gives the same result in front of
two such characters (the lemmas that end in `_append`), and a token in front of a semicolon is the same in front
of a blank, a parenthesis or a comma (`nextToken_semicolon`).
-/

namespace TemplateCompiler.Script

open TemplateCompiler.Text

variable {α : Type} {c : Char} {b : List Char}

/-- What was scanned, with more text behind what is left. -/
def withBehind (b : List Char) (x : α × List Char) : α × List Char := (x.1, x.2 ++ b)

@[simp] theorem withBehind_mk (b : List Char) (x : α) (rest : List Char) :
    withBehind b (x, rest) = (x, rest ++ b) := rfl

/-! ## Escapes -/

section

variable (hc : isDigitOf 16 c = false)

include hc

theorem scanHex_append (count : Nat) (cs : List Char) :
    scanHex count (cs ++ c :: b) = (scanHex count cs).map (withBehind (c :: b)) := by
  by_cases hcount : count ≤ cs.length
  · simp only [scanHex, List.take_append_of_le_length hcount, List.drop_append_of_le_length hcount]
    split <;> rfl
  · have hshort : decide ((cs.take count).length = count) = false := by
      simp only [List.length_take, decide_eq_false_iff_not]
      omega
    simp only [scanHex, hshort, all_take_append_cons hc (Nat.lt_of_not_le hcount), Bool.and_false, Bool.false_and,
      Bool.false_eq_true, if_false, Option.map_none]

omit hc in
theorem scanCodePoint_of_ne {cs : List Char} (h : cs.head? ≠ some '\x7b') : scanCodePoint cs = scanHex 4 cs := by
  unfold scanCodePoint
  split
  · simp at h
  · rfl

theorem scanCodePoint_append (hbrace : c ≠ '\x7b' ∧ c ≠ '\x7d') (cs : List Char) :
    scanCodePoint (cs ++ c :: b) = (scanCodePoint cs).map (withBehind (c :: b)) := by
  by_cases hhead : cs.head? = some '\x7b'
  · obtain ⟨rest, rfl⟩ := List.head?_eq_some_iff.mp hhead
    simp only [List.cons_append, scanCodePoint, takeWhile_append_cons hc, dropWhile_append_cons hc]
    cases hrest : rest.dropWhile (isDigitOf 16) with
    | nil =>
      simp only [List.nil_append]
      split
      · rename_i heq
        exact absurd (List.cons.inj heq).1 hbrace.2
      · rfl
    | cons d rest =>
      by_cases hd : d = '\x7d'
      · subst hd
        simp only [List.cons_append]
        split <;> rfl
      · simp [hd]
  · rw [scanCodePoint_of_ne hhead, scanCodePoint_of_ne (head?_append_cons_ne hbrace.1 hhead), scanHex_append hc]

end

/-! ## Numbers -/

theorem scanDigits_append {base : Nat} (hc : isDigitOf base c = false) (hline : c ≠ '_') (last : Option Char)
    (digits cs : List Char) :
    scanDigits base last digits (cs ++ c :: b) = (scanDigits base last digits cs).map (withBehind (c :: b)) := by
  induction cs generalizing last digits with
  | nil =>
    simp [scanDigits, hc]
    split <;> simp
  | cons d cs ih =>
    by_cases hd : d = '_'
    · subst hd
      cases last with
      | none => simp [scanDigits]
      | some l =>
        by_cases hl : l = '_'
        · subst hl
          simp [scanDigits]
        · cases cs with
          | nil => simp [scanDigits, hc, hl]
          | cons e cs =>
            simp only [List.cons_append, scanDigits] at ih ⊢
            split
            · exact ih _ _
            · rfl
    · simp only [List.cons_append, scanDigits, ih]
      split
      · rfl
      · split <;> simp

/-- The characters that end a number, a name or a symbol in front of them. -/
def breakers : List Char := [' ', '(', ')', ',', ';']

/-- What makes a character end the token in front of it. -/
structure Breaks (c : Char) : Prop where
  digit : ∀ base ≤ 16, isDigitOf base c = false
  asciiDigit : isAsciiDigit c = false
  start : isIdentifierStart c = false
  part : isIdentifierPart c = false
  letter : c ∉ ['e', 'E', 'n', 'x', 'X', 'o', 'O', 'b', 'B', 'u', '.', '+', '-', '\\', '/', '*', '_', '\x7b', '\x7d']
  symbol : ∀ s ∈ symbols, c ∉ s.toList.tail

theorem breaks_of_mem (hc : c ∈ breakers) : Breaks c := by
  have hall : ∀ c ∈ breakers, (digitValue? c).isNone ∧ isAsciiDigit c = false ∧ isIdentifierStart c = false ∧
      isIdentifierPart c = false ∧
      c ∉ ['e', 'E', 'n', 'x', 'X', 'o', 'O', 'b', 'B', 'u', '.', '+', '-', '\\', '/', '*', '_', '\x7b', '\x7d'] ∧
      ∀ s ∈ symbols, c ∉ s.toList.tail := by
    -- character by character: a decision over all characters would not end
    simp only [breakers, List.forall_mem_cons, List.not_mem_nil, false_implies, implies_true, and_true]
    decide +kernel
  obtain ⟨hdigit, hascii, hstart, hpart, hletter, hsymbol⟩ := hall c hc
  refine ⟨fun base _ => ?_, hascii, hstart, hpart, hletter, hsymbol⟩
  rw [isDigitOf, Option.isNone_iff_eq_none.mp hdigit]

section

variable (hc : Breaks c)

include hc

theorem nextIsDigit_append (cs : List Char) :
    ((cs ++ c :: b).head?.map isAsciiDigit).getD false = (cs.head?.map isAsciiDigit).getD false := by
  cases cs with
  | nil => simp [hc.asciiDigit]
  | cons d cs => rfl

theorem scanExponent_append (cs : List Char) :
    scanExponent (cs ++ c :: b) = (scanExponent cs).map (withBehind (c :: b)) := by
  have hletter := hc.letter
  have hdigits (cs : List Char) := scanDigits_append (b := b) (hc.digit 10 (by decide))
    (by rintro rfl; simp at hletter) none [] cs
  have hsigned (f : List Char → Int) (cs : List Char) :
      (scanDigits 10 none [] (cs ++ c :: b)).map (fun x => (f x.1, x.2)) =
        ((scanDigits 10 none [] cs).map fun x => (f x.1, x.2)).map (withBehind (c :: b)) := by
    rw [hdigits]
    cases scanDigits 10 none [] cs <;> rfl
  cases cs with
  | nil => simp_all [scanExponent]
  | cons d cs =>
    simp only [List.cons_append, scanExponent]
    split
    · cases cs with
      | nil =>
        have hplain := hsigned (fun ds => (ofDigits 10 ds : Int)) []
        simp_all
      | cons e cs =>
        by_cases hminus : e = '-'
        · subst hminus
          exact hsigned (fun ds => -(ofDigits 10 ds : Int)) cs
        · by_cases hplus : e = '+'
          · subst hplus
            exact hsigned (fun ds => (ofDigits 10 ds : Int)) cs
          · simpa [hminus, hplus] using hsigned (fun ds => (ofDigits 10 ds : Int)) (e :: cs)
    · rfl

omit hc in
theorem scanFraction_of_ne {whole cs : List Char} (h : cs.head? ≠ some '.') :
    scanFraction whole cs = scanExponent cs >>= fun x => pure (decimalToken whole [] x.1, x.2) := by
  unfold scanFraction
  split
  · simp at h
  · rfl

theorem scanFraction_append (whole cs : List Char) :
    scanFraction whole (cs ++ c :: b) = (scanFraction whole cs).map (withBehind (c :: b)) := by
  have hletter := hc.letter
  have hexponent (fraction cs : List Char) :
      (scanExponent (cs ++ c :: b) >>= fun x => pure (decimalToken whole fraction x.1, x.2)) =
        (scanExponent cs >>= fun x => pure (decimalToken whole fraction x.1, x.2)).map
          (withBehind (c :: b)) := by
    rw [scanExponent_append hc]
    cases scanExponent cs <;> rfl
  by_cases hdot : cs.head? = some '.'
  · obtain ⟨rest, rfl⟩ := List.head?_eq_some_iff.mp hdot
    simp only [List.cons_append, scanFraction, nextIsDigit_append hc]
    split
    · rw [scanDigits_append (hc.digit 10 (by decide)) (by rintro rfl; simp at hletter)]
      cases scanDigits 10 none [] rest with
      | none => rfl
      | some x => exact hexponent x.1 x.2
    · exact hexponent [] rest
  · have hother : c ≠ '.' := by
      rintro rfl
      simp at hletter
    rw [scanFraction_of_ne hdot, scanFraction_of_ne (head?_append_cons_ne hother hdot)]
    exact hexponent [] cs

theorem scanBased_append {base : Nat} (hbase : base ≤ 16) (cs : List Char) :
    scanBased base (cs ++ c :: b) = (scanBased base cs).map (withBehind (c :: b)) := by
  have hletter := hc.letter
  rw [scanBased, scanBased, scanDigits_append (hc.digit base hbase) (by rintro rfl; simp at hletter)]
  cases scanDigits base none [] cs with
  | none => rfl
  | some x =>
    obtain ⟨digits, rest⟩ := x
    cases rest with
    | nil => simp_all
    | cons d rest => by_cases hd : d = 'n' <;> simp [hd]

theorem scanLegacy_append (cs : List Char) :
    scanLegacy (cs ++ c :: b) = (scanLegacy cs).map (withBehind (c :: b)) := by
  simp only [scanLegacy, takeWhile_append_cons hc.asciiDigit, dropWhile_append_cons hc.asciiDigit]
  split
  · rfl
  · exact scanFraction_append hc _ _

/-- A number that starts with a digit of base ten. -/
def scanDecimal (cs : List Char) : Option (Token × List Char) := do
  let (digits, rest) ← scanDigits 10 none [] cs
  match rest with
  | 'n' :: rest => pure (.bigInt (ofDigits 10 digits), rest)
  | rest => scanFraction digits rest

theorem scanDecimal_append (cs : List Char) :
    scanDecimal (cs ++ c :: b) = (scanDecimal cs).map (withBehind (c :: b)) := by
  have hletter := hc.letter
  rw [scanDecimal, scanDecimal, scanDigits_append (hc.digit 10 (by decide)) (by rintro rfl; simp at hletter)]
  cases scanDigits 10 none [] cs with
  | none => rfl
  | some x =>
    obtain ⟨digits, rest⟩ := x
    have hfraction := scanFraction_append (b := b) hc digits rest
    cases rest with
    | nil => simp_all
    | cons d rest => by_cases hd : d = 'n' <;> simp_all

theorem scanNumberText_append {cs : List Char} (hcs : cs ≠ []) :
    scanNumberText (cs ++ c :: b) = (scanNumberText cs).map (withBehind (c :: b)) := by
  have hletter := hc.letter
  cases cs with
  | nil => exact absurd rfl hcs
  | cons d cs =>
    -- behind a leading zero the next character decides on the kind of number
    by_cases hzero : d = '0'
    · subst hzero
      cases cs with
      | nil =>
        have hfraction := scanFraction_append (b := b) hc ['0'] []
        have hdigits : scanDecimal ['0'] = scanFraction ['0'] [] := rfl
        have hzero : scanNumberText ['0'] = scanDecimal ['0'] := rfl
        simp only [List.cons_append, List.nil_append, List.mem_cons, not_or] at hfraction hletter ⊢
        rw [hzero, hdigits, ← hfraction]
        simp [scanNumberText, hletter, hc.asciiDigit]
      | cons e cs =>
        simp only [List.cons_append, scanNumberText]
        split
        · exact scanBased_append hc (by decide) cs
        split
        · exact scanBased_append hc (by decide) cs
        split
        · exact scanBased_append hc (by decide) cs
        split
        · exact scanLegacy_append hc (e :: cs)
        split
        · rfl
        · exact scanFraction_append hc _ (e :: cs)
    · by_cases hdot : d = '.'
      · subst hdot
        exact scanFraction_append hc [] ('.' :: cs)
      · have hdecimal (cs : List Char) : scanNumberText (d :: cs) = scanDecimal (d :: cs) := by
          unfold scanNumberText
          split
          · simp_all
          · simp_all
          · rfl
        rw [List.cons_append, hdecimal, hdecimal]
        exact scanDecimal_append hc (d :: cs)

theorem scanNumber_append {cs : List Char} (hcs : cs ≠ []) :
    scanNumber (cs ++ c :: b) = (scanNumber cs).map (withBehind (c :: b)) := by
  rw [scanNumber, scanNumber, scanNumberText_append hc hcs]
  cases scanNumberText cs with
  | none => rfl
  | some x =>
    obtain ⟨token, rest⟩ := x
    cases rest with
    | nil => simp [hc.start, hc.asciiDigit]
    | cons d rest =>
      simp
      split <;> rfl

end

/-! ## Names -/

/-- What makes a character end a name in front of it. -/
structure EndsName (c : Char) : Prop where
  digit : isDigitOf 16 c = false
  start : isIdentifierStart c = false
  part : isIdentifierPart c = false
  other : c ∉ ['\\', '\x7b', '\x7d']

theorem Breaks.endsName (hc : Breaks c) : EndsName c where
  digit := hc.digit 16 (by decide)
  start := hc.start
  part := hc.part
  other := by
    have hletter := hc.letter
    simp_all

theorem endsName_of_mem (hc : c ∈ breakers) : EndsName c := (breaks_of_mem hc).endsName

theorem length_of_scanHex {count code : Nat} {cs rest : List Char} (h : scanHex count cs = some (code, rest)) :
    rest.length ≤ cs.length := by
  dsimp only [scanHex] at h
  split at h
  · cases h
    simp
  · cases h

theorem length_of_scanCodePoint {cs rest : List Char} {code : Nat} (h : scanCodePoint cs = some (code, rest)) :
    rest.length ≤ cs.length := by
  unfold scanCodePoint at h
  split at h
  · rename_i cs
    have hdrop := (List.dropWhile_suffix (isDigitOf 16) (l := cs)).length_le
    split at h
    · rename_i rest' heq
      dsimp only at h
      split at h
      · cases h
      · cases h
        simp only [heq, List.length_cons] at hdrop ⊢
        omega
    · cases h
  · exact length_of_scanHex h

theorem scanNameChars_cons {d : Char} (hd : d ≠ '\\') (n : Nat) (name : List Char) (escaped : Bool)
    (cs : List Char) :
    scanNameChars (n + 1) name escaped (d :: cs) =
      if (if name.isEmpty then isIdentifierStart d else isIdentifierPart d) then
        scanNameChars n (d :: name) escaped cs
      else some (name, escaped, d :: cs) := by
  simp [scanNameChars, hd]

section

variable (hc : EndsName c)

include hc

theorem scanNameChars_append {n n' : Nat} {cs : List Char} (hn : cs.length < n) (hn' : cs.length < n')
    (name : List Char) (escaped : Bool) :
    scanNameChars n' name escaped (cs ++ c :: b) =
      (scanNameChars n name escaped cs).map fun x => (x.1, withBehind (c :: b) x.2) := by
  induction n generalizing n' cs name escaped with
  | zero => exact absurd hn (Nat.not_lt_zero _)
  | succ n ih =>
    obtain ⟨n', rfl⟩ : ∃ l, n' = l + 1 := ⟨n' - 1, by omega⟩
    cases cs with
    | nil =>
      have hother := hc.other
      simp_all [scanNameChars, hc.start, hc.part]
    | cons d cs =>
      simp only [List.length_cons, Nat.succ_lt_succ_iff] at hn hn'
      by_cases hd : d = '\\'
      · subst hd
        cases cs with
        | nil =>
          have hu : c ≠ 'u' := by
            rintro rfl
            exact absurd hc.part (by decide)
          simp [scanNameChars, hu]
        | cons e cs =>
          by_cases he : e = 'u'
          · subst he
            simp only [List.cons_append, scanNameChars]
            rw [scanCodePoint_append hc.digit (by have hother := hc.other; simp_all)]
            cases hcode : scanCodePoint cs with
            | none => rfl
            | some x =>
              obtain ⟨code, rest⟩ := x
              have hrest := length_of_scanCodePoint hcode
              simp only [List.length_cons] at hn hn'
              -- an escape takes characters, so the fuel lasts for the rest
              have hmore (name : List Char) : scanNameChars n' name true (rest ++ c :: b) =
                  (scanNameChars n name true rest).map fun x => (x.1, withBehind (c :: b) x.2) :=
                ih (by omega) (by omega) name true
              simp only [Option.map_some, withBehind_mk, Option.bind_eq_bind, Option.bind_some, hmore]
              split <;> rw [Option.map_bind] <;> rfl
          · simp [scanNameChars, he]
      · rw [List.cons_append, scanNameChars_cons hd, scanNameChars_cons hd]
        rw [ih hn hn']
        split <;> split <;> rfl

theorem scanName_append (cs : List Char) :
    scanName (cs ++ c :: b) = (scanName cs).map fun x => (x.1, withBehind (c :: b) x.2) := by
  have hlength : cs.length < (cs ++ c :: b).length + 1 := by
    rw [List.length_append]
    omega
  have hchars := scanNameChars_append (b := b) hc (Nat.lt_succ_self cs.length) hlength [] false
  rw [scanName, scanName, hchars]
  cases scanNameChars (cs.length + 1) [] false cs with
  | none => rfl
  | some x =>
    obtain ⟨name, escaped, rest⟩ := x
    simp only [Option.map_some, Option.bind_eq_bind, Option.bind_some]
    split <;> rfl

/-- The token of a name. -/
def nameToken (token : String → Bool → Token) (cs : List Char) : Option (Token × List Char) :=
  (scanName cs).map fun (name, escaped, rest) => (token name escaped, rest)

theorem nameToken_append (token : String → Bool → Token) (cs : List Char) :
    nameToken token (cs ++ c :: b) = (nameToken token cs).map (withBehind (c :: b)) := by
  rw [nameToken, nameToken, scanName_append hc]
  cases scanName cs <;> rfl

end

/-! ## Symbols -/

theorem isPrefixOf_append_cons {ds : List Char} (hds : c ∉ ds) (cs : List Char) :
    ds.isPrefixOf (cs ++ c :: b) = ds.isPrefixOf cs := by
  induction ds generalizing cs with
  | nil => simp
  | cons d ds ih =>
    simp only [List.mem_cons, not_or] at hds
    cases cs with
    | nil => simp [List.isPrefixOf, Ne.symm hds.1]
    | cons e cs => simp [List.isPrefixOf, ih hds.2]

section

variable (hc : Breaks c)

include hc

theorem stripSymbol?_append {symbol : String} (hsymbol : symbol ∈ symbols) {cs : List Char} (hcs : cs ≠ []) :
    stripSymbol? symbol (cs ++ c :: b) = (stripSymbol? symbol cs).map (· ++ c :: b) := by
  have hprefix : symbol.toList.isPrefixOf (cs ++ c :: b) = symbol.toList.isPrefixOf cs := by
    have htail := hc.symbol symbol hsymbol
    cases hlist : symbol.toList with
    | nil => simp
    | cons d ds =>
      cases cs with
      | nil => exact absurd rfl hcs
      | cons e cs =>
        rw [hlist, List.tail_cons] at htail
        simp only [List.cons_append, List.isPrefixOf, isPrefixOf_append_cons htail]
  simp only [stripSymbol?, hprefix]
  split
  · rename_i hfits
    have hlength := (List.isPrefixOf_iff_prefix.mp hfits).length_le
    rw [List.drop_append_of_le_length hlength, nextIsDigit_append hc]
    split <;> rfl
  · rfl

theorem scanSymbol_append {cs : List Char} (hcs : cs ≠ []) :
    scanSymbol (cs ++ c :: b) = (scanSymbol cs).map (withBehind (c :: b)) := by
  have hall (l : List String) (hl : ∀ s ∈ l, s ∈ symbols) :
      (l.findSome? fun s => (stripSymbol? s (cs ++ c :: b)).map fun rest => (Token.symbol s, rest)) =
        (l.findSome? fun s => (stripSymbol? s cs).map fun rest => (Token.symbol s, rest)).map
          (withBehind (c :: b)) := by
    induction l with
    | nil => rfl
    | cons s l ih =>
      rw [List.findSome?_cons, List.findSome?_cons, stripSymbol?_append hc (hl s (by simp)) hcs,
        ih fun s hs => hl s (by simp [hs])]
      cases stripSymbol? s cs <;> rfl
  exact hall symbols fun _ => id

/-! ## Strings -/

theorem scanOctal_append {cs : List Char} (hcs : cs ≠ []) :
    scanOctal (cs ++ c :: b) = withBehind (c :: b) (scanOctal cs) := by
  have hoctal : isDigitOf 8 c = false := hc.digit 8 (by decide)
  have hhead : (cs ++ c :: b).head? = cs.head? := by
    cases cs with
    | nil => exact absurd rfl hcs
    | cons d cs => rfl
  have hdigits (count : Nat) : ((cs ++ c :: b).take count).takeWhile (isDigitOf 8) =
      (cs.take count).takeWhile (isDigitOf 8) := by
    by_cases hcount : count ≤ cs.length
    · rw [List.take_append_of_le_length hcount]
    · obtain ⟨n, rfl⟩ : ∃ n, count = cs.length + (n + 1) := ⟨count - cs.length - 1, by omega⟩
      rw [List.take_length_add_append, List.take_succ_cons, takeWhile_append_cons hoctal,
        List.take_of_length_le (by omega)]
  have hlength (count : Nat) : ((cs.take count).takeWhile (isDigitOf 8)).length ≤ cs.length :=
    ((List.takeWhile_prefix _).trans (List.take_prefix _ _)).length_le
  simp only [scanOctal, hhead, hdigits, withBehind_mk, List.drop_append_of_le_length (hlength _)]

theorem scanEscape_append (hend : isLineEnd c = false) {cs : List Char} (hcs : cs ≠ []) :
    scanEscape false (cs ++ c :: b) = (scanEscape false cs).map (withBehind (c :: b)) := by
  have hhex : isDigitOf 16 c = false := hc.digit 16 (by decide)
  cases cs with
  | nil => exact absurd rfl hcs
  | cons d cs =>
    by_cases hu : d = 'u'
    · subst hu
      simp only [List.cons_append, scanEscape]
      rw [scanCodePoint_append hhex (by have hletter := hc.letter; simp_all)]
      cases scanCodePoint cs <;> rfl
    by_cases hx : d = 'x'
    · subst hx
      simp only [List.cons_append, scanEscape]
      rw [scanHex_append hhex]
      cases scanHex 2 cs <;> rfl
    -- an escaped line end may have two characters, so the one behind the text must not be the second
    by_cases hreturn : d = '\r'
    · subst hreturn
      cases cs with
      | nil =>
        have hfeed : c ≠ '\n' := by
          rintro rfl
          exact absurd hend (by decide)
        simp [scanEscape, hfeed]
        rfl
      | cons e cs =>
        by_cases he : e = '\n'
        · subst he
          rfl
        · simp [scanEscape, he]
          rfl
    · have hplain (cs : List Char) : scanEscape false (d :: cs) =
          if isLineEnd d then some ([], cs)
          else if isAsciiDigit d then
            if d == '0' && !(cs.head?.map isAsciiDigit).getD false then some ([.char '\x00'], cs)
            else if isDigitOf 8 d then some ([unitsOf (scanOctal (d :: cs)).1], (scanOctal (d :: cs)).2)
            else some ([.char d], cs)
          else some ([.char ((letterEscape? d).getD d)], cs) := by
        simp [scanEscape, hreturn]
      have hoctal := scanOctal_append (b := b) hc (List.cons_ne_nil d cs)
      rw [List.cons_append] at hoctal ⊢
      rw [hplain, hplain, nextIsDigit_append hc, hoctal]
      split
      · rfl
      split
      · split
        · rfl
        · split <;> rfl
      · rfl

end

theorem scanUnits_nil (quote : Char) (n : Nat) (units : List StringUnit) : scanUnits quote n units [] = none := by
  cases n <;> rfl

/-- A string that ends in front of a semicolon does not need that. -/
theorem scanUnits_semicolon {quote : Char} (hquote : quote ≠ ';') {n : Nat} {units units' : List StringUnit}
    {cs rest : List Char} (h : scanUnits quote n units (cs ++ [';']) = some (units', rest)) :
    ∃ rest', rest = rest' ++ [';'] ∧ scanUnits quote n units cs = some (units', rest') := by
  induction n generalizing units cs with
  | zero => cases h
  | succ n ih =>
    cases cs with
    | nil => simp [scanUnits, hquote.symm, scanUnits_nil] at h
    | cons d cs =>
      simp only [List.cons_append, scanUnits] at h ⊢
      split at h
      · rename_i hd
        rw [if_pos hd]
        cases h
        exact ⟨cs, rfl, rfl⟩
      rename_i hd
      rw [if_neg hd]
      split at h
      · rename_i hbackslash
        rw [if_pos hbackslash]
        -- the semicolon may be what is escaped, but then no quote is left to end the string
        by_cases hcs : cs = []
        · subst hcs
          have hescape : scanEscape false [';'] = some ([.char ';'], []) := rfl
          simp [hescape, scanUnits_nil] at h
        · rw [scanEscape_append (breaks_of_mem (by decide)) (by decide) hcs] at h
          cases hescape : scanEscape false cs with
          | none => simp [hescape] at h
          | some x =>
            rw [hescape] at h
            exact ih h
      rename_i hbackslash
      rw [if_neg hbackslash]
      split at h
      · cases h
      · rename_i hfeed
        rw [if_neg hfeed]
        exact ih h

/-- A string that ends does so in front of other text as well. -/
theorem scanUnits_append (hc : Breaks c) (hend : isLineEnd c = false) {quote : Char} {n n' : Nat} (hn : n ≤ n')
    {units units' : List StringUnit} {cs rest : List Char} (h : scanUnits quote n units cs = some (units', rest)) :
    scanUnits quote n' units (cs ++ c :: b) = some (units', rest ++ c :: b) := by
  induction n generalizing n' units cs with
  | zero => cases h
  | succ n ih =>
    obtain ⟨n', rfl⟩ : ∃ l, n' = l + 1 := ⟨n' - 1, by omega⟩
    have hn' : n ≤ n' := by omega
    cases cs with
    | nil => cases h
    | cons d cs =>
      simp only [List.cons_append, scanUnits] at h ⊢
      split at h
      · rename_i hd
        rw [if_pos hd]
        cases h
        rfl
      rename_i hd
      rw [if_neg hd]
      split at h
      · rename_i hbackslash
        rw [if_pos hbackslash]
        -- at the very end there is nothing to escape, so the string did not end there
        by_cases hcs : cs = []
        · subst hcs
          cases h
        · rw [scanEscape_append hc hend hcs]
          cases hescape : scanEscape false cs with
          | none => simp [hescape] at h
          | some x =>
            rw [hescape] at h
            exact ih hn' h
      rename_i hbackslash
      rw [if_neg hbackslash]
      split at h
      · cases h
      · rename_i hfeed
        rw [if_neg hfeed]
        exact ih hn' h

theorem between_append (cs rest b : List Char) : between (cs ++ b) (rest ++ b) = between cs rest := by
  have hlength : (cs ++ b).length - (rest ++ b).length = cs.length - rest.length := by
    simp only [List.length_append]
    omega
  rw [between, between, hlength, List.take_append_of_le_length (Nat.sub_le _ _)]

theorem scanString_semicolon (hc : Breaks c) (hend : isLineEnd c = false) {quote : Char} (hquote : quote ≠ ';')
    {cs rest : List Char} {text : Quoted} (h : scanString quote (cs ++ [';']) = some (text, rest)) :
    ∃ rest', rest = rest' ++ [';'] ∧ scanString quote (cs ++ c :: b) = some (text, rest' ++ c :: b) := by
  obtain ⟨⟨units, rest⟩, hunits, heq⟩ := Option.bind_eq_some_iff.mp h
  cases heq
  obtain ⟨rest', rfl, hshort⟩ := scanUnits_semicolon hquote hunits
  have hlength : (cs ++ [';']).length + 1 ≤ (cs ++ c :: b).length + 1 := by simp
  have hlong := scanUnits_append (b := b) hc hend hlength hshort
  refine ⟨rest', rfl, Option.bind_eq_some_iff.mpr ⟨_, hlong, ?_⟩⟩
  simp only [between_append]
  rfl

/-! ## Blanks and comments -/

theorem skipGap_open {d : Char} {cs : List Char} (h : d = '/' → cs.head? ≠ some '/' ∧ cs.head? ≠ some '*')
    (newline : Bool) :
    skipGap .open newline (d :: cs) =
      if isLineEnd d then skipGap .open true cs
      else if isSpace d then skipGap .open newline cs
      else some (newline, d :: cs) := by
  rw [skipGap]
  · rintro rest rfl rfl
    exact (h rfl).1 rfl
  · rintro rest rfl rfl
    exact (h rfl).2 rfl

theorem skipGap_blockComment {d : Char} {cs : List Char} (h : d = '*' → cs.head? ≠ some '/') (newline : Bool) :
    skipGap .blockComment newline (d :: cs) = skipGap .blockComment (newline || isLineEnd d) cs := by
  rw [skipGap]
  rintro rest rfl rfl
  exact h rfl rfl

/-- What is between two tokens stays the same, whatever comes instead of a semicolon behind it. -/
theorem skipGap_semicolon (hc : Breaks c) (gap : Gap) (newline : Bool) :
    ∀ (cs : List Char) {newline' : Bool} {rest : List Char},
      skipGap gap newline (cs ++ [';']) = some (newline', rest) → rest ≠ [] →
      ∃ rest', rest = rest' ++ [';'] ∧ skipGap gap newline (cs ++ c :: b) =
        if rest'.isEmpty then skipGap .open newline' (c :: b) else some (newline', rest' ++ c :: b)
  | [], newline', rest, h, hrest => by
    cases gap with
    | «open» =>
      cases h
      exact ⟨[], rfl, rfl⟩
    | lineComment =>
      cases h
      exact absurd rfl hrest
    | blockComment => cases h
  | d :: cs, newline', rest, h, hrest => by
    -- the character after the text decides nothing: it is no second half of a comment mark
    have hslash : c ≠ '/' := by
      rintro rfl
      exact absurd hc.letter (by decide)
    have hstar : c ≠ '*' := by
      rintro rfl
      exact absurd hc.letter (by decide)
    cases gap with
    | «open» =>
      by_cases hline : d = '/' ∧ cs.head? = some '/'
      · obtain ⟨rfl, hcs⟩ := hline
        obtain ⟨cs, rfl⟩ := List.head?_eq_some_iff.mp hcs
        exact skipGap_semicolon hc .lineComment newline cs h hrest
      by_cases hblock : d = '/' ∧ cs.head? = some '*'
      · obtain ⟨rfl, hcs⟩ := hblock
        obtain ⟨cs, rfl⟩ := List.head?_eq_some_iff.mp hcs
        exact skipGap_semicolon hc .blockComment newline cs h hrest
      have hd : d = '/' → cs.head? ≠ some '/' ∧ cs.head? ≠ some '*' :=
        fun hd => ⟨fun hcs => hline ⟨hd, hcs⟩, fun hcs => hblock ⟨hd, hcs⟩⟩
      rw [List.cons_append] at h ⊢
      rw [skipGap_open fun heq =>
        ⟨head?_append_cons_ne (by decide) (hd heq).1, head?_append_cons_ne (by decide) (hd heq).2⟩] at h
      rw [skipGap_open fun heq =>
        ⟨head?_append_cons_ne hslash (hd heq).1, head?_append_cons_ne hstar (hd heq).2⟩]
      split at h
      · rename_i hend
        rw [if_pos hend]
        exact skipGap_semicolon hc .open true cs h hrest
      rename_i hend
      rw [if_neg hend]
      split at h
      · rename_i hspace
        rw [if_pos hspace]
        exact skipGap_semicolon hc .open newline cs h hrest
      · rename_i hspace
        rw [if_neg hspace]
        cases h
        exact ⟨d :: cs, rfl, rfl⟩
    | lineComment =>
      simp only [List.cons_append, skipGap] at h ⊢
      split at h
      · rename_i hend
        rw [if_pos hend]
        exact skipGap_semicolon hc .open true cs h hrest
      · rename_i hend
        rw [if_neg hend]
        exact skipGap_semicolon hc .lineComment newline cs h hrest
    | blockComment =>
      by_cases hclose : d = '*' ∧ cs.head? = some '/'
      · obtain ⟨rfl, hcs⟩ := hclose
        obtain ⟨cs, rfl⟩ := List.head?_eq_some_iff.mp hcs
        exact skipGap_semicolon hc .open newline cs h hrest
      have hd : d = '*' → cs.head? ≠ some '/' := fun hd hcs => hclose ⟨hd, hcs⟩
      rw [List.cons_append] at h ⊢
      rw [skipGap_blockComment fun heq => head?_append_cons_ne (by decide) (hd heq)] at h
      rw [skipGap_blockComment fun heq => head?_append_cons_ne hslash (hd heq)]
      exact skipGap_semicolon hc .blockComment _ cs h hrest
termination_by cs => cs.length

/-! ## Tokens -/

/-- Scanning that comes to the same in front of a semicolon and of other text. -/
theorem transfer {scan : List Char → Option (α × List Char)} {cs rest : List Char} {x : α}
    (hsemicolon : scan (cs ++ [';']) = (scan cs).map (withBehind [';']))
    (hother : scan (cs ++ c :: b) = (scan cs).map (withBehind (c :: b)))
    (h : scan (cs ++ [';']) = some (x, rest)) :
    ∃ rest', rest = rest' ++ [';'] ∧ scan (cs ++ c :: b) = some (x, rest' ++ c :: b) := by
  rw [hsemicolon] at h
  obtain ⟨⟨y, rest'⟩, hscan, heq⟩ := Option.map_eq_some_iff.mp h
  cases heq
  exact ⟨rest', rfl, by rw [hother, hscan]; rfl⟩

theorem scanToken_semicolon (hc : Breaks c) (hend : isLineEnd c = false) {cs rest : List Char} (hcs : cs ≠ [])
    {t : Token} (h : scanToken (cs ++ [';']) = some (t, rest)) (ht : ∀ chunk isLast, t ≠ .template chunk isLast) :
    ∃ rest', rest = rest' ++ [';'] ∧ scanToken (cs ++ c :: b) = some (t, rest' ++ c :: b) := by
  have hsemicolon : Breaks ';' := breaks_of_mem (by decide)
  cases cs with
  | nil => exact absurd rfl hcs
  | cons d cs =>
    rw [List.cons_append] at h ⊢
    -- the same branch is taken for both texts, since neither character behind goes on with a token
    rw [scanToken] at h ⊢
    split at h
    · rename_i hquote
      rw [if_pos hquote]
      obtain ⟨⟨text, rest⟩, hstring, heq⟩ := Option.map_eq_some_iff.mp h
      cases heq
      have hd : d ≠ ';' := by
        rintro rfl
        exact absurd hquote (by decide)
      obtain ⟨rest', rfl, hother⟩ := scanString_semicolon hc hend hd hstring
      exact ⟨rest', rfl, by rw [hother]; rfl⟩
    rename_i hquote
    rw [if_neg hquote]
    split at h
    · obtain ⟨⟨chunk, isLast, rest⟩, -, heq⟩ := Option.map_eq_some_iff.mp h
      cases heq
      exact absurd rfl (ht chunk isLast)
    rename_i htick
    rw [if_neg htick]
    split at h
    · rename_i hhash
      rw [if_pos hhash]
      exact transfer (nameToken_append hsemicolon.endsName (fun name _ => .privateName name) cs)
        (nameToken_append hc.endsName (fun name _ => .privateName name) cs) h
    rename_i hhash
    rw [if_neg hhash]
    rw [nextIsDigit_append hsemicolon] at h
    rw [nextIsDigit_append hc]
    split at h
    · rename_i hdigit
      rw [if_pos hdigit]
      exact transfer (scanNumber_append hsemicolon hcs) (scanNumber_append hc hcs) h
    rename_i hdigit
    rw [if_neg hdigit]
    split at h
    · rename_i hstart
      rw [if_pos hstart]
      exact transfer (nameToken_append hsemicolon.endsName .name (d :: cs))
        (nameToken_append hc.endsName .name (d :: cs)) h
    · rename_i hstart
      rw [if_neg hstart]
      exact transfer (scanSymbol_append hsemicolon hcs) (scanSymbol_append hc hcs) h

section

open Grammar

variable {cs rest : List Char} {newline : Bool}

theorem nextToken_eq_some_iff {t : Token} :
    nextToken cs = some (t, newline, rest) ↔
      ∃ mid, skipGap .open false cs = some (newline, mid) ∧ scanToken mid = some (t, rest) := by
  constructor
  · intro h
    obtain ⟨⟨newline, mid⟩, hgap, h⟩ := Option.bind_eq_some_iff.mp h
    obtain ⟨⟨t, rest⟩, htoken, heq⟩ := Option.bind_eq_some_iff.mp h
    cases heq
    exact ⟨mid, hgap, htoken⟩
  · rintro ⟨mid, hgap, htoken⟩
    exact Option.bind_eq_some_iff.mpr ⟨_, hgap, Option.bind_eq_some_iff.mpr ⟨_, htoken, rfl⟩⟩

variable (hc : Breaks c) (hend : isLineEnd c = false)

include hc hend

/-- A token in front of a semicolon is the same in front of other text. -/
theorem nextToken_semicolon {t : Token} (h : nextToken (cs ++ [';']) = some (t, newline, rest))
    (ht : ∀ chunk isLast, t ≠ .template chunk isLast) (hfinish : t ≠ .finish) (hsemicolon : t ≠ .symbol ";") :
    ∃ rest', rest = rest' ++ [';'] ∧ nextToken (cs ++ c :: b) = some (t, newline, rest' ++ c :: b) := by
  obtain ⟨mid, hgap, htoken⟩ := nextToken_eq_some_iff.mp h
  have hmid : mid ≠ [] := by
    rintro rfl
    cases htoken
    exact hfinish rfl
  obtain ⟨mid', rfl, hgap'⟩ := skipGap_semicolon (b := b) hc .open false cs hgap hmid
  have hmid' : mid' ≠ [] := by
    rintro rfl
    cases htoken
    exact hsemicolon rfl
  obtain ⟨rest', rfl, htoken'⟩ := scanToken_semicolon (b := b) hc hend hmid' htoken ht
  rw [if_neg (by simpa using hmid')] at hgap'
  exact ⟨rest', rfl, nextToken_eq_some_iff.mpr ⟨_, hgap', htoken'⟩⟩

/-- Where the semicolon comes next, other text does. -/
theorem skipGap_of_semicolon (h : nextToken (cs ++ [';']) = some (.symbol ";", newline, [])) :
    skipGap .open false (cs ++ c :: b) = skipGap .open newline (c :: b) := by
  obtain ⟨mid, hgap, htoken⟩ := nextToken_eq_some_iff.mp h
  have hmid : mid ≠ [] := by
    rintro rfl
    cases htoken
  obtain ⟨mid', rfl, hgap'⟩ := skipGap_semicolon (b := b) hc .open false cs hgap hmid
  by_cases hmid' : mid' = []
  · subst hmid'
    exact hgap'
  · obtain ⟨rest', hrest, -⟩ := scanToken_semicolon (b := b) hc hend hmid' htoken (by simp)
    simp at hrest

end

end TemplateCompiler.Script
