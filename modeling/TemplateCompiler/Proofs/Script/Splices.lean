import TemplateCompiler.Proofs.Script.Rules
import TemplateCompiler.Proofs.Script.Scanning

/-!
# Expressions where they are spliced in

An expression that is all of a text is read where the text is copied in front of a stop, if its tokens are
plain: as an argument if it is no sequence (`isArgument_spliced`), and as an operand of a comparison if it binds
more tightly than that (`exists_binary_spliced`).
-/

namespace TemplateCompiler.Script

open Grammar

/-- The expression that is all of a text but the semicolon at its end. -/
def readExpression? (cs : List Char) : Option Expr := do
  let r ← Reader.ofText cs
  let (e, r) ← (Rules.forText cs).expression .module r
  guard (r.covers == 0 && r.token == .symbol ";" && r.rest.isEmpty)
  pure e

/-- The tokens of a text up to the semicolon at its end. -/
inductive Spells : List Token → List Char → Prop
  | ended {cs : List Char} {newline : Bool} : nextToken cs = some (.symbol ";", newline, []) → Spells [] cs
  | more {cs rest : List Char} {t : Token} {ts : List Token} {newline : Bool} :
    nextToken cs = some (t, newline, rest) → Spells ts rest → Spells (t :: ts) cs

/-- The tokens of a text up to the semicolon at its end, if there are not more than a given number. -/
def tokensOf? : Nat → List Char → Option (List Token)
  | 0, _ => none
  | n + 1, cs =>
    match nextToken cs with
    | none => none
    | some (t, _, rest) =>
      if t == .symbol ";" && rest.isEmpty then some [] else (tokensOf? n rest).map (t :: ·)

theorem spells_of_tokensOf? {n : Nat} {cs : List Char} {ts : List Token} (h : tokensOf? n cs = some ts) :
    Spells ts cs := by
  induction n generalizing cs ts with
  | zero => cases h
  | succ n ih =>
    rw [tokensOf?] at h
    split at h
    · cases h
    · rename_i t newline rest hnext
      split at h
      · rename_i hend
        simp only [Bool.and_eq_true, beq_iff_eq, List.isEmpty_iff] at hend
        obtain ⟨rfl, rfl⟩ := hend
        cases h
        exact .ended hnext
      · obtain ⟨ts, hts, rfl⟩ := Option.map_eq_some_iff.mp h
        exact .more hnext (ih hts)

/-- The text consists of plain tokens. -/
def isPlainText (cs : List Char) : Bool := (tokensOf? (cs.length + 1) (cs ++ [';'])).any (arePlain true)

theorem exists_spells_of_isPlainText {cs : List Char} (h : isPlainText cs = true) :
    ∃ ts, Spells ts (cs ++ [';']) ∧ arePlain true ts = true := by
  obtain ⟨ts, hts, hplain⟩ := (Option.any_eq_true _ _).mp h
  exact ⟨ts, spells_of_tokensOf? hts, hplain⟩

namespace Grammar

/-- Up to a symbol, the text is an argument for the rules with enough levels. -/
def IsArgument (d : Nat) (cs : List Char) (e : Expr) (s : String) (b : List Char) : Prop :=
  ∃ t newline mid, nextToken cs = some (t, newline, mid) ∧ t ≠ .symbol ")" ∧ t ≠ .symbol "..." ∧
    ∀ depth, d ≤ depth → ∃ newline', (Rules.ofDepth depth).assignment .module ⟨t, newline, mid, 0⟩ =
      some (e, ⟨.symbol s, newline', b, 0⟩)

variable {k : Stop} {c : Char} {after : List Char}

/-- The text comes to the stop with its first character. -/
structure Stop.Comes (k : Stop) (c : Char) (after : List Char) : Prop where
  breaks : Breaks c
  lineEnd : isLineEnd c = false
  scans : ∀ newline, ∃ mid, skipGap .open newline (c :: after) = some (newline, mid) ∧
    scanToken mid = some (.symbol k.symbol, k.after)

/-- A plain token of a text is there as well where the text is spliced in. -/
theorem Stop.Comes.exists_nextToken (hk : k.Comes c after) {cs rest : List Char} {t : Token} {newline : Bool}
    (hnext : nextToken (cs ++ [';']) = some (t, newline, rest)) (hplain : isPlain t) :
    ∃ rest', rest = rest' ++ [';'] ∧ nextToken (cs ++ c :: after) = some (t, newline, rest' ++ c :: after) := by
  -- A template could go on behind the splice. A plain token is none, and it is not the end either.
  refine nextToken_semicolon hk.breaks hk.lineEnd hnext ?_ ?_ ?_
  · rintro chunk isLast rfl
    cases hplain
  · rintro rfl
    cases hplain
  · rintro rfl
    exact absurd hplain (by decide)

/-- A plain text spells the same tokens where it is spliced in. -/
theorem agree_of_spells (hk : k.Comes c after) {ts : List Token} {cs : List Char} {start : Bool}
    (hspells : Spells ts (cs ++ [';'])) (hplain : arePlain start ts) :
    Agree k ts (cs ++ [';']) (cs ++ c :: after) := by
  induction ts generalizing cs start with
  | nil =>
    obtain ⟨newline, hend⟩ : ∃ newline, nextToken (cs ++ [';']) = some (.symbol ";", newline, []) := by
      cases hspells with
      | ended hend => exact ⟨_, hend⟩
    obtain ⟨mid, hmid, hstop⟩ := hk.scans newline
    have hnext : nextToken (cs ++ c :: after) = some (.symbol k.symbol, newline, k.after) :=
      nextToken_eq_some_iff.mpr ⟨mid, by rw [skipGap_of_semicolon hk.breaks hk.lineEnd hend, hmid], hstop⟩
    exact .ended hend hnext
  | cons t ts ih =>
    obtain - | ⟨ht, hspells⟩ := hspells
    obtain ⟨hfirst, hrest⟩ := arePlain_cons hplain
    obtain ⟨rest', rfl, hother⟩ := hk.exists_nextToken ht hfirst
    exact .more ht hother (by simp) (ih hspells hrest)

/-- Before a plain text, and before that text where it is spliced in, readers stand side by side. -/
theorem exists_alongside (hk : k.Comes c after) {code : List Char} (hplain : isPlainText code = true) {r : Reader}
    (hr : Reader.ofText (code ++ [';']) = some r) (hstart : r.token ≠ .symbol ";") :
    ∃ u, nextToken (code ++ c :: after) = some (r.token, r.newline, u ++ c :: after) ∧
      Alongside k true r ⟨r.token, r.newline, u ++ c :: after, 0⟩ := by
  obtain ⟨ts, hspells, hplain⟩ := exists_spells_of_isPlainText hplain
  obtain ⟨⟨t, newline, rest⟩, hnext, heq⟩ := Option.bind_eq_some_iff.mp hr
  cases heq
  cases hspells with
  | ended hend =>
    cases hnext.symm.trans hend
    exact absurd rfl hstart
  | @more _ _ _ ts _ ht hspells =>
    cases hnext.symm.trans ht
    obtain ⟨hfirst, hrest⟩ := arePlain_cons hplain
    obtain ⟨u, rfl, hother⟩ := hk.exists_nextToken ht hfirst
    exact ⟨u, hother, rfl, rfl, rfl, by simp, _, hplain, agree_of_spells hk hspells hrest⟩

section

variable {code : List Char} {e : Expr} (hcode : readExpression? (code ++ [';']) = some e)

include hcode

/-- How an expression that is no sequence is read on its own. -/
theorem exists_assignment (hlevel : 0 < e.level) :
    ∃ r m, Reader.ofText (code ++ [';']) = some r ∧ (∀ s ∈ [")", ";", "..."], r.token ≠ .symbol s) ∧
      assignmentRule (Rules.ofDepth (code.length + 2)) .module r = some (e, m) ∧ m.token = .symbol ";" ∧
      m.covers = 0 := by
  have hdepth : Rules.forText (code ++ [';']) = Rules.ofDepth (code.length + 3) := by
    simp [Rules.forText]
  obtain ⟨r, hr, hread⟩ := Option.bind_eq_some_iff.mp hcode
  obtain ⟨⟨e, m⟩, hexpression, hread⟩ := Option.bind_eq_some_iff.mp hread
  obtain ⟨u, hguard, heq⟩ := Option.bind_eq_some_iff.mp hread
  cases heq
  have hend : m.covers = 0 ∧ m.token = .symbol ";" := by
    by_cases hm : (m.covers == 0 && m.token == .symbol ";" && m.rest.isEmpty) = true
    · simp only [Bool.and_eq_true, beq_iff_eq] at hm
      exact hm.1
    · rw [guard, if_neg hm] at hguard
      cases hguard
  obtain ⟨first, m₁, hfirst, hrest⟩ := bind_eq_some_iff.mp hexpression
  rw [hdepth] at hfirst
  -- A sequence has the lowest level, so what was read ends before the first comma.
  obtain ⟨comma, m₂, hcomma, hrest⟩ := bind_eq_some_iff.mp hrest
  rw [atSymbol_apply] at hcomma
  cases hcomma
  split at hrest
  · obtain ⟨n, m₃, -, hrest⟩ := bind_eq_some_iff.mp hrest
    obtain ⟨rest, m₄, -, hrest⟩ := bind_eq_some_iff.mp hrest
    cases hrest
    exact absurd hlevel (Nat.lt_irrefl 0)
  · cases hrest
    refine ⟨r, m, hr, fun s hs htoken => ?_, hfirst, hend.2, hend.1⟩
    cases (assignmentRule_none _ hs r htoken).symm.trans hfirst

variable (hplain : isPlainText code = true) (hk : k.Comes c after)

include hplain hk

/-- Where an expression that is no sequence is spliced in, it is an argument up to the stop. -/
theorem isArgument_spliced (hlevel : 0 < e.level) :
    IsArgument (code.length + 3) (code ++ c :: after) e k.symbol k.after := by
  obtain ⟨r, m, hr, hstart, hread, hend, hcovers⟩ := exists_assignment hcode hlevel
  obtain ⟨u, hnext, halongside⟩ := exists_alongside hk hplain hr (hstart ";" (by decide))
  refine ⟨_, _, _, hnext, hstart ")" (by decide), hstart "..." (by decide), fun depth hdepth => ?_⟩
  obtain ⟨m', hread', hnear⟩ := (follows_ofDepth k hdepth).assignment .module (.inl halongside) hread
  obtain hinside | hstopped := hnear
  · exact absurd (hend ▸ hinside.isPlain) (by decide)
  · refine ⟨m'.newline, ?_⟩
    rw [hread', ← hstopped.token_eq', ← hstopped.rest_eq', ← hcovers, ← hstopped.covers_eq]

/-- Where an expression that binds above comparisons is spliced in, the rule for their operands reads it up to the
stop. -/
theorem exists_binary_spliced {depth : Nat} (hdepth : code.length + 3 ≤ depth) (hlevel : 9 < e.level) :
    ∃ t newline u newline', nextToken (code ++ c :: after) = some (t, newline, u ++ c :: after) ∧
      (Rules.ofDepth depth).binary .module 8 ⟨t, newline, u ++ c :: after, 0⟩ =
        some (e, ⟨.symbol k.symbol, newline', k.after, 0⟩) := by
  obtain ⟨r, m, hr, hstart, hread, hend, hcovers⟩ := exists_assignment hcode (by omega)
  -- The semicolon is no operator, so the climb from the operands of comparisons stops there too.
  have hhalts : Halts .module 8 m := by
    intro op level hop
    rw [hend] at hop
    cases hop
  have hbinary : (Rules.ofDepth (code.length + 3)).binary .module 8 r = some (e, m) :=
    assignmentRule_climb hlevel hread hhalts
  obtain ⟨u, hnext, halongside⟩ := exists_alongside hk hplain hr (hstart ";" (by decide))
  obtain ⟨m', hread', hnear⟩ :=
    (follows_ofDepth k hdepth).binary .module 8 (.inl halongside.weaken) hbinary
  obtain hinside | hstopped := hnear
  · exact absurd (hend ▸ hinside.isPlain) (by decide)
  · refine ⟨_, _, u, m'.newline, hnext, ?_⟩
    rw [hread', ← hstopped.token_eq', ← hstopped.rest_eq', ← hcovers, ← hstopped.covers_eq]

end

end Grammar

end TemplateCompiler.Script
