import Mathlib.Data.List.TakeWhile

/-!
# Runs of characters

A run is as many characters of a text as fit. It ends in front of one that does not, whatever comes behind that one
(`takeWhile_append_cons`, `dropWhile_append_cons`), and it is all that comes first if this fits and the rest does not
go on with another one that does (`takeWhile_run`).
-/

namespace TemplateCompiler.Text

variable {p : Char → Bool} {c : Char} {b : List Char}

/-- A character that comes first neither in a text nor behind it does not come first in both together. -/
theorem head?_append_cons_ne {e : Char} {cs : List Char} (hc : c ≠ e) (hcs : cs.head? ≠ some e) :
    (cs ++ c :: b).head? ≠ some e := by
  cases cs with
  | nil => simpa using hc
  | cons d cs => exact hcs

section

variable (hc : p c = false)

include hc

theorem takeWhile_append_cons (cs : List Char) : (cs ++ c :: b).takeWhile p = cs.takeWhile p := by
  induction cs with
  | nil => simp [hc]
  | cons d cs ih => cases h : p d <;> simp [h, ih]

theorem dropWhile_append_cons (cs : List Char) : (cs ++ c :: b).dropWhile p = cs.dropWhile p ++ c :: b := by
  induction cs with
  | nil => simp [hc]
  | cons d cs ih => cases h : p d <;> simp [h, ih]

/-- A prefix that takes in a character that does not fit. -/
theorem all_take_append_cons {cs : List Char} {count : Nat} (hcount : cs.length < count) :
    ((cs ++ c :: b).take count).all p = false := by
  obtain ⟨n, rfl⟩ : ∃ n, count = cs.length + (n + 1) := ⟨count - cs.length - 1, by omega⟩
  simp [List.take_append, hc]

end

/-- Characters that all fit are the run if the rest does not go on with another one. -/
theorem takeWhile_run {cs rest : List Char} (hcs : ∀ c ∈ cs, p c = true) (hrest : ∀ c ∈ rest.head?, p c = false) :
    (cs ++ rest).takeWhile p = cs ∧ (cs ++ rest).dropWhile p = rest := by
  have hstop : rest.takeWhile p = [] ∧ rest.dropWhile p = rest := by
    cases rest with
    | nil => exact ⟨rfl, rfl⟩
    | cons c cs =>
      have hc := hrest c rfl
      exact ⟨List.takeWhile_cons_of_neg (by simp [hc]), List.dropWhile_cons_of_neg (by simp [hc])⟩
  rw [List.takeWhile_append_of_pos hcs, List.dropWhile_append_of_pos hcs, hstop.1, hstop.2, List.append_nil]
  exact ⟨rfl, rfl⟩

end TemplateCompiler.Text
