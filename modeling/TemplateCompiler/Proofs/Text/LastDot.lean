import TemplateCompiler.Companion
import TemplateCompiler.Proofs.Text.Runs

/-!
# The last dot

Names of files are cut at their last dot, from the end on: into an owner, a kind and an extension
(`splitLastDot_append`), or into a stem and an extension (`Path.splitName_append`).
-/

namespace TemplateCompiler

-- From the end on, a text without dots comes first.
theorem reverse_run {back : List Char} (h : '.' ∉ back) (front : List Char) :
    (front ++ '.' :: back).reverse.takeWhile (· != '.') = back.reverse ∧
      (front ++ '.' :: back).reverse.dropWhile (· != '.') = '.' :: front.reverse := by
  have hback : ∀ c ∈ back.reverse, (c != '.') = true := by
    intro c hc
    rw [bne_iff_ne]
    rintro rfl
    exact h (List.mem_reverse.mp hc)
  have hreverse : (front ++ '.' :: back).reverse = back.reverse ++ '.' :: front.reverse := by simp
  rw [hreverse]
  exact Text.takeWhile_run hback (by simp)

theorem exists_last_dot {cs : List Char} (h : '.' ∈ cs) :
    ∃ front back, cs = front ++ '.' :: back ∧ '.' ∉ back := by
  obtain ⟨after, before, hreverse, hafter⟩ := List.eq_append_cons_of_mem (List.mem_reverse.mpr h)
  refine ⟨before.reverse, after.reverse, ?_, mt List.mem_reverse.mp hafter⟩
  rw [← List.reverse_reverse cs, hreverse]
  simp

theorem splitLastDot_of_not_mem {cs : List Char} (h : '.' ∉ cs) : splitLastDot cs = none := by
  have hdrop : cs.reverse.dropWhile (· != '.') = [] := by
    rw [List.dropWhile_eq_nil_iff]
    intro c hc
    rw [bne_iff_ne]
    rintro rfl
    exact h (List.mem_reverse.mp hc)
  simp only [splitLastDot, hdrop]

theorem splitLastDot_append (front : List Char) {back : List Char} (h : '.' ∉ back) :
    splitLastDot (front ++ '.' :: back) = some (front, back) := by
  simp only [splitLastDot, reverse_run h, List.reverse_reverse]

/-- A text is split where it has its last dot. -/
theorem splitLastDot_eq_some_iff {cs front back : List Char} :
    splitLastDot cs = some (front, back) ↔ cs = front ++ '.' :: back ∧ '.' ∉ back := by
  constructor
  · intro h
    by_cases hdot : '.' ∈ cs
    · obtain ⟨front, back, rfl, hback⟩ := exists_last_dot hdot
      rw [splitLastDot_append front hback] at h
      cases h
      exact ⟨rfl, hback⟩
    · rw [splitLastDot_of_not_mem hdot] at h
      cases h
  · rintro ⟨rfl, hback⟩
    exact splitLastDot_append front hback

/-- The extension of a name is what is behind its last dot, unless the dot is in front. -/
theorem Path.splitName_append {stem extension : String} (hstem : stem ≠ "") (h : '.' ∉ extension.toList) :
    splitName (stem ++ "." ++ extension) = (stem, some extension) := by
  have hchars : (stem ++ "." ++ extension).toList = stem.toList ++ '.' :: extension.toList := by simp
  have hempty : stem.toList.reverse.isEmpty = false := by simpa using hstem
  simp only [splitName, hchars, reverse_run h, hempty, List.reverse_reverse, String.ofList_toList,
    Bool.false_eq_true, if_false]

end TemplateCompiler
