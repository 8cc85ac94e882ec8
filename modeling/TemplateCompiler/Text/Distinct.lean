/-!
# Distinct texts

The texts of a list, each once, in the order of their first occurrence.
-/

namespace TemplateCompiler.Text

/-- The texts of a list that are not in `seen`, each once. -/
def distinctFrom (seen : List String) : List String → List String
  | [] => []
  | s :: rest =>
    if seen.contains s then distinctFrom seen rest else s :: distinctFrom (s :: seen) rest

/-- The texts of a list, each once. -/
def distinct (texts : List String) : List String := distinctFrom [] texts

theorem mem_distinctFrom {seen texts : List String} {s : String} :
    s ∈ distinctFrom seen texts ↔ s ∈ texts ∧ s ∉ seen := by
  induction texts generalizing seen with
  | nil => simp [distinctFrom]
  | cons t rest ih =>
    by_cases ht : t ∈ seen
    · simp only [distinctFrom, List.contains_eq_mem, ht, decide_true, if_true, ih, List.mem_cons]
      constructor
      · exact fun ⟨h, hs⟩ => ⟨Or.inr h, hs⟩
      · rintro ⟨rfl | h, hs⟩
        · exact absurd ht hs
        · exact ⟨h, hs⟩
    · simp only [distinctFrom, List.contains_eq_mem, ht, decide_false, Bool.false_eq_true, if_false,
        List.mem_cons, ih, not_or]
      constructor
      · rintro (rfl | ⟨h, _, hs⟩)
        · exact ⟨Or.inl rfl, ht⟩
        · exact ⟨Or.inr h, hs⟩
      · rintro ⟨rfl | h, hs⟩
        · exact Or.inl rfl
        · by_cases hst : s = t
          · exact Or.inl hst
          · exact Or.inr ⟨h, hst, hs⟩

/-- Nothing is lost and nothing is added. -/
theorem mem_distinct {texts : List String} {s : String} : s ∈ distinct texts ↔ s ∈ texts := by
  simp [distinct, mem_distinctFrom]

theorem nodup_distinctFrom (seen texts : List String) : (distinctFrom seen texts).Nodup := by
  induction texts generalizing seen with
  | nil => exact List.nodup_nil
  | cons t rest ih =>
    unfold distinctFrom
    split
    · exact ih seen
    · exact List.nodup_cons.2 ⟨by simp [mem_distinctFrom], ih _⟩

theorem nodup_distinct (texts : List String) : (distinct texts).Nodup := nodup_distinctFrom [] texts

end TemplateCompiler.Text
