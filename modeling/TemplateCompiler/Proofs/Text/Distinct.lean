import Mathlib.Data.List.Basic
import TemplateCompiler.Text.Distinct

/-!
# Texts as they are first seen

Where texts are kept each once, those that are new stand in the order in which they are first seen
(`areFirstSeen_distinctFrom`). One text more at the end is new or changes nothing (`distinct_concat`).
-/

namespace TemplateCompiler.Text

/-- The new texts of a list are those that are not among the old ones, each once, where one comes before another
if it is seen first. -/
structure AreFirstSeen (old texts new : List String) : Prop where
  nodup : new.Nodup
  mem : ∀ s, s ∈ new ↔ s ∈ texts ∧ s ∉ old
  order : new.Pairwise fun s t => texts.idxOf s < texts.idxOf t

theorem distinctFrom_congr {seen seen' : List String} (h : ∀ s, s ∈ seen ↔ s ∈ seen') (texts : List String) :
    distinctFrom seen texts = distinctFrom seen' texts := by
  induction texts generalizing seen seen' with
  | nil => rfl
  | cons s rest ih =>
    have hmem : seen.contains s = seen'.contains s := by
      rw [List.contains_eq_mem, List.contains_eq_mem, decide_eq_decide]
      exact h s
    have hcons : ∀ t, t ∈ s :: seen ↔ t ∈ s :: seen' := fun t => by rw [List.mem_cons, List.mem_cons, h t]
    rw [distinctFrom, distinctFrom, hmem, ih h, ih hcons]

theorem order_distinctFrom (seen texts : List String) :
    (distinctFrom seen texts).Pairwise fun s t => texts.idxOf s < texts.idxOf t := by
  induction texts generalizing seen with
  | nil => exact .nil
  | cons s rest ih =>
    -- What comes behind a text in the list comes one place later with it.
    have hlater {seen' : List String} (hs : s ∈ seen') : ∀ t ∈ distinctFrom seen' rest,
        (s :: rest).idxOf t = rest.idxOf t + 1 := by
      intro t ht
      have hne : s ≠ t := by
        rintro rfl
        exact (mem_distinctFrom.mp ht).2 hs
      rw [List.idxOf_cons_ne rest hne]
    have hrest {seen' : List String} (hs : s ∈ seen') :
        (distinctFrom seen' rest).Pairwise fun t u => (s :: rest).idxOf t < (s :: rest).idxOf u := by
      refine List.Pairwise.imp_of_mem (fun {t u} ht hu hlt => ?_) (ih seen')
      rw [hlater hs t ht, hlater hs u hu]
      exact Nat.succ_lt_succ hlt
    unfold distinctFrom
    split
    · rename_i hs
      exact hrest (by simpa using hs)
    · refine List.pairwise_cons.mpr ⟨fun t ht => ?_, hrest List.mem_cons_self⟩
      rw [hlater List.mem_cons_self t ht, List.idxOf_cons_self]
      exact Nat.succ_pos _

theorem areFirstSeen_distinctFrom (seen texts : List String) :
    AreFirstSeen seen texts (distinctFrom seen texts) :=
  ⟨nodup_distinctFrom seen texts, fun _ => mem_distinctFrom, order_distinctFrom seen texts⟩

theorem distinctFrom_concat (seen texts : List String) (s : String) :
    distinctFrom seen (texts ++ [s]) =
      distinctFrom seen texts ++ if s ∈ texts ∨ s ∈ seen then [] else [s] := by
  induction texts generalizing seen with
  | nil => by_cases h : s ∈ seen <;> simp [distinctFrom, h]
  | cons t rest ih =>
    rw [List.cons_append, distinctFrom, distinctFrom]
    split
    · rename_i ht
      have htseen : t ∈ seen := by simpa using ht
      have hiff : (s ∈ t :: rest ∨ s ∈ seen) ↔ (s ∈ rest ∨ s ∈ seen) := by
        rw [List.mem_cons]
        constructor
        · rintro ((rfl | h) | h)
          · exact .inr htseen
          · exact .inl h
          · exact .inr h
        · exact Or.imp_left .inr
      rw [ih, if_congr hiff rfl rfl]
    · have hiff : (s ∈ rest ∨ s ∈ t :: seen) ↔ (s ∈ t :: rest ∨ s ∈ seen) := by
        rw [List.mem_cons, List.mem_cons, or_left_comm, or_assoc]
      rw [ih, List.cons_append, if_congr hiff rfl rfl]

/-- A text that is there already changes nothing; a new one comes last. -/
theorem distinct_concat (texts : List String) (s : String) :
    distinct (texts ++ [s]) = distinct texts ++ if s ∈ texts then [] else [s] := by
  have h := distinctFrom_concat [] texts s
  simpa [distinct] using h

end TemplateCompiler.Text
