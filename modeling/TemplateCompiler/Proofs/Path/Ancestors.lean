import TemplateCompiler.Proofs.Path.Place

/-!
# Directories above a path

The directories above a path, one step after the other, are those of the beginnings of its parts: all of them but
the path itself, down to the root or to the directory that paths start from (`mem_parts_ancestors`), and the
nearest one first (`pairwise_ancestors`).
-/

namespace TemplateCompiler.Path

variable {p d : Path}

theorem parts_of_parent (h : p.parent = some d) : ∃ part, p.parts = d.parts ++ [part] := by
  obtain ⟨hnone, -⟩ | ⟨part, -, hparent, hparts⟩ | ⟨e, part, hparent, -, -, hparts⟩ := p.parent_cases
  · rw [hnone] at h
    cases h
  · rw [hparent] at h
    cases h
    exact ⟨part, by rw [hparts, parts_of_text_eq rfl, List.nil_append]⟩
  · rw [hparent] at h
    cases h
    exact ⟨part, hparts⟩

theorem parts_of_parent_eq_none (h : p.parent = none) : p.parts = [] ∨ p.parts = [.root] := by
  obtain ⟨-, hparts⟩ | ⟨part, -, hparent, -⟩ | ⟨e, part, hparent, -⟩ := p.parent_cases
  · exact hparts
  · rw [hparent] at h
    cases h
  · rw [hparent] at h
    cases h

theorem length_parts_le (p : Path) : p.parts.length ≤ p.text.length + 1 := by
  have hsegments : p.segments.length ≤ p.text.length + 1 := by
    rw [← String.length_toList]
    exact length_splitFrom_le [] p.text.toList
  obtain ⟨first, rest, hrest⟩ := List.exists_cons_of_ne_nil (splitFrom_ne_nil [] p.text.toList)
  have hrest : p.segments = first :: rest := hrest
  have hparts : p.parts.length ≤ (rest.filterMap partOf?).length + 1 := by
    rw [parts, hrest]
    dsimp only
    split
    · exact Nat.le_refl _
    split
    · exact Nat.le_refl _
    · cases partOf? first with
      | none => exact Nat.le_succ _
      | some part => exact Nat.le_refl _
  have hlength := List.length_filterMap_le partOf? rest
  rw [hrest, List.length_cons] at hsegments
  omega

-- The beginnings of a list but itself are those of the list without its last entry.
theorem prefix_concat_and_ne_iff {ps front : List Part} {part : Part} :
    ps <+: front ++ [part] ∧ ps ≠ front ++ [part] ↔ ps <+: front := by
  rw [List.prefix_concat_iff]
  constructor
  · rintro ⟨hlast | hfront, hne⟩
    · exact absurd hlast hne
    · exact hfront
  · intro hfront
    refine ⟨.inr hfront, ?_⟩
    rintro rfl
    have hle := hfront.length_le
    rw [List.length_append, List.length_singleton] at hle
    omega

/-- The directories above a path are those of the beginnings of its parts, apart from the path itself and from
what is in front of the root. -/
theorem mem_parts_ancestorsFrom {n : Nat} (hn : p.parts.length ≤ n) (ps : List Part) :
    (∃ d ∈ p.ancestorsFrom n, d.parts = ps) ↔
      ps <+: p.parts ∧ ps ≠ p.parts ∧ (p.isAbsolute = true → ps ≠ []) := by
  induction n generalizing p with
  | zero =>
    have hnil : p.parts = [] := List.length_eq_zero_iff.mp (Nat.le_zero.mp hn)
    rw [hnil, List.prefix_nil]
    constructor
    · rintro ⟨d, hd, -⟩
      exact (List.not_mem_nil hd).elim
    · rintro ⟨hall, hne, -⟩
      exact absurd hall hne
  | succ n ih =>
    rw [ancestorsFrom]
    cases hparent : p.parent with
    | none =>
      constructor
      · rintro ⟨d, hd, -⟩
        exact (List.not_mem_nil hd).elim
      · rintro ⟨hfront, hne, hroot⟩
        -- a path without a parent has no parts, or the root only
        rcases parts_of_parent_eq_none hparent with h | h
        · rw [h] at hfront hne
          exact absurd (List.prefix_nil.mp hfront) hne
        · have habsolute : p.isAbsolute = true := (isAbsolute_iff_root_mem p).mpr (h ▸ List.mem_cons_self)
          rw [h] at hfront hne
          have hnil : ps <+: [] := prefix_concat_and_ne_iff.mp ⟨hfront, hne⟩
          exact absurd (List.prefix_nil.mp hnil) (hroot habsolute)
    | some d =>
      obtain ⟨part, hparts⟩ := parts_of_parent hparent
      have hlength : d.parts.length ≤ n := by
        rw [hparts, List.length_append] at hn
        exact Nat.le_of_succ_le_succ hn
      have hroot (h : d.isAbsolute = true) : d.parts ≠ [] :=
        List.ne_nil_of_mem ((isAbsolute_iff_root_mem d).mp h)
      rw [hparts, ← and_assoc, prefix_concat_and_ne_iff, ← isAbsolute_of_parent hparent]
      constructor
      · rintro ⟨e, he, rfl⟩
        rcases List.mem_cons.mp he with rfl | he
        · exact ⟨List.prefix_rfl, hroot⟩
        · obtain ⟨hfront, -, hnot⟩ := (ih hlength).mp ⟨e, he, rfl⟩
          exact ⟨hfront, hnot⟩
      · rintro ⟨hfront, hnot⟩
        -- the parent has the longest beginning, and the directories above the parent have all others
        by_cases hd : d.parts = ps
        · exact ⟨d, List.mem_cons_self, hd⟩
        · obtain ⟨e, he, heq⟩ := (ih hlength).mpr ⟨hfront, Ne.symm hd, hnot⟩
          exact ⟨e, List.mem_cons_of_mem _ he, heq⟩

/-- Further away are the directories with fewer parts. -/
theorem pairwise_ancestorsFrom (n : Nat) (p : Path) :
    (∀ d ∈ p.ancestorsFrom n, d.parts.length < p.parts.length) ∧
      (p.ancestorsFrom n).Pairwise fun d e => e.parts.length < d.parts.length := by
  induction n generalizing p with
  | zero => exact ⟨fun d hd => (List.not_mem_nil hd).elim, .nil⟩
  | succ n ih =>
    rw [ancestorsFrom]
    cases hparent : p.parent with
    | none => exact ⟨fun d hd => (List.not_mem_nil hd).elim, .nil⟩
    | some d =>
      obtain ⟨part, hparts⟩ := parts_of_parent hparent
      have hlt : d.parts.length < p.parts.length := by
        rw [hparts, List.length_append]
        exact Nat.lt_succ_self _
      obtain ⟨hbelow, hpairwise⟩ := ih d
      exact ⟨List.forall_mem_cons.mpr ⟨hlt, fun e he => Nat.lt_trans (hbelow e he) hlt⟩,
        List.pairwise_cons.mpr ⟨hbelow, hpairwise⟩⟩

theorem mem_parts_ancestors (p : Path) (ps : List Part) :
    (∃ d ∈ p.ancestors, d.parts = ps) ↔ ps <+: p.parts ∧ ps ≠ p.parts ∧ (p.isAbsolute = true → ps ≠ []) :=
  mem_parts_ancestorsFrom (length_parts_le p) ps

theorem pairwise_ancestors (p : Path) : p.ancestors.Pairwise fun d e => e.parts.length < d.parts.length :=
  (pairwise_ancestorsFrom _ p).2

end TemplateCompiler.Path
