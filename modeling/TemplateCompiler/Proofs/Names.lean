import TemplateCompiler.Names
import TemplateCompiler.Proofs.Json.Numbers

/-!
# Generated names are new

The names for a hint are plain identifiers that start with a low line (`isPlainIdentifier_candidate`). They
differ from each other, so that one of them is not in use yet: the first of these is the one that is
generated (`isFirstFree_fresh`).
-/

namespace TemplateCompiler.Names

open Text (isPlainPart isAsciiDigit)

/-! ## Characters -/

theorem isPlainPart_toUpper {c : Char} (hc : isPlainPart c = true) : isPlainPart c.toUpper = true := by
  have hascii : ∀ n < 128, isPlainPart (Char.ofNat n) = true → isPlainPart (Char.ofNat n).toUpper = true := by
    decide
  have hsmall : c.toNat < 128 := by
    simp only [isPlainPart, Text.isPlainStart, Text.isAsciiLetter, isAsciiDigit, Bool.or_eq_true,
      Bool.and_eq_true, decide_eq_true_eq, beq_iff_eq, Char.le_def, UInt32.le_iff_toNat_le] at hc
    show c.val.toNat < 128
    rcases hc with (((h | h) | rfl) | rfl) | h
    · exact Nat.lt_of_le_of_lt h.2 (by decide)
    · exact Nat.lt_of_le_of_lt h.2 (by decide)
    · decide
    · decide
    · exact Nat.lt_of_le_of_lt h.2 (by decide)
  have h := hascii c.toNat hsmall
  rw [Char.ofNat_toNat] at h
  exact h hc

-- Whatever the hint is, only plain characters are left of it.
theorem isPlainPart_of_mem_plainParts {started gap : Bool} {hint : List Char} {c : Char}
    (hc : c ∈ plainParts started gap hint) : isPlainPart c = true := by
  induction hint generalizing started gap with
  | nil => simp [plainParts] at hc
  | cons d rest ih =>
    rw [plainParts] at hc
    by_cases hd : isPlainPart d = true
    · rw [if_pos hd, List.mem_cons] at hc
      rcases hc with hc | hc
      · rw [hc]
        split
        · exact isPlainPart_toUpper hd
        · exact hd
      · exact ih hc
    · rw [if_neg hd] at hc
      exact ih hc

theorem isPlainPart_of_mem_identifierChars {hint : List Char} {c : Char}
    (hc : c ∈ identifierChars hint) : isPlainPart c = true := by
  unfold identifierChars at hc
  split at hc
  · rw [List.mem_singleton.mp hc]
    decide
  · rename_i d rest hparts
    have hplain : ∀ c ∈ d :: rest, isPlainPart c = true := by
      rw [← hparts]
      exact fun c hc => isPlainPart_of_mem_plainParts hc
    split at hc
    · rw [List.mem_cons] at hc
      rcases hc with hc | hc
      · rw [hc]
        decide
      · exact hplain c hc
    · exact hplain c hc

/-- The names for a hint are a low line with plain characters behind it. -/
theorem exists_toList_candidate (hint : String) (n : Nat) :
    ∃ cs, (candidate hint n).toList = '_' :: cs ∧ ∀ c ∈ cs, isPlainPart c = true := by
  have hbase : (base hint).toList = '_' :: identifierChars hint.toList := String.toList_ofList
  cases n with
  | zero => exact ⟨_, hbase, fun c hc => isPlainPart_of_mem_identifierChars hc⟩
  | succ n =>
    refine ⟨identifierChars hint.toList ++ (toString (n + 2)).toList, ?_, fun c hc => ?_⟩
    · rw [candidate, String.toList_append, hbase]
      rfl
    · rw [List.mem_append] at hc
      rcases hc with hc | hc
      · exact isPlainPart_of_mem_identifierChars hc
      · rw [Nat.toString_eq_repr, Nat.toList_repr] at hc
        have hdigit : isAsciiDigit c = true := Text.isAsciiDigit_of_mem_toDigits hc
        simp [isPlainPart, hdigit]

theorem isPlainIdentifier_candidate (hint : String) (n : Nat) :
    Text.isPlainIdentifier (candidate hint n) = true := by
  obtain ⟨cs, hcs, hplain⟩ := exists_toList_candidate hint n
  simp [Text.isPlainIdentifier, hcs, Text.isPlainStart, List.all_eq_true.mpr hplain]

/-! ## The first free name -/

theorem candidate_injective (hint : String) : Function.Injective (candidate hint) := by
  have hbase (n : Nat) : base hint ≠ base hint ++ toString (n + 2) := by
    intro h
    have hempty : base hint ++ "" = base hint ++ toString (n + 2) := by rw [← h, String.append_empty]
    exact Nat.repr_ne_empty ((String.append_right_inj _).mp hempty).symm
  intro a b h
  cases a with
  | zero =>
    cases b with
    | zero => rfl
    | succ b => exact absurd h (hbase b)
  | succ a =>
    cases b with
    | zero => exact absurd h.symm (hbase a)
    | succ b =>
      have hdigits : Nat.toDigits 10 (a + 2) = Nat.toDigits 10 (b + 2) := by
        rw [← Nat.toList_repr, ← Nat.toList_repr]
        exact congrArg String.toList ((String.append_right_inj _).mp h)
      have hnumber : a + 2 = b + 2 := by
        rw [← Nat.ofDigitChars_ten_toDigits (n := a + 2), hdigits, Nat.ofDigitChars_ten_toDigits]
      omega

-- There are more names to try than names in use.
theorem exists_candidate_not_mem (names : Names) (hint : String) :
    ∃ n ∈ List.range (names.used.length + 1), candidate hint n ∉ names.used := by
  apply Classical.byContradiction
  intro hnone
  have hsubset : (List.range (names.used.length + 1)).map (candidate hint) ⊆ names.used := by
    intro name hname
    obtain ⟨n, hn, rfl⟩ := List.mem_map.mp hname
    exact Classical.not_not.mp fun hfree => hnone ⟨n, hn, hfree⟩
  have hnodup : ((List.range (names.used.length + 1)).map (candidate hint)).Nodup :=
    List.pairwise_map.mpr (List.nodup_range.imp fun hne heq => hne (candidate_injective hint heq))
  have hlength := hnodup.length_le_of_subset hsubset
  rw [List.length_map, List.length_range] at hlength
  omega

/-- A fresh name is the first candidate that is not in use, since there are more candidates than names in use. -/
theorem exists_find?_eq_some (names : Names) (hint : String) :
    ∃ n, ((List.range (names.used.length + 1)).find? fun n => !names.used.contains (candidate hint n)) = some n ∧
      names.fresh hint = candidate hint n := by
  unfold fresh
  cases hfind : (List.range (names.used.length + 1)).find? fun n => !names.used.contains (candidate hint n) with
  | some n => exact ⟨n, rfl, rfl⟩
  | none =>
    obtain ⟨n, hn, hfree⟩ := exists_candidate_not_mem names hint
    have hused := List.find?_eq_none.mp hfind n hn
    simp [hfree] at hused

theorem fresh_not_mem (names : Names) (hint : String) : names.fresh hint ∉ names.used := by
  obtain ⟨n, hn, hfresh⟩ := exists_find?_eq_some names hint
  have hfree := List.find?_some hn
  rw [hfresh]
  simpa using hfree

/-- The name is the first one for the hint that is not in use, and is found after at most one try for
each name in use. -/
def IsFirstFree (used : List String) (hint name : String) : Prop :=
  ∃ n ≤ used.length, name = candidate hint n ∧ name ∉ used ∧ ∀ k < n, candidate hint k ∈ used

theorem exists_fresh_eq (names : Names) (hint : String) :
    ∃ n, names.fresh hint = candidate hint n ∧ ∀ k < n, candidate hint k ∈ names.used := by
  obtain ⟨n, hn, hfresh⟩ := exists_find?_eq_some names hint
  obtain ⟨-, i, hi, rfl, hbefore⟩ := List.find?_eq_some_iff_getElem.mp hn
  refine ⟨_, hfresh, fun k hk => ?_⟩
  rw [List.getElem_range] at hk
  have hused := hbefore k hk
  simpa using hused

theorem isFirstFree_fresh (names : Names) (hint : String) {used : List String}
    (hused : ∀ name, name ∈ names.used ↔ name ∈ used) : IsFirstFree used hint (names.fresh hint) := by
  obtain ⟨n, hn, hbefore⟩ := exists_fresh_eq names hint
  have hfree := fresh_not_mem names hint
  rw [hused] at hfree
  refine ⟨n, ?_, hn, hfree, fun k hk => (hused _).mp (hbefore k hk)⟩
  -- the names that were tried are different ones that are in use
  have hnodup : ((List.range n).map (candidate hint)).Nodup :=
    List.Nodup.map (candidate_injective hint) List.nodup_range
  have hsubset : (List.range n).map (candidate hint) ⊆ used := by
    intro name hname
    obtain ⟨k, hk, rfl⟩ := List.mem_map.mp hname
    exact (hused _).mp (hbefore k (List.mem_range.mp hk))
  have hlength := hnodup.length_le_of_subset hsubset
  rwa [List.length_map, List.length_range] at hlength

end TemplateCompiler.Names
