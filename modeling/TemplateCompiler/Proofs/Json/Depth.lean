import Mathlib.Tactic.SplitIfs
import TemplateCompiler.Json.Reader
import TemplateCompiler.Template.Encoding

/-!
# The depth of values that are read

The reader goes no deeper than it may (`depth_le_of_readValue`), and where it comes to a value, it comes to the
same one if it may go deeper (`readValue_mono`). Both follow from what a value is read as
(`readsAs_of_readValue`).
-/

namespace TemplateCompiler.Json

open Text

/-! ## Depth -/

theorem depthOfElements_le_iff {es : List Json} {depth : Nat} :
    depthOfElements es ≤ depth ↔ ∀ e ∈ es, e.depth ≤ depth := by
  induction es with
  | nil => simp [depthOfElements]
  | cons e es ih => rw [depthOfElements, Nat.max_le, ih, List.forall_mem_cons]

theorem depthOfMembers_le_iff {ms : List (String × Json)} {depth : Nat} :
    depthOfMembers ms ≤ depth ↔ ∀ m ∈ ms, m.2.depth ≤ depth := by
  induction ms with
  | nil => simp [depthOfMembers]
  | cons m ms ih =>
    have hm : depthOfMember m = m.2.depth := by cases m; rfl
    rw [depthOfMembers, Nat.max_le, ih, List.forall_mem_cons, hm]

theorem depth_array_le_iff {es : List Json} {depth : Nat} :
    (Json.array es).depth ≤ depth + 1 ↔ ∀ e ∈ es, e.depth ≤ depth := by
  rw [Json.depth, Nat.add_le_add_iff_right, depthOfElements_le_iff]

theorem depth_object_le_iff {ms : List (String × Json)} {depth : Nat} :
    (Json.object ms).depth ≤ depth + 1 ↔ ∀ m ∈ ms, m.2.depth ≤ depth := by
  rw [Json.depth, Nat.add_le_add_iff_right, depthOfMembers_le_iff]

/-! ## Lists -/

section

variable {α : Type} {item item' : List Char → Option (α × List Char)} {close : Char}
  {cs rest : List Char} {xs : List α}

theorem readItems_succ (steps : Nat) (cs : List Char) :
    readItems item close (steps + 1) cs = (item cs).bind fun r =>
      match skipBlanks r.2 with
      | c :: rest =>
        if c == close then some ([r.1], rest)
        else if c == ',' then
          (readItems item close steps rest).bind fun more => some (r.1 :: more.1, more.2)
        else none
      | [] => none := rfl

theorem readItems_mono (h : ∀ cs r, item cs = some r → item' cs = some r) {steps : Nat}
    (hread : readItems item close steps cs = some (xs, rest)) :
    readItems item' close steps cs = some (xs, rest) := by
  induction steps generalizing cs xs with
  | zero => cases hread
  | succ steps ih =>
    rw [readItems_succ] at hread ⊢
    obtain ⟨⟨x, tail⟩, hx, hread⟩ := Option.bind_eq_some_iff.mp hread
    rw [h cs (x, tail) hx, Option.bind_some]
    cases hskip : skipBlanks tail with
    | nil => simp [hskip] at hread
    | cons c tail =>
      simp only [hskip] at hread ⊢
      split_ifs at hread ⊢
      · exact hread
      · obtain ⟨⟨more, tail'⟩, hmore, heq⟩ := Option.bind_eq_some_iff.mp hread
        simp only [Option.some.injEq, Prod.mk.injEq] at heq
        obtain ⟨rfl, rfl⟩ := heq
        rw [ih hmore]
        rfl

theorem forall_mem_of_readItems {P : α → Prop} (h : ∀ cs x rest, item cs = some (x, rest) → P x)
    {steps : Nat} (hread : readItems item close steps cs = some (xs, rest)) : ∀ x ∈ xs, P x := by
  induction steps generalizing cs xs with
  | zero => cases hread
  | succ steps ih =>
    rw [readItems_succ] at hread
    obtain ⟨⟨x, tail⟩, hx, hread⟩ := Option.bind_eq_some_iff.mp hread
    cases hskip : skipBlanks tail with
    | nil => simp [hskip] at hread
    | cons c tail =>
      simp only [hskip] at hread
      split_ifs at hread
      · simp only [Option.some.injEq, Prod.mk.injEq] at hread
        rw [← hread.1]
        simpa using h _ _ _ hx
      · obtain ⟨⟨more, tail'⟩, hmore, heq⟩ := Option.bind_eq_some_iff.mp hread
        simp only [Option.some.injEq, Prod.mk.injEq] at heq
        obtain ⟨rfl, rfl⟩ := heq
        exact List.forall_mem_cons.mpr ⟨h _ _ _ hx, ih hmore⟩

theorem readList_mono (h : ∀ cs r, item cs = some r → item' cs = some r)
    (hread : readList item close cs = some (xs, rest)) : readList item' close cs = some (xs, rest) := by
  unfold readList at hread ⊢
  cases hskip : skipBlanks cs with
  | nil => simp [hskip] at hread
  | cons c tail =>
    simp only [hskip] at hread ⊢
    split_ifs at hread ⊢
    · exact hread
    · exact readItems_mono h hread

theorem forall_mem_of_readList {P : α → Prop} (h : ∀ cs x rest, item cs = some (x, rest) → P x)
    (hread : readList item close cs = some (xs, rest)) : ∀ x ∈ xs, P x := by
  unfold readList at hread
  cases hskip : skipBlanks cs with
  | nil => simp [hskip] at hread
  | cons c tail =>
    simp only [hskip] at hread
    split_ifs at hread
    · simp only [Option.some.injEq, Prod.mk.injEq] at hread
      simp [← hread.1]
    · exact forall_mem_of_readItems h hread

end

/-! ## Members -/

section

variable {value value' : List Char → Option (Json × List Char)} {cs rest : List Char} {m : String × Json}

-- A member is read by its value, which stands behind the key.
theorem exists_value_of_readMember (h : readMember value cs = some (m, rest)) :
    ∃ tail, value tail = some (m.2, rest) ∧
      ∀ value', value' tail = some (m.2, rest) → readMember value' cs = some (m, rest) := by
  unfold readMember at h
  split at h
  · rename_i chars hquote
    cases hkey : readString chars with
    | none => simp [hkey] at h
    | some r =>
      simp only [hkey, Option.bind_eq_bind, Option.bind_some] at h
      split at h
      · rename_i tail hcolon
        obtain ⟨⟨v, more⟩, hv, h⟩ := Option.bind_eq_some_iff.mp h
        simp only [Option.pure_def, Option.some.injEq, Prod.mk.injEq] at h
        obtain ⟨rfl, rfl⟩ := h
        refine ⟨tail, hv, fun value' hv' => ?_⟩
        simp [readMember, hquote, hkey, hcolon, hv']
      · cases h
  · cases h

theorem readMember_mono (h : ∀ cs r, value cs = some r → value' cs = some r)
    (hread : readMember value cs = some (m, rest)) : readMember value' cs = some (m, rest) := by
  obtain ⟨tail, hv, hmember⟩ := exists_value_of_readMember hread
  exact hmember value' (h _ _ hv)

end

/-! ## Values -/

theorem depth_of_numberOf {negative : Bool} {whole : List Char} {fraction : Option (List Char)}
    {exponent : Option Int} {j : Json} (h : numberOf negative whole fraction exponent = some j) :
    j.depth = 0 := by
  unfold numberOf at h
  dsimp only at h
  generalize (if negative = true then decide (ofDigits 10 whole ≤ Nat.pow 2 63) && ofDigits 10 whole != 0
    else decide (ofDigits 10 whole < Nat.pow 2 64)) = fits at h
  split at h
  · cases h
    rfl
  · split at h
    · cases h
    · cases h
      rfl

theorem depth_of_readNumber {cs rest : List Char} {j : Json} (h : readNumber cs = some (j, rest)) :
    j.depth = 0 := by
  unfold readNumber at h
  simp only [Option.bind_eq_bind, Option.bind_eq_some_iff, Option.pure_def, Option.some.injEq,
    Prod.mk.injEq, Prod.exists] at h
  obtain ⟨whole, _, -, fraction, _, -, exponent, _, -, _, hnumber, rfl, -⟩ := h
  exact depth_of_numberOf hnumber

/-- How a value is read: as one that does not nest, whatever the depth, or as a list of values that nest less
deep. -/
inductive ReadsAs (depth : Nat) (cs rest : List Char) : Json → Prop
  | plain {j : Json} (hdepth : j.depth = 0) (hread : ∀ d, readValue d cs = some (j, rest)) :
    ReadsAs depth cs rest j
  | array {d : Nat} {tail : List Char} {es : List Json} (hdepth : depth = d + 1)
      (hskip : skipBlanks cs = '[' :: tail)
      (hread : readList (readValue d) ']' tail = some (es, rest)) : ReadsAs depth cs rest (.array es)
  | object {d : Nat} {tail : List Char} {ms : List (String × Json)} (hdepth : depth = d + 1)
      (hskip : skipBlanks cs = '\x7b' :: tail)
      (hread : readList (readMember (readValue d)) '\x7d' tail = some (ms, rest)) :
    ReadsAs depth cs rest (.object ms)

theorem readsAs_of_readValue {depth : Nat} {cs rest : List Char} {j : Json}
    (h : readValue depth cs = some (j, rest)) : ReadsAs depth cs rest j := by
  cases hskip : skipBlanks cs with
  | nil => simp [readValue, hskip] at h
  | cons c tail =>
    -- what does not nest is read without a look at the depth
    have hplain {r : Option (Json × List Char)} (hr : ∀ d, readValue d cs = r)
        (hdepth : ∀ j rest, r = some (j, rest) → j.depth = 0) : ReadsAs depth cs rest j := by
      rw [hr] at h
      exact .plain (hdepth j rest h) fun d => (hr d).trans h
    have hword {word : String} {value : Json} (hvalue : value.depth = 0) :
        ∀ j rest, (dropWord word (c :: tail)).map (value, ·) = some (j, rest) → j.depth = 0 := by
      intro j rest hj
      obtain ⟨_, -, heq⟩ := Option.map_eq_some_iff.mp hj
      cases heq
      exact hvalue
    by_cases hquote : (c == '\x22') = true
    · apply hplain (r := (readString tail).map fun r => (.string r.1, r.2))
      · intro d
        simp [readValue, hskip, hquote]
      · intro j rest hj
        obtain ⟨_, -, heq⟩ := Option.map_eq_some_iff.mp hj
        cases heq
        rfl
    by_cases hnumber : (c == '-' || isAsciiDigit c) = true
    · apply hplain (r := readNumber (c :: tail))
      · intro d
        simp only [readValue, hskip, hquote, hnumber, Bool.false_eq_true, if_true, if_false]
      · exact fun j rest hj => depth_of_readNumber hj
    by_cases hnull : (c == 'n') = true
    · apply hplain (r := (dropWord "null" (c :: tail)).map (.null, ·))
      · intro d
        simp only [readValue, hskip, hquote, hnumber, hnull, Bool.false_eq_true, if_true, if_false]
      · exact hword rfl
    by_cases htrue : (c == 't') = true
    · apply hplain (r := (dropWord "true" (c :: tail)).map (.boolean true, ·))
      · intro d
        simp only [readValue, hskip, hquote, hnumber, hnull, htrue, Bool.false_eq_true, if_true, if_false]
      · exact hword rfl
    by_cases hfalse : (c == 'f') = true
    · apply hplain (r := (dropWord "false" (c :: tail)).map (.boolean false, ·))
      · intro d
        simp only [readValue, hskip, hquote, hnumber, hnull, htrue, hfalse, Bool.false_eq_true, if_true, if_false]
      · exact hword rfl
    simp only [readValue, hskip, hquote, hnumber, hnull, htrue, hfalse, Bool.false_eq_true, if_false] at h
    cases depth with
    | zero => cases h
    | succ d =>
      dsimp only at h
      split_ifs at h with hbracket hbrace
      · obtain ⟨⟨es, tail'⟩, hread, heq⟩ := Option.map_eq_some_iff.mp h
        cases heq
        rw [beq_iff_eq.mp hbracket] at hskip
        exact .array rfl hskip hread
      · obtain ⟨⟨ms, tail'⟩, hread, heq⟩ := Option.map_eq_some_iff.mp h
        cases heq
        rw [beq_iff_eq.mp hbrace] at hskip
        exact .object rfl hskip hread

/-- A value that is read nests no deeper than the reader may go. -/
theorem depth_le_of_readValue {depth : Nat} {cs rest : List Char} {j : Json}
    (h : readValue depth cs = some (j, rest)) : j.depth ≤ depth := by
  induction depth generalizing cs rest j with
  | zero =>
    cases readsAs_of_readValue h with
    | plain hdepth _ => exact Nat.le_of_eq hdepth
    | array hdepth _ _ => cases hdepth
    | object hdepth _ _ => cases hdepth
  | succ depth ih =>
    cases readsAs_of_readValue h with
    | plain hdepth _ => omega
    | array hdepth _ hread =>
      cases hdepth
      exact depth_array_le_iff.mpr (forall_mem_of_readList (fun cs j rest => ih) hread)
    | object hdepth _ hread =>
      cases hdepth
      refine depth_object_le_iff.mpr (forall_mem_of_readList (fun cs m rest hm => ?_) hread)
      obtain ⟨tail, hv, -⟩ := exists_value_of_readMember hm
      exact ih hv

/-- A reader that may go deeper reads the same value. -/
theorem readValue_mono {depth : Nat} {cs rest : List Char} {j : Json}
    (h : readValue depth cs = some (j, rest)) {more : Nat} (hmore : depth ≤ more) :
    readValue more cs = some (j, rest) := by
  induction depth generalizing cs rest j more with
  | zero =>
    cases readsAs_of_readValue h with
    | plain _ hread => exact hread more
    | array hdepth _ _ => cases hdepth
    | object hdepth _ _ => cases hdepth
  | succ depth ih =>
    cases readsAs_of_readValue h with
    | plain _ hread => exact hread more
    | array hdepth hskip hread =>
      cases hdepth
      obtain ⟨d, rfl⟩ : ∃ d, more = d + 1 := Nat.exists_eq_succ_of_ne_zero (by omega)
      rw [readValue, hskip]
      show (readList (readValue d) ']' _).map _ = _
      rw [readList_mono (fun cs r hr => ih hr (by omega)) hread]
      rfl
    | object hdepth hskip hread =>
      cases hdepth
      obtain ⟨d, rfl⟩ : ∃ d, more = d + 1 := Nat.exists_eq_succ_of_ne_zero (by omega)
      rw [readValue, hskip]
      show (readList (readMember (readValue d)) '\x7d' _).map _ = _
      rw [readList_mono (fun cs r hr => readMember_mono (fun cs r hr => ih hr (by omega)) hr) hread]
      rfl

end TemplateCompiler.Json
