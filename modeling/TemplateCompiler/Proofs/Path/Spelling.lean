import TemplateCompiler.Companion

/-!
# Spellings of a path

Two texts that spell the same path lead to the same directory and name the same file, so that nothing
that is looked up through them depends on the spelling. The directory of a path has all parts of the
path but the last (`parts_directory`).
-/

namespace TemplateCompiler.Path

/-! ## Segments -/

theorem splitFrom_ne_nil (segment cs : List Char) : splitFrom segment cs ≠ [] := by
  induction cs generalizing segment with
  | nil => exact List.cons_ne_nil _ _
  | cons c cs ih =>
    rw [splitFrom]
    split
    · exact List.cons_ne_nil _ _
    · exact ih _

-- The first segment starts with what was read of it.
theorem splitFrom_head (segment cs : List Char) :
    ∃ more rest, splitFrom segment cs = String.ofList (segment.reverse ++ more) :: rest := by
  induction cs generalizing segment with
  | nil => exact ⟨[], [], by rw [splitFrom, List.append_nil]⟩
  | cons c cs ih =>
    rw [splitFrom]
    split
    · exact ⟨[], splitFrom [] cs, by rw [List.append_nil]⟩
    · obtain ⟨more, rest, h⟩ := ih (c :: segment)
      refine ⟨c :: more, rest, ?_⟩
      rw [h, List.reverse_cons, List.append_assoc, List.singleton_append]

theorem not_mem_of_mem_splitFrom {segment cs : List Char} (h : '/' ∉ segment) {s : String}
    (hs : s ∈ splitFrom segment cs) : '/' ∉ s.toList := by
  induction cs generalizing segment with
  | nil =>
    rw [splitFrom, List.mem_singleton] at hs
    rw [hs, String.toList_ofList, List.mem_reverse]
    exact h
  | cons c cs ih =>
    rw [splitFrom] at hs
    split at hs
    · rcases List.mem_cons.mp hs with rfl | hs
      · rw [String.toList_ofList, List.mem_reverse]
        exact h
      · exact ih List.not_mem_nil hs
    · rename_i hc
      refine ih (fun hmem => ?_) hs
      rcases List.mem_cons.mp hmem with rfl | hmem
      · exact hc (beq_self_eq_true _)
      · exact h hmem

-- Reading on up to the next slash.
theorem splitFrom_append {cs : List Char} (h : '/' ∉ cs) (segment rest : List Char) :
    splitFrom segment (cs ++ '/' :: rest) =
      String.ofList (segment.reverse ++ cs) :: splitFrom [] rest := by
  induction cs generalizing segment with
  | nil => rw [List.nil_append, splitFrom, if_pos (beq_self_eq_true _), List.append_nil]
  | cons c cs ih =>
    rw [List.mem_cons, not_or] at h
    rw [List.cons_append, splitFrom, if_neg (by simpa using Ne.symm h.1), ih h.2, List.reverse_cons,
      List.append_assoc, List.singleton_append]

theorem splitFrom_of_not_mem {cs : List Char} (h : '/' ∉ cs) (segment : List Char) :
    splitFrom segment cs = [String.ofList (segment.reverse ++ cs)] := by
  induction cs generalizing segment with
  | nil => rw [splitFrom, List.append_nil]
  | cons c cs ih =>
    rw [List.mem_cons, not_or] at h
    rw [splitFrom, if_neg (by simpa using Ne.symm h.1), ih h.2, List.reverse_cons, List.append_assoc,
      List.singleton_append]

/-- A path that is spelled segment by segment has these segments. -/
theorem segments_intercalate {first : String} {rest : List String}
    (h : ∀ s ∈ first :: rest, '/' ∉ s.toList) :
    (Path.mk (String.intercalate "/" (first :: rest))).segments = first :: rest := by
  show splitFrom [] (String.intercalate "/" (first :: rest)).toList = first :: rest
  induction rest generalizing first with
  | nil =>
    rw [String.intercalate_singleton, splitFrom_of_not_mem (h _ List.mem_cons_self)]
    exact congrArg (fun s => [s]) String.ofList_toList
  | cons second rest ih =>
    rw [String.intercalate_cons_cons, String.append_assoc, String.toList_append,
      String.toList_append]
    show splitFrom [] (first.toList ++ '/' :: (String.intercalate "/" (second :: rest)).toList) = _
    rw [splitFrom_append (h _ List.mem_cons_self), ih fun s hs => h s (List.mem_cons_of_mem _ hs)]
    exact congrArg (fun s => s :: second :: rest) String.ofList_toList

-- An absolute path has an empty segment in front of others.
theorem isAbsolute_iff_of_segments {p : Path} {first : String} {rest : List String}
    (h : p.segments = first :: rest) : p.isAbsolute = true ↔ first = "" ∧ rest ≠ [] := by
  rw [segments] at h
  rw [isAbsolute]
  cases htext : p.text.toList with
  | nil =>
    rw [htext, splitFrom] at h
    obtain ⟨-, rfl⟩ := List.cons_eq_cons.mp h
    exact ⟨fun h => Bool.noConfusion h, fun h => absurd rfl h.2⟩
  | cons c cs =>
    rw [htext, splitFrom] at h
    split at h
    · rename_i hc
      obtain ⟨rfl, rfl⟩ := List.cons_eq_cons.mp h
      rw [List.head?_cons, eq_of_beq hc]
      exact ⟨fun _ => ⟨rfl, splitFrom_ne_nil _ _⟩, fun _ => rfl⟩
    · rename_i hc
      obtain ⟨more, tail, hsplit⟩ := splitFrom_head [c] cs
      obtain ⟨rfl, -⟩ := List.cons_eq_cons.mp (h.symm.trans hsplit)
      constructor
      · intro hhead
        rw [List.head?_cons] at hhead
        exact absurd (by simpa using hhead) hc
      · intro hempty
        exact absurd hempty.1 (by simp)

/-! ## Parts -/

/-- The part that the first segment stands for. An empty one stands for the root if others follow. -/
def leadingParts (first : String) (isLast : Bool) : List Part :=
  if first == "" then (if isLast then [] else [.root])
  else if first == "." then [.here]
  else (partOf? first).toList

theorem parts_of_segments {p : Path} {first : String} {rest : List String}
    (h : p.segments = first :: rest) :
    p.parts = leadingParts first rest.isEmpty ++ rest.filterMap partOf? := by
  have habsolute := isAbsolute_iff_of_segments h
  have hparts : p.parts =
      if p.isAbsolute then .root :: rest.filterMap partOf?
      else if first == "." then .here :: rest.filterMap partOf?
      else (partOf? first).toList ++ rest.filterMap partOf? := by
    rw [parts, h]
  rw [hparts, leadingParts]
  by_cases hfirst : first = ""
  · subst hfirst
    cases rest with
    | nil =>
      rw [if_neg fun h => absurd rfl (habsolute.mp h).2]
      rfl
    | cons second rest =>
      rw [if_pos (habsolute.mpr ⟨rfl, List.cons_ne_nil _ _⟩)]
      rfl
  · have hne : ¬(first == "") = true := fun h => hfirst (eq_of_beq h)
    rw [if_neg fun h => hfirst (habsolute.mp h).1, if_neg hne]
    split <;> rfl

-- The first segment of several is a part.
theorem leadingParts_ne_nil (first : String) : leadingParts first false ≠ [] := by
  unfold leadingParts partOf?
  by_cases hempty : first = ""
  · rw [if_pos (by simpa using hempty)]
    exact List.cons_ne_nil _ _
  by_cases hdot : first = "."
  · rw [if_neg (by simpa using hempty), if_pos (by simpa using hdot)]
    exact List.cons_ne_nil _ _
  · rw [if_neg (by simpa using hempty), if_neg (by simpa using hdot), if_neg (by simp [hempty, hdot])]
    split <;> exact List.cons_ne_nil _ _

theorem leadingParts_of_ne_empty {first : String} (h : first ≠ "") (isLast : Bool) :
    leadingParts first isLast = leadingParts first false := by
  have hne : ¬(first == "") = true := fun heq => h (eq_of_beq heq)
  rw [leadingParts, if_neg hne, leadingParts, if_neg hne]

-- A first segment that is not empty is one part, and not the root.
theorem exists_leadingParts {first : String} (h : first ≠ "") :
    ∃ part, part ≠ .root ∧ leadingParts first false = [part] := by
  unfold leadingParts partOf?
  by_cases hdot : first = "."
  · exact ⟨.here, Part.noConfusion, by simp [hdot]⟩
  by_cases hup : first = ".."
  · exact ⟨.up, Part.noConfusion, by simp [hup]⟩
  · exact ⟨.name first, Part.noConfusion, by simp [h, hdot, hup]⟩

/-! ## Directories -/

/-- A segment that does not count. -/
def isIdle (segment : String) : Bool := (partOf? segment).isNone

theorem dropIdle_append (first : String) (back : List String) :
    dropIdle (back ++ [first]) =
      if back.dropWhile isIdle = [] then (if first == "" then [] else [first])
      else back.dropWhile isIdle ++ [first] := by
  induction back with
  | nil => rfl
  | cons segment back ih =>
    obtain ⟨second, rest, hback⟩ :=
      List.exists_cons_of_ne_nil (List.append_ne_nil_of_right_ne_nil back (List.cons_ne_nil first []))
    have hstep : dropIdle (segment :: back ++ [first]) =
        if isIdle segment then dropIdle (back ++ [first]) else segment :: (back ++ [first]) := by
      rw [List.cons_append, hback]
      rfl
    rw [hstep, List.dropWhile_cons]
    cases isIdle segment with
    | true => exact ih
    | false => rfl

theorem filterMap_dropWhile_isIdle (back : List String) :
    (back.dropWhile isIdle).filterMap partOf? = back.filterMap partOf? := by
  induction back with
  | nil => rfl
  | cons segment back ih =>
    rw [List.dropWhile_cons]
    cases hpart : partOf? segment with
    | none => rw [if_pos (by rw [isIdle, hpart]; rfl), ih, List.filterMap_cons_none hpart]
    | some part => rw [if_neg (by rw [isIdle, hpart]; exact Bool.noConfusion)]

theorem parts_dot : (Path.mk ".").parts = [.here] := by decide +kernel

theorem parts_slash : (Path.mk "/").parts = [.root] := by decide +kernel

-- A path that is spelled with a first segment and those behind it, the last of them first.
theorem parts_spelled {first : String} {back : List String}
    (h : ∀ s ∈ first :: back, '/' ∉ s.toList) (hne : first ≠ "" ∨ back ≠ []) :
    (Path.mk (String.intercalate "/" (first :: back.reverse))).text ≠ "" ∧
      (Path.mk (String.intercalate "/" (first :: back.reverse))).parts =
        leadingParts first false ++ back.reverse.filterMap partOf? := by
  have hsegments : (Path.mk (String.intercalate "/" (first :: back.reverse))).segments =
      first :: back.reverse := by
    refine segments_intercalate fun s hs => h s ?_
    rwa [List.mem_cons, List.mem_reverse, ← List.mem_cons] at hs
  have hlast : first = "" → back.reverse.isEmpty = false := by
    intro hempty
    rw [List.isEmpty_reverse, List.isEmpty_eq_false_iff]
    exact hne.resolve_left (absurd hempty)
  constructor
  · intro htext
    rw [segments, htext] at hsegments
    obtain ⟨hempty, hback⟩ := List.cons_eq_cons.mp hsegments
    have := hlast hempty.symm
    rw [← hback] at this
    exact Bool.noConfusion this
  · rw [parts_of_segments hsegments]
    by_cases hempty : first = ""
    · rw [hlast hempty]
    · rw [leadingParts_of_ne_empty hempty]

section

variable {p : Path} {first : String} {back : List String}

theorem reverse_segments (h : p.segments = first :: back.reverse) :
    p.segments.reverse = back ++ [first] := by
  rw [h, List.reverse_cons, List.reverse_reverse]

/-- The parent of other paths is spelled with the segments in front of the last part. -/
theorem exists_parent {segment : String} {above : List String}
    (hsegments : p.segments = first :: back.reverse)
    (hidle : back.dropWhile isIdle = segment :: above) :
    ∃ d, p.parent = some d ∧ d.text ≠ "" ∧
      d.parts = leadingParts first false ++ above.reverse.filterMap partOf? := by
  have hparent : p.parent =
      if (dropIdle (above ++ [first])).isEmpty then some ⟨if p.isAbsolute then "/" else ""⟩
      else some ⟨String.intercalate "/" (dropIdle (above ++ [first])).reverse⟩ := by
    rw [parent, reverse_segments hsegments, dropIdle_append,
      if_neg (by rw [hidle]; exact List.cons_ne_nil _ _), hidle]
    rfl
  have hslash (s : String) (hs : s ∈ first :: above.dropWhile isIdle) : '/' ∉ s.toList := by
    have hmem : s ∈ splitFrom [] p.text.toList := by
      show s ∈ p.segments
      rw [hsegments]
      rcases List.mem_cons.mp hs with rfl | hs
      · exact List.mem_cons_self
      · have hmem : s ∈ back.dropWhile isIdle :=
          hidle ▸ List.mem_cons_of_mem _ (List.dropWhile_subset isIdle hs)
        exact List.mem_cons_of_mem _ (List.mem_reverse.mpr (List.dropWhile_subset isIdle hmem))
    exact not_mem_of_mem_splitFrom List.not_mem_nil hmem
  rw [hparent, dropIdle_append, List.filterMap_reverse, ← filterMap_dropWhile_isIdle above,
    ← List.filterMap_reverse]
  by_cases hnames : above.dropWhile isIdle = []
  · rw [if_pos hnames, hnames]
    by_cases hempty : first = ""
    · -- the root: its spelling has no segment to be taken from
      have habsolute : p.isAbsolute = true := by
        refine (isAbsolute_iff_of_segments hsegments).mpr ⟨hempty, fun hnil => ?_⟩
        rw [List.reverse_eq_nil_iff.mp hnil] at hidle
        cases hidle
      refine ⟨⟨"/"⟩, ?_, by decide, ?_⟩
      · rw [if_pos (by simpa using hempty), habsolute]
        rfl
      · rw [hempty]
        exact parts_slash
    · refine ⟨⟨String.intercalate "/" [first]⟩, ?_,
        parts_spelled (fun s hs => hslash s (hnames ▸ hs)) (.inl hempty)⟩
      have hne : (first == "") = false := Bool.eq_false_iff.mpr fun h => hempty (eq_of_beq h)
      rw [hne]
      rfl
  · rw [if_neg hnames]
    refine ⟨_, ?_, parts_spelled hslash (.inr hnames)⟩
    rw [if_neg (by simp), List.reverse_append]
    rfl

end

/-- A path has no parent, or it has only one part, or its parent has all parts but the last. -/
theorem parent_cases (p : Path) :
    (p.parent = none ∧ (p.parts = [] ∨ p.parts = [.root])) ∨
      (∃ part, part ≠ .root ∧ p.parent = some ⟨""⟩ ∧ p.parts = [part]) ∨
        ∃ d part, p.parent = some d ∧ d.text ≠ "" ∧ d.parts ≠ [] ∧ p.parts = d.parts ++ [part] := by
  obtain ⟨first, rest, hsegments⟩ :
      ∃ first rest, p.segments = first :: rest := List.exists_cons_of_ne_nil (splitFrom_ne_nil [] _)
  -- a parent is found from the end: segments that are no part are passed over, and one that is one is dropped
  obtain ⟨back, rfl⟩ : ∃ back, rest = back.reverse := ⟨rest.reverse, rest.reverse_reverse.symm⟩
  have hparts := parts_of_segments hsegments
  rw [List.filterMap_reverse, ← filterMap_dropWhile_isIdle] at hparts
  cases hidle : back.dropWhile isIdle with
  | nil =>
    rw [hidle, List.filterMap_nil, List.reverse_nil, List.append_nil] at hparts
    -- only the first segment is a part: the root if it is empty
    by_cases hempty : first = ""
    · refine .inl ⟨?_, ?_⟩
      · rw [parent, reverse_segments hsegments, dropIdle_append, if_pos hidle, hempty]
        rfl
      · rw [hparts, hempty]
        cases back.reverse.isEmpty
        · exact .inr rfl
        · exact .inl rfl
    · obtain ⟨part, hpart, hleading⟩ := exists_leadingParts hempty
      refine .inr (.inl ⟨part, hpart, ?_, by rw [hparts, leadingParts_of_ne_empty hempty, hleading]⟩)
      have habsolute : p.isAbsolute = false :=
        Bool.eq_false_iff.mpr fun h => hempty ((isAbsolute_iff_of_segments hsegments).mp h).1
      rw [parent, reverse_segments hsegments, dropIdle_append, if_pos hidle,
        if_neg (by simpa using hempty), habsolute]
      rfl
  | cons segment above =>
    obtain ⟨d, hparent, htext, hd⟩ := exists_parent hsegments hidle
    obtain ⟨part, hpart⟩ : ∃ part, partOf? segment = some part := by
      have hhead := List.head?_dropWhile_not isIdle back
      rw [hidle] at hhead
      have hcounts : isIdle segment = false := hhead
      cases hpart : partOf? segment with
      | none =>
        rw [isIdle, hpart] at hcounts
        exact Bool.noConfusion hcounts
      | some part => exact ⟨part, rfl⟩
    have hmore : back.reverse.isEmpty = false := by
      cases back with
      | nil => cases hidle
      | cons _ _ => simp
    refine .inr (.inr ⟨d, part, hparent, htext, ?_, ?_⟩)
    · rw [hd]
      exact List.append_ne_nil_of_left_ne_nil (leadingParts_ne_nil first) _
    · rw [hparts, hidle, List.filterMap_cons_some hpart, List.reverse_cons, ← List.append_assoc,
        hmore, hd, List.filterMap_reverse]

/-- The directory of a path has all parts of the path but the last. A path of one part is in the
directory that all paths start from. -/
theorem parts_directory (p : Path) :
    p.directory.parts = if p.parts.dropLast = [] then [.here] else p.parts.dropLast := by
  obtain ⟨hnone, hparts⟩ | ⟨part, -, hparent, hparts⟩ | ⟨d, part, hparent, htext, hne, hparts⟩ := p.parent_cases
  · have hdrop : p.parts.dropLast = [] := by
      cases hparts with
      | inl h => rw [h, List.dropLast_nil]
      | inr h => rw [h, List.dropLast_singleton]
    rw [if_pos hdrop, directory, hnone]
    exact parts_dot
  · rw [hparts, List.dropLast_singleton, if_pos rfl, directory, hparent]
    exact parts_dot
  · rw [hparts, List.dropLast_concat, if_neg hne, directory, hparent]
    show (if d.text == "" then _ else d).parts = d.parts
    rw [if_neg (by simpa using htext)]

/-! ## What does not depend on the spelling -/

theorem same_directory {p q : Path} (h : p.same q = true) : p.directory.same q.directory = true := by
  rw [same_iff] at *
  rw [parts_directory, parts_directory, h]

theorem fileStem_eq_of_same {p q : Path} (h : p.same q = true) : p.fileStem = q.fileStem := by
  rw [fileStem, fileStem, fileName, fileName, (same_iff p q).mp h]

theorem same_symm {p q : Path} (h : p.same q = true) : q.same p = true :=
  (same_iff q p).mpr ((same_iff p q).mp h).symm

theorem same_comm (p q : Path) : p.same q = q.same p := by
  rw [Bool.eq_iff_iff]
  exact ⟨same_symm, same_symm⟩

theorem same_trans {p q r : Path} (hpq : p.same q = true) (hqr : q.same r = true) :
    p.same r = true := (same_iff p r).mpr (((same_iff p q).mp hpq).trans ((same_iff q r).mp hqr))

theorem find?_cons {α : Type} (p q : Path) (a : α) (table : List (Path × α)) :
    p.find? ((q, a) :: table) = if q.same p then some a else p.find? table := by
  rw [find?, find?, List.find?_cons]
  cases q.same p <;> rfl

theorem find?_eq_of_same {α : Type} {p q : Path} (h : p.same q = true) (table : List (Path × α)) :
    p.find? table = q.find? table := by
  unfold find? same
  rw [(same_iff p q).mp h]

end TemplateCompiler.Path
