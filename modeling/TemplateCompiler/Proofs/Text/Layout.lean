import TemplateCompiler.Proofs.Text.Runs
import TemplateCompiler.Text.Layout

/-!
# Literals in a layout

What a layout does inside of a text. A literal between backticks may span lines, and a layout takes these for
lines like all others: it indents each but the first, and empties blank ones (`unlines_layout`). So the literal
only keeps its lines if it has one, or if it is laid out at the left margin, has no blank lines that are not
empty, and no carriage returns to spare (`lines_reflow_eq_iff`).
-/

namespace TemplateCompiler.Text

/-! ## Trimming -/

theorem trimEndChars_append_cons (cs : List Char) {c : Char} (hc : isBlank c = false) (ds : List Char) :
    trimEndChars (cs ++ c :: ds) = cs ++ c :: trimEndChars ds := by
  unfold trimEndChars
  rw [List.reverse_append, List.reverse_cons, List.append_assoc, List.singleton_append,
    dropWhile_append_cons hc, List.reverse_append, List.reverse_cons, List.reverse_reverse, List.append_assoc]
  rfl

/-- The text without the blanks at its start. -/
def trimStart (s : String) : String := String.ofList (s.toList.dropWhile isBlank)

theorem trim_eq (s : String) : trim s = trimEnd (trimStart s) := by
  unfold trim trimChars trimEnd trimStart
  rw [String.toList_ofList]

theorem exists_eq_append_trim (s : String) : ∃ lead trail, s = lead ++ trim s ++ trail := by
  have hend (cs : List Char) : cs = trimEndChars cs ++ (cs.reverse.takeWhile isBlank).reverse := by
    rw [trimEndChars, ← List.reverse_append, List.takeWhile_append_dropWhile, List.reverse_reverse]
  refine ⟨String.ofList (s.toList.takeWhile isBlank),
    String.ofList ((s.toList.dropWhile isBlank).reverse.takeWhile isBlank).reverse, ?_⟩
  rw [← String.toList_inj, trim, trimChars]
  simp only [String.toList_append, String.toList_ofList, List.append_assoc]
  rw [← hend, List.takeWhile_append_dropWhile]

theorem toList_append_tick (s t : String) : (s ++ ("`" ++ t)).toList = s.toList ++ '\x60' :: t.toList := by
  rw [String.toList_append, String.toList_append]
  rfl

-- Blanks are trimmed in front of a backtick and behind it.
theorem trimStart_append_tick (s t : String) : trimStart (s ++ ("`" ++ t)) = trimStart s ++ ("`" ++ t) := by
  unfold trimStart
  rw [← String.toList_inj, String.toList_ofList, toList_append_tick, toList_append_tick, String.toList_ofList]
  exact dropWhile_append_cons (by decide) _

theorem trimEnd_append_tick (s t : String) : trimEnd (s ++ ("`" ++ t)) = s ++ ("`" ++ trimEnd t) := by
  unfold trimEnd
  rw [← String.toList_inj, String.toList_ofList, toList_append_tick, toList_append_tick, String.toList_ofList]
  exact trimEndChars_append_cons _ (by decide) _

/-- The text starts with a backtick and ends with another one. -/
def IsBackquoted (s : String) : Prop := ∃ body, s = "`" ++ (body ++ "`")

theorem IsBackquoted.trimEnd_append {literal : String} (h : IsBackquoted literal) (before after : String) :
    trimEnd (before ++ literal ++ after) = before ++ literal ++ trimEnd after := by
  obtain ⟨body, rfl⟩ := h
  have hassoc (after : String) :
      before ++ ("`" ++ (body ++ "`")) ++ after = before ++ "`" ++ body ++ ("`" ++ after) := by
    simp only [String.append_assoc]
  rw [hassoc, trimEnd_append_tick, ← hassoc]

theorem IsBackquoted.trim_append {literal : String} (h : IsBackquoted literal) (before after : String) :
    trim (before ++ literal ++ after) = trimStart before ++ literal ++ trimEnd after := by
  have hstart : trimStart (before ++ literal ++ after) = trimStart before ++ literal ++ after := by
    obtain ⟨body, rfl⟩ := h
    have hassoc (before : String) :
        before ++ ("`" ++ (body ++ "`")) ++ after = before ++ ("`" ++ (body ++ "`" ++ after)) := by
      simp only [String.append_assoc]
    rw [hassoc, trimStart_append_tick, ← hassoc]
  rw [trim_eq, hstart, h.trimEnd_append]

/-! ## Cutting texts into lines -/

/-- The lines that end in a text, where `line` holds what was read of the current one, in reverse. -/
def closedFrom (line : List Char) : List Char → List (List Char)
  | [] => []
  | c :: rest =>
    if c = '\n' then (dropReturn line).reverse :: closedFrom [] rest else closedFrom (c :: line) rest

/-- The line that is open at the end of a text, in reverse. -/
def openFrom (line : List Char) : List Char → List Char
  | [] => line
  | c :: rest => if c = '\n' then openFrom [] rest else openFrom (c :: line) rest

theorem linesFrom_append_eq (line cs ds : List Char) :
    linesFrom line (cs ++ ds) = closedFrom line cs ++ linesFrom (openFrom line cs) ds := by
  induction cs generalizing line with
  | nil => rfl
  | cons c cs ih =>
    rw [List.cons_append, linesFrom, closedFrom, openFrom]
    split
    · rw [ih, List.cons_append]
    · exact ih _

theorem linesFrom_append {l : List Char} (hl : '\n' ∉ l) (line rest : List Char) :
    linesFrom line (l ++ rest) = linesFrom (l.reverse ++ line) rest := by
  induction l generalizing line with
  | nil => rfl
  | cons c cs ih =>
    rw [List.mem_cons, not_or] at hl
    obtain ⟨hc, hcs⟩ := hl
    rw [List.cons_append, linesFrom, if_neg (Ne.symm hc), ih hcs, List.reverse_cons, List.append_assoc]
    rfl

theorem dropReturn_reverse {l : List Char} (hl : '\r' ∉ l) : dropReturn l.reverse = l.reverse := by
  unfold dropReturn
  split
  · rename_i line heq
    exact absurd (List.mem_reverse.mp (heq ▸ List.mem_cons_self)) hl
  · rfl

/-- The lines that end in a text. -/
def closedLines (s : String) : List String := (closedFrom [] s.toList).map String.ofList

/-- The line that is open at the end of a text. -/
def openLine (s : String) : String := String.ofList (openFrom [] s.toList).reverse

/-- Lines with something in front of the first of them. -/
def leadBy (line : String) : List String → List String
  | [] => [line]
  | first :: rest => (line ++ first) :: rest

theorem leadBy_leadBy (line line' : String) (ls : List String) :
    leadBy line (leadBy line' ls) = leadBy (line ++ line') ls := by
  cases ls with
  | nil => rfl
  | cons first rest => exact congrArg (· :: rest) (String.append_assoc ..).symm

theorem dropReturn_cons (c : Char) (line : List Char) :
    dropReturn (c :: line) = if c = '\r' then line else c :: line := by
  by_cases hc : c = '\r'
  · subst hc
    rfl
  · rw [if_neg hc]
    unfold dropReturn
    split
    · rename_i heq
      exact absurd (List.cons.inj heq).1 hc
    · rfl

-- A carriage return that is dropped stands right before its line feed.
theorem dropReturn_append {line rest : List Char} {c : Char} (hc : c ≠ '\r') :
    dropReturn (line ++ c :: rest) = dropReturn line ++ c :: rest := by
  cases line with
  | nil => exact (dropReturn_cons c rest).trans (if_neg hc)
  | cons d line =>
    rw [List.cons_append, dropReturn_cons, dropReturn_cons]
    split <;> rfl

theorem map_linesFrom_append {c : Char} (hc : c ≠ '\r') (before cs line : List Char) :
    (linesFrom (line ++ c :: before) cs).map String.ofList =
      leadBy (String.ofList (c :: before).reverse) ((linesFrom line cs).map String.ofList) := by
  induction cs generalizing line with
  | nil =>
    cases line with
    | nil => rfl
    | cons d line =>
      show [String.ofList (d :: line ++ c :: before).reverse] = [_ ++ String.ofList (d :: line).reverse]
      rw [List.reverse_append, String.ofList_append]
  | cons d cs ih =>
    rw [linesFrom, linesFrom]
    split
    · rw [dropReturn_append hc, List.reverse_append, List.map_cons, String.ofList_append]
      rfl
    · exact ih (d :: line)

/-! ## Backticks -/

/-- Lines are cut in the same way before and behind a backtick. -/
theorem lines_append_tick (s t : String) :
    lines (s ++ ("`" ++ t)) = closedLines s ++ leadBy (openLine s ++ "`") (lines t) := by
  unfold lines
  rw [toList_append_tick, linesFrom_append_eq, List.map_append]
  refine congrArg (closedLines s ++ ·) ?_
  rw [linesFrom, if_neg (by decide)]
  have hlead := map_linesFrom_append (c := '\x60') (by decide) (openFrom [] s.toList) t.toList []
  rw [List.nil_append] at hlead
  rw [hlead, List.reverse_cons, String.ofList_append]
  rfl

theorem lines_backquoted (body : String) :
    lines ("`" ++ (body ++ "`")) = leadBy "`" (closedLines body ++ [openLine body ++ "`"]) := by
  have hbody := lines_append_tick body ""
  have hall := lines_append_tick "" (body ++ "`")
  rw [String.empty_append] at hall
  rw [String.append_empty] at hbody
  rw [hall, hbody]
  rfl

/-! ## Laying out -/

theorem unlines_cons (line : String) (ls : List String) : unlines (line :: ls) = line ++ "\n" ++ unlines ls := by
  unfold unlines
  rw [List.map_cons, String.join_cons]

theorem unlines_append (a b : List String) : unlines (a ++ b) = unlines a ++ unlines b := by
  unfold unlines
  rw [List.map_append, String.join_append]

/-- A line in a layout. -/
def layoutLine (level : Nat) (line : String) : String := if isBlankText line then "" else indent level line

theorem isBlankText_append_tick (s t : String) : isBlankText (s ++ "`" ++ t) = false := by
  have htick : isBlankText "`" = false := by decide
  unfold isBlankText at htick ⊢
  rw [String.toList_append, String.toList_append, List.all_append, List.all_append, htick, Bool.and_false,
    Bool.false_and]

theorem indent_append (level : Nat) (s t : String) : indent level (s ++ t) = indent level s ++ t :=
  (String.append_assoc ..).symm

/-- What a layout makes of the text in front of a literal. -/
def front (level : Nat) (before : String) : String :=
  unlines ((closedLines before).map (layoutLine level)) ++ indent level (openLine before)

/-- What a layout makes of the text behind a literal. -/
def back (level : Nat) (after : String) : String :=
  match lines after with
  | [] => "\n"
  | first :: rest => first ++ "\n" ++ unlines (rest.map (layoutLine level))

/-- What a layout makes of a literal: its first line stays, all others are laid out. -/
def reflow (level : Nat) (literal : String) : String :=
  match lines literal with
  | [] => ""
  | first :: rest => String.intercalate "\n" (first :: rest.map (layoutLine level))

theorem unlines_leadBy_tick (level : Nat) (s t : String) :
    unlines ((leadBy (s ++ "`") (lines t)).map (layoutLine level)) = indent level (s ++ "`") ++ back level t := by
  unfold back
  cases lines t with
  | nil =>
    have hline : layoutLine level (s ++ "`") = indent level (s ++ "`") := by
      have hblank := isBlankText_append_tick s ""
      rw [String.append_empty] at hblank
      rw [layoutLine, hblank, if_neg Bool.false_ne_true]
    show unlines [layoutLine level (s ++ "`")] = _
    rw [hline, unlines_cons]
    exact String.append_empty
  | cons first rest =>
    have hline : layoutLine level (s ++ "`" ++ first) = indent level (s ++ "`" ++ first) := by
      rw [layoutLine, isBlankText_append_tick, if_neg Bool.false_ne_true]
    show unlines (layoutLine level (s ++ "`" ++ first) :: rest.map (layoutLine level)) = _
    rw [hline, unlines_cons, indent_append]
    simp only [String.append_assoc]

theorem intercalate_append_singleton (ls : List String) (last : String) :
    String.intercalate "\n" (ls ++ [last]) = unlines ls ++ last := by
  induction ls with
  | nil => exact String.intercalate_singleton
  | cons line ls ih =>
    rw [unlines_cons]
    cases ls with
    | nil =>
      show String.intercalate "\n" [line, last] = line ++ "\n" ++ unlines [] ++ last
      rw [String.intercalate_cons_cons, String.intercalate_singleton]
      exact congrArg (· ++ last) String.append_empty.symm
    | cons next rest =>
      show String.intercalate "\n" (line :: next :: (rest ++ [last])) = _
      rw [String.intercalate_cons_cons, ← List.cons_append, ih]
      simp only [String.append_assoc]

theorem layoutLine_tick (level : Nat) (s t : String) :
    layoutLine level (s ++ "`" ++ t) = indent level (s ++ "`" ++ t) := by
  rw [layoutLine, isBlankText_append_tick, if_neg Bool.false_ne_true]

section

variable (level : Nat) {body first : String} {rest : List String}

theorem reflow_of_line (h : closedLines body = []) :
    reflow level ("`" ++ (body ++ "`")) = "`" ++ (openLine body ++ "`") := by
  rw [reflow, lines_backquoted, h]
  exact String.intercalate_singleton

theorem reflow_of_lines (h : closedLines body = first :: rest) :
    reflow level ("`" ++ (body ++ "`")) =
      "`" ++ first ++ "\n" ++ unlines (rest.map (layoutLine level)) ++ indent level (openLine body ++ "`") := by
  have hlast : layoutLine level (openLine body ++ "`") = indent level (openLine body ++ "`") := by
    have hline := layoutLine_tick level (openLine body) ""
    rwa [String.append_empty] at hline
  rw [reflow, lines_backquoted, h]
  show String.intercalate "\n" (("`" ++ first) :: (rest ++ [openLine body ++ "`"]).map (layoutLine level)) = _
  rw [List.map_append, List.map_singleton, hlast, ← List.cons_append, intercalate_append_singleton,
    unlines_cons]

end

/-- A layout of a text with a literal: what stands in front of it, the literal and what stands behind are laid
out by themselves. -/
theorem unlines_layout (level : Nat) {before literal after : String} (h : IsBackquoted literal) :
    unlines (layout level (before ++ literal ++ after)) =
      front level before ++ reflow level literal ++ back level (trimEnd after) := by
  have hlayout (text : String) : layout level text = (lines (trimEnd text)).map (layoutLine level) := rfl
  rw [hlayout, h.trimEnd_append]
  obtain ⟨body, rfl⟩ := h
  have hassoc : before ++ ("`" ++ (body ++ "`")) ++ trimEnd after =
      before ++ ("`" ++ (body ++ ("`" ++ trimEnd after))) := by
    simp only [String.append_assoc]
  rw [hassoc, lines_append_tick, lines_append_tick, List.map_append, unlines_append, front]
  cases hbody : closedLines body with
  | nil =>
    rw [List.nil_append, leadBy_leadBy, ← String.append_assoc, unlines_leadBy_tick, reflow_of_line level hbody]
    simp only [indent_append, String.append_assoc]
  | cons first rest =>
    have hfirst :
        leadBy (openLine before ++ "`") (first :: rest ++ leadBy (openLine body ++ "`") (lines (trimEnd after))) =
          (openLine before ++ "`" ++ first) :: (rest ++ leadBy (openLine body ++ "`") (lines (trimEnd after))) := rfl
    rw [hfirst, List.map_cons, layoutLine_tick, unlines_cons, List.map_append, unlines_append,
      unlines_leadBy_tick, reflow_of_lines level hbody]
    simp only [indent_append, String.append_assoc]

/-! ## Lines of a literal that is laid out -/

theorem closedFrom_of_not_mem {cs : List Char} (h : '\n' ∉ cs) (line : List Char) :
    closedFrom line cs = [] ∧ openFrom line cs = cs.reverse ++ line := by
  induction cs generalizing line with
  | nil => exact ⟨rfl, rfl⟩
  | cons c cs ih =>
    rw [List.mem_cons, not_or] at h
    rw [closedFrom, openFrom, if_neg (Ne.symm h.1), if_neg (Ne.symm h.1), List.reverse_cons, List.append_assoc]
    exact ih h.2 (c :: line)

theorem closedLines_of_not_mem {s : String} (h : '\n' ∉ s.toList) : closedLines s = [] ∧ openLine s = s := by
  obtain ⟨hclosed, hopen⟩ := closedFrom_of_not_mem h []
  refine ⟨congrArg (List.map String.ofList) hclosed, ?_⟩
  rw [openLine, hopen, List.append_nil, List.reverse_reverse, String.ofList_toList]

theorem not_mem_of_closedLines {s : String} (h : closedLines s = []) : '\n' ∉ s.toList := by
  have hfrom (cs : List Char) (line : List Char) (hnil : closedFrom line cs = []) : '\n' ∉ cs := by
    induction cs generalizing line with
    | nil => exact List.not_mem_nil
    | cons c cs ih =>
      rw [closedFrom] at hnil
      split at hnil
      · cases hnil
      · exact List.not_mem_cons_of_ne_of_not_mem (Ne.symm ‹_›) (ih _ hnil)
  exact hfrom _ [] (List.map_eq_nil_iff.mp h)

/-- The line without a carriage return at its end. -/
def dropLastReturn (line : String) : String := String.ofList (dropReturn line.toList.reverse).reverse

theorem dropLastReturn_eq_self_iff (line : String) :
    dropLastReturn line = line ↔ line.toList.getLast? ≠ some '\r' := by
  rw [dropLastReturn, ← String.toList_inj, String.toList_ofList, List.reverse_eq_iff, ← List.head?_reverse]
  cases line.toList.reverse with
  | nil => exact iff_of_true rfl (by simp)
  | cons c cs =>
    rw [dropReturn_cons, List.head?_cons]
    split
    · exact iff_of_false (fun h => absurd (congrArg List.length h) (by simp)) (by simpa)
    · exact iff_of_true rfl (by simpa)

/-- Each line loses a carriage return at its end when it is read again. -/
theorem lines_unlines_append {ls : List String} (h : ∀ line ∈ ls, '\n' ∉ line.toList) (s : String) :
    lines (unlines ls ++ s) = ls.map dropLastReturn ++ lines s := by
  induction ls with
  | nil => exact congrArg lines String.empty_append
  | cons line ls ih =>
    have hrest := ih fun l hl => h l (List.mem_cons_of_mem line hl)
    have hchars : (unlines (line :: ls) ++ s).toList = line.toList ++ '\n' :: (unlines ls ++ s).toList := by
      rw [unlines_cons]
      simp
    unfold lines at hrest ⊢
    rw [hchars, linesFrom_append (h line List.mem_cons_self), List.append_nil, linesFrom, if_pos rfl,
      List.map_cons, hrest]
    rfl

theorem indent_eq_self_iff (level : Nat) (s : String) : indent level s = s ↔ level = 0 := by
  constructor
  · intro h
    have hlength := congrArg (List.length ∘ String.toList) h
    simp only [Function.comp_apply, indent, String.toList_append, String.toList_ofList, List.length_append,
      List.length_replicate] at hlength
    omega
  · rintro rfl
    exact indent_zero s

theorem not_mem_indent (level : Nat) {s : String} (h : '\n' ∉ s.toList) : '\n' ∉ (indent level s).toList := by
  simpa [indent] using h

theorem not_mem_layoutLine {level : Nat} {line : String} (h : '\n' ∉ line.toList) :
    '\n' ∉ (layoutLine level line).toList := by
  unfold layoutLine
  split
  · exact List.not_mem_nil
  · exact not_mem_indent level h

-- At the left margin a line only loses blanks that are all it has, and a carriage return at its end.
theorem dropLastReturn_layoutLine_zero (line : String) :
    dropLastReturn (layoutLine 0 line) = line ↔
      line.toList.getLast? ≠ some '\r' ∧ (isBlankText line = true → line = "") := by
  unfold layoutLine
  rw [indent_zero]
  split
  · rename_i hblank
    show "" = line ↔ _
    constructor
    · rintro rfl
      exact ⟨by decide, fun _ => rfl⟩
    · exact fun h => (h.2 hblank).symm
  · rename_i hblank
    rw [dropLastReturn_eq_self_iff]
    exact (and_iff_left fun h => absurd h hblank).symm

section

variable {level : Nat} {body first : String} {rest : List String}

theorem lines_backquoted_of_lines (h : closedLines body = first :: rest) :
    lines ("`" ++ (body ++ "`")) = ("`" ++ first) :: rest ++ [openLine body ++ "`"] := by
  rw [lines_backquoted, h]
  rfl

theorem lines_reflow (h : closedLines body = first :: rest) :
    lines (reflow level ("`" ++ (body ++ "`"))) =
      dropLastReturn ("`" ++ first) :: rest.map (fun line => dropLastReturn (layoutLine level line)) ++
        [indent level (openLine body ++ "`")] := by
  have hfree : ∀ line ∈ ("`" ++ first) :: rest ++ [openLine body ++ "`"], '\n' ∉ line.toList := by
    rw [← lines_backquoted_of_lines h]
    exact fun line hline => not_mem_of_mem_lines hline
  have hlast : lines (indent level (openLine body ++ "`")) = [indent level (openLine body ++ "`")] := by
    have hopen : '\n' ∉ (openLine body).toList := by
      have htick := hfree _ (List.mem_append_right _ List.mem_cons_self)
      rw [String.toList_append, List.mem_append, not_or] at htick
      exact htick.1
    obtain ⟨hclosed, hself⟩ := closedLines_of_not_mem (not_mem_indent level hopen)
    have htick := lines_append_tick (indent level (openLine body)) ""
    rwa [hclosed, hself, String.append_empty, ← indent_append] at htick
  have hfront : ∀ line ∈ ("`" ++ first) :: rest.map (layoutLine level), '\n' ∉ line.toList := by
    rw [List.forall_mem_cons, List.forall_mem_map]
    refine ⟨hfree _ List.mem_cons_self, fun line hline => not_mem_layoutLine (hfree line ?_)⟩
    exact List.mem_cons_of_mem _ (List.mem_append_left _ hline)
  rw [reflow_of_lines level h, ← unlines_cons, lines_unlines_append hfront, hlast, List.map_cons, List.map_map]
  rfl

end

/-- Nothing is lost when the lines of a literal are laid out: it stands at the left margin, its blank lines are
empty, and none but the last ends with a carriage return. -/
def IsLaidOut (level : Nat) (literal : String) : Prop :=
  level = 0 ∧ ∀ line ∈ (lines literal).dropLast,
    line.toList.getLast? ≠ some '\r' ∧ (isBlankText line = true → line = "")

/-- A literal has the same lines as before exactly if it has one line, or nothing is lost. -/
theorem lines_reflow_eq_iff (level : Nat) {literal : String} (h : IsBackquoted literal) :
    lines (reflow level literal) = lines literal ↔ '\n' ∉ literal.toList ∨ IsLaidOut level literal := by
  obtain ⟨body, rfl⟩ := h
  cases hbody : closedLines body with
  | nil =>
    have hnone := not_mem_of_closedLines hbody
    rw [reflow_of_line level hbody, (closedLines_of_not_mem hnone).2]
    exact iff_of_true rfl (.inl (by simpa using hnone))
  | cons first rest =>
    have hmem : ¬ '\n' ∉ ("`" ++ (body ++ "`")).toList := fun hnone => by
      have hnil := (closedLines_of_not_mem (s := body) (by simpa using hnone)).1
      rw [hbody] at hnil
      cases hnil
    have hfirst : isBlankText ("`" ++ first) = false := by
      have htick := isBlankText_append_tick "" first
      rwa [String.empty_append] at htick
    rw [lines_reflow hbody, or_iff_right hmem, IsLaidOut, lines_backquoted_of_lines hbody, List.dropLast_concat,
      List.forall_mem_cons]
    have hmap : rest.map (fun line => dropLastReturn (layoutLine 0 line)) = rest ↔
        ∀ line ∈ rest, dropLastReturn (layoutLine 0 line) = line := by
      simpa using List.map_inj_left (l := rest) (f := fun line => dropLastReturn (layoutLine 0 line)) (g := id)
    simp only [dropLastReturn_layoutLine_zero] at hmap
    constructor
    · intro heq
      obtain ⟨hfront, hlast⟩ := List.append_inj' heq rfl
      obtain ⟨hhead, hrest⟩ := List.cons.inj hfront
      obtain rfl := (indent_eq_self_iff level _).mp (List.cons.inj hlast).1
      refine ⟨rfl, ⟨(dropLastReturn_eq_self_iff _).mp hhead, fun hblank => ?_⟩, hmap.mp hrest⟩
      rw [hfirst] at hblank
      cases hblank
    · rintro ⟨rfl, hhead, hrest⟩
      rw [hmap.mpr hrest, (dropLastReturn_eq_self_iff _).mpr hhead.1, indent_zero]

end TemplateCompiler.Text
