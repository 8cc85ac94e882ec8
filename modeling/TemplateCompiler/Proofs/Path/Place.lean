import TemplateCompiler.Path.Request
import TemplateCompiler.Proofs.Path.Spelling
import TemplateCompiler.Registry.Directory

/-!
# Where paths lead

The place that the parts of a path lead to, one after the other. Steps up take back the names in front of them
(`Place.follow_back`), and a relative path that is followed from the directory it is in leads to the same place
as before only from a directory with as many names as steps up (`Place.after_eq_iff`).
-/

namespace TemplateCompiler

open Path (Part)

/-- A place as seen from where paths start: at the root or some steps up, and below that the names, the last one
first. -/
structure Place where
  fromRoot : Bool
  ups : Nat
  names : List String
deriving DecidableEq, Repr

namespace Place

/-- Where paths start. -/
def start : Place := ⟨false, 0, []⟩

/-- The place that a part leads to. Nothing is above the root. -/
def enter (l : Place) : Part → Place
  | .root => ⟨true, 0, []⟩
  | .here => l
  | .up =>
    match l.names with
    | _ :: names => { l with names }
    | [] => if l.fromRoot then l else { l with ups := l.ups + 1 }
  | .name text => { l with names := text :: l.names }

/-- The place that parts lead to. -/
def follow (l : Place) (ps : List Part) : Place := ps.foldl enter l

theorem follow_append (l : Place) (ps qs : List Part) : l.follow (ps ++ qs) = (l.follow ps).follow qs :=
  List.foldl_append

theorem follow_steps (l : Place) (p : Path) : l.follow p.steps = l.follow p.parts := by
  show (p.parts.filter (· != .here)).foldl enter l = p.parts.foldl enter l
  induction p.parts generalizing l with
  | nil => rfl
  | cons part ps ih => cases part <;> exact ih _

theorem follow_names (l : Place) (names : List String) :
    l.follow (names.map .name) = { l with names := names.reverse ++ l.names } := by
  induction names generalizing l with
  | nil => rfl
  | cons name names ih =>
    show (l.enter (.name name)).follow (names.map .name) = _
    rw [ih]
    simp [enter]

theorem follow_ups (l : Place) (names : List String) :
    { l with names := names ++ l.names }.follow (List.replicate names.length .up) = l := by
  induction names with
  | nil => rfl
  | cons name names ih => exact ih

/-- As many steps up as names lead back. -/
theorem follow_back (l : Place) (names : List String) :
    (l.follow (names.map .name)).follow (List.replicate names.length .up) = l := by
  rw [follow_names, ← List.length_reverse, follow_ups]

theorem ups_follow {l : Place} (hl : l.ups = 0) {ps : List Part} (h : Part.up ∉ ps) : (l.follow ps).ups = 0 := by
  induction ps generalizing l with
  | nil => exact hl
  | cons part ps ih =>
    rw [List.mem_cons, not_or] at h
    refine ih ?_ h.2
    cases part with
    | root => rfl
    | here => exact hl
    | up => exact absurd rfl h.1
    | name text => exact hl

/-! ## Relative places -/

/-- A relative place as seen from another one. -/
def after (l m : Place) : Place :=
  ⟨false, l.ups + (m.ups - l.names.length), m.names ++ l.names.drop m.ups⟩

theorem after_start {l : Place} (h : l.fromRoot = false) : l.after start = l := by
  cases l
  cases h
  simp [after, start]

theorem after_enter (l : Place) {m : Place} (h : m.fromRoot = false) {part : Part} (hpart : part ≠ .root) :
    (l.after m).enter part = l.after (m.enter part) := by
  obtain ⟨fromRoot, ups, names⟩ := m
  cases h
  cases part with
  | root => exact absurd rfl hpart
  | here => rfl
  | name text => rfl
  | up =>
    cases names with
    | cons name names => rfl
    | nil =>
      by_cases hups : ups < l.names.length
      · -- a name is left to be taken back
        have hdrop : l.names.drop ups = l.names[ups] :: l.names.drop (ups + 1) := List.drop_eq_getElem_cons hups
        have hzero : ups - l.names.length = 0 := by omega
        have hzero' : ups + 1 - l.names.length = 0 := by omega
        simp only [after, enter, List.nil_append, hdrop, hzero, hzero', Bool.false_eq_true, if_false]
      · have hnil : l.names.drop ups = [] := List.drop_eq_nil_of_le (by omega)
        have hnil' : l.names.drop (ups + 1) = [] := List.drop_eq_nil_of_le (by omega)
        have hsucc : ups + 1 - l.names.length = ups - l.names.length + 1 := by omega
        simp [after, enter, hnil, hnil', hsucc, Nat.add_assoc]

theorem fromRoot_enter {l : Place} {part : Part} (hpart : part ≠ .root) : (l.enter part).fromRoot = l.fromRoot := by
  cases part with
  | root => exact absurd rfl hpart
  | here => rfl
  | name text => rfl
  | up =>
    unfold enter
    cases l.names with
    | cons name names => rfl
    | nil => cases h : l.fromRoot <;> simp [h]

theorem fromRoot_follow {l : Place} {ps : List Part} (h : ∀ part ∈ ps, part ≠ .root) :
    (l.follow ps).fromRoot = l.fromRoot := by
  induction ps generalizing l with
  | nil => rfl
  | cons part ps ih =>
    rw [List.forall_mem_cons] at h
    exact (ih h.2).trans (fromRoot_enter h.1)

/-- Parts lead from a place to their own place as seen from there. -/
theorem follow_eq_after {l : Place} (hl : l.fromRoot = false) {ps : List Part}
    (h : ∀ part ∈ ps, part ≠ .root) : l.follow ps = l.after (start.follow ps) := by
  have hfollow (m : Place) (hm : m.fromRoot = false) : (l.after m).follow ps = l.after (m.follow ps) := by
    induction ps generalizing m with
    | nil => rfl
    | cons part ps ih =>
      rw [List.forall_mem_cons] at h
      show ((l.after m).enter part).follow ps = l.after ((m.enter part).follow ps)
      rw [after_enter l hm h.1]
      exact ih h.2 (m.enter part) ((fromRoot_enter h.1).trans hm)
  have hstart := hfollow start rfl
  rwa [after_start hl] at hstart

/-- From where a relative place is the same as before. -/
theorem after_eq_iff (l : Place) {m : Place} (hm : m.fromRoot = false) :
    l.after m = m ↔ l.names.length = l.ups ∧ l.ups ≤ m.ups := by
  obtain ⟨fromRoot, ups, names⟩ := m
  cases hm
  constructor
  · intro h
    have hups : l.ups + (ups - l.names.length) = ups := congrArg Place.ups h
    have hnames : names ++ l.names.drop ups = names := congrArg Place.names h
    have hlength : l.names.length ≤ ups := List.drop_eq_nil_iff.mp (List.append_right_eq_self.mp hnames)
    show l.names.length = l.ups ∧ l.ups ≤ ups
    omega
  · rintro ⟨hlength, hle⟩
    have hle : l.ups ≤ ups := hle
    have hdrop : l.names.drop ups = [] := List.drop_eq_nil_of_le (by omega)
    have hups : l.ups + (ups - l.names.length) = ups := by omega
    simp [after, hdrop, hups]

end Place

namespace Path

/-- The place that a path leads to. -/
def place (p : Path) : Place := Place.start.follow p.parts

theorem place_eq_follow_steps (p : Path) : p.place = Place.start.follow p.steps := (Place.follow_steps _ p).symm

/-! ## Steps -/

/-- A part is written as a segment that counts. -/
def Part.IsSegment (part : Part) : Prop := '/' ∉ part.text.toList ∧ partOf? part.text = some part

theorem text_of_partOf? {segment : String} {part : Part} (h : partOf? segment = some part) :
    part.text = segment := by
  unfold partOf? at h
  split at h
  · cases h
  split at h
  · rename_i hup
    cases h
    exact (eq_of_beq hup).symm
  · cases h
    rfl

theorem ne_root_of_isSegment {part : Part} (h : part.IsSegment) : part ≠ .root := by
  rintro rfl
  exact h.1 (List.mem_singleton.mpr rfl)

theorem ne_here_of_isSegment {part : Part} (h : part.IsSegment) : part ≠ .here := by
  rintro rfl
  exact absurd h.2 (by decide)

theorem isSegment_up : Part.up.IsSegment := ⟨by decide, by decide⟩

/-- The parts of a path that are written as segments. -/
def inner (p : Path) : List Part := p.segments.filterMap partOf?

theorem isSegment_of_mem_inner {p : Path} {part : Part} (h : part ∈ p.inner) : part.IsSegment := by
  obtain ⟨segment, hsegment, hpart⟩ := List.mem_filterMap.mp h
  have htext := text_of_partOf? hpart
  refine ⟨?_, ?_⟩
  · rw [htext]
    exact not_mem_of_mem_splitFrom List.not_mem_nil hsegment
  · rw [htext, hpart]

theorem filter_ne_here {ps : List Part} (h : ∀ part ∈ ps, part.IsSegment) : ps.filter (· != .here) = ps := by
  refine List.filter_eq_self.mpr fun part hmem => ?_
  simpa using ne_here_of_isSegment (h part hmem)

-- Only the root and a leading dot are parts that no segment behind the first one stands for.
theorem parts_eq (p : Path) :
    p.parts = (if p.isAbsolute then [.root] else if p.segments.head? = some "." then [.here] else []) ++ p.inner := by
  obtain ⟨first, rest, hsegments⟩ := List.exists_cons_of_ne_nil (splitFrom_ne_nil [] p.text.toList)
  have hsegments : p.segments = first :: rest := hsegments
  rw [inner, parts, hsegments]
  by_cases habsolute : p.isAbsolute = true
  · have hfirst : first = "" := ((isAbsolute_iff_of_segments hsegments).mp habsolute).1
    simp [habsolute, hfirst, partOf?]
  · by_cases hdot : first = "."
    · simp [habsolute, hdot, partOf?]
    · have hne : ¬(first == ".") = true := fun h => hdot (eq_of_beq h)
      have hhead : ¬(first :: rest).head? = some "." := fun h => hdot (Option.some.inj h)
      simp only [habsolute, hne, hhead]
      cases hpart : partOf? first <;> simp [hpart]

theorem steps_eq (p : Path) : p.steps = (if p.isAbsolute then [.root] else []) ++ p.inner := by
  have hinner : p.inner.filter (· != .here) = p.inner :=
    filter_ne_here fun part h => isSegment_of_mem_inner h
  rw [steps, parts_eq, List.filter_append, hinner]
  split
  · rfl
  · split <;> rfl

theorem isSegment_of_mem_steps {p : Path} {part : Part} (h : part ∈ p.steps) (hpart : part ≠ .root) :
    part.IsSegment := by
  rw [steps_eq, List.mem_append] at h
  rcases h with h | h
  · split at h
    · exact absurd (List.mem_singleton.mp h) hpart
    · cases h
  · exact isSegment_of_mem_inner h

theorem steps_of_not_isAbsolute {p : Path} (h : p.isAbsolute = false) : p.steps = p.inner := by
  rw [steps_eq, h]
  rfl

/-- A path that is spelled part by part. -/
theorem segments_spelled {ps : List Part} (h : ∀ part ∈ ps, part.IsSegment) (hne : ps ≠ []) :
    (Path.mk (String.intercalate "/" (ps.map Part.text))).segments = ps.map Part.text := by
  obtain ⟨part, ps, rfl⟩ := List.exists_cons_of_ne_nil hne
  refine segments_intercalate fun s hs => ?_
  obtain ⟨q, hq, rfl⟩ := List.mem_map.mp ((List.map_cons ▸ hs : s ∈ (part :: ps).map Part.text))
  exact (h q hq).1

theorem inner_spelled {ps : List Part} (h : ∀ part ∈ ps, part.IsSegment) :
    (Path.mk (String.intercalate "/" (ps.map Part.text))).inner = ps := by
  have hfilter : (ps.map Part.text).filterMap partOf? = ps := by
    induction ps with
    | nil => rfl
    | cons part ps ih =>
      rw [List.forall_mem_cons] at h
      rw [List.map_cons, List.filterMap_cons_some h.1.2, ih h.2]
  by_cases hne : ps = []
  · rw [hne]
    decide
  · rw [inner, segments_spelled h hne, hfilter]

theorem isAbsolute_iff_root_mem (p : Path) : p.isAbsolute = true ↔ Part.root ∈ p.parts := by
  have hinner : Part.root ∉ p.inner := fun h => ne_root_of_isSegment (isSegment_of_mem_inner h) rfl
  rw [parts_eq]
  by_cases habsolute : p.isAbsolute = true
  · simp [habsolute]
  · simp only [habsolute, Bool.false_eq_true, if_false, false_iff]
    split <;> simp [hinner]

/-! ## Paths below others -/

-- What is behind a slash is split on its own.
theorem splitFrom_append_slash (segment cs rest : List Char) :
    splitFrom segment (cs ++ '/' :: rest) = splitFrom segment cs ++ splitFrom [] rest := by
  induction cs generalizing segment with
  | nil => rfl
  | cons c cs ih =>
    rw [List.cons_append, splitFrom, splitFrom]
    split
    · rw [ih, List.cons_append]
    · exact ih _

theorem segments_append_slash (a b : String) :
    (Path.mk (a ++ "/" ++ b)).segments = (Path.mk a).segments ++ (Path.mk b).segments := by
  have htext : (a ++ "/" ++ b).toList = a.toList ++ '/' :: b.toList := by simp
  rw [segments, htext]
  exact splitFrom_append_slash [] a.toList b.toList

section

variable {p q : Path}

-- A slash at the end of the path above is not repeated.
theorem join_eq (hp : p.text ≠ "") (hq : q.isAbsolute = false) :
    p.join q =
      if p.text.toList.getLast? = some '/' then ⟨p.text ++ q.text⟩ else ⟨p.text ++ "/" ++ q.text⟩ := by
  simp [join, hq, hp]

theorem exists_segments_join (hp : p.text ≠ "") (hq : q.isAbsolute = false) :
    ∃ front back : List String, front ≠ [] ∧ p.segments = front ++ back ∧ back.filterMap partOf? = [] ∧
      (p.join q).segments = front ++ q.segments := by
  rw [join_eq hp hq]
  by_cases hlast : p.text.toList.getLast? = some '/'
  · obtain ⟨cs, hcs⟩ := List.getLast?_eq_some_iff.mp hlast
    have htext : p.text = String.ofList cs ++ "/" := String.toList_inj.mp (by simp [hcs])
    have hsegments : p.segments = (Path.mk (String.ofList cs)).segments ++ [""] := by
      have hend := segments_append_slash (String.ofList cs) ""
      rw [String.append_empty, ← htext] at hend
      rw [hend]
      simp [segments, splitFrom]
    refine ⟨_, [""], splitFrom_ne_nil _ _, hsegments, rfl, ?_⟩
    rw [if_pos hlast, htext]
    exact segments_append_slash _ _
  · refine ⟨_, [], splitFrom_ne_nil _ _, (List.append_nil p.segments).symm, rfl, ?_⟩
    rw [if_neg hlast]
    exact segments_append_slash _ _

-- The empty path stands for the directory that paths start from.
theorem join_of_text_eq (hp : p.text = "") : p.join q = q := by simp [join, hp]

theorem isAbsolute_join (hq : q.isAbsolute = false) : (p.join q).isAbsolute = p.isAbsolute := by
  by_cases hp : p.text = ""
  · rw [join_of_text_eq hp, hq]
    simp [isAbsolute, hp]
  obtain ⟨c, cs, hcs⟩ : ∃ c cs, p.text.toList = c :: cs :=
    List.exists_cons_of_ne_nil fun h => hp (String.toList_eq_nil_iff.mp h)
  rw [join_eq hp hq]
  split <;> simp [isAbsolute, hcs]

/-- A relative path below another one adds its parts, except for a leading dot. -/
theorem parts_join (hp : p.text ≠ "") (hq : q.isAbsolute = false) : (p.join q).parts = p.parts ++ q.inner := by
  obtain ⟨front, back, hfront, hsegments, hback, hjoin⟩ := exists_segments_join hp hq
  obtain ⟨first, rest, rfl⟩ := List.exists_cons_of_ne_nil hfront
  rw [parts_eq, parts_eq, isAbsolute_join hq, hjoin, inner, hjoin, inner, hsegments, inner,
    List.filterMap_append, List.filterMap_append, hback, List.append_nil, List.append_assoc]
  rfl

theorem parts_of_text_eq (hp : p.text = "") : p.parts = [] := by
  obtain ⟨text⟩ := p
  cases hp
  decide

theorem steps_join (hq : q.isAbsolute = false) : (p.join q).steps = p.steps ++ q.steps := by
  by_cases hp : p.text = ""
  · rw [join_of_text_eq hp, steps, steps, parts_of_text_eq hp]
    rfl
  · rw [steps, parts_join hp hq, List.filter_append, steps_of_not_isAbsolute hq,
      filter_ne_here fun part => isSegment_of_mem_inner]
    rfl

theorem place_join (hq : q.isAbsolute = false) : (p.join q).place = p.place.follow q.steps := by
  rw [place_eq_follow_steps, place_eq_follow_steps, steps_join hq, Place.follow_append]

end

/-! ## Directories -/

section

variable {p d : Path}

theorem isAbsolute_iff_root_mem_steps : p.isAbsolute = true ↔ Part.root ∈ p.steps := by
  rw [isAbsolute_iff_root_mem, steps, List.mem_filter]
  simp

-- What is behind the first part counts.
theorem isSegment_of_mem_tail {part : Part} (h : part ∈ p.parts.tail) : part.IsSegment := by
  apply isSegment_of_mem_inner (p := p)
  rw [parts_eq] at h
  split at h
  · exact h
  · split at h
    · exact h
    · exact List.mem_of_mem_tail h

theorem isSegment_last {ps : List Part} {part : Part} (h : p.parts = ps ++ [part]) (hne : ps ≠ []) :
    part.IsSegment := by
  obtain ⟨first, ps, rfl⟩ := List.exists_cons_of_ne_nil hne
  refine isSegment_of_mem_tail (p := p) ?_
  rw [h, List.cons_append, List.tail_cons]
  exact List.mem_append_right _ List.mem_cons_self

theorem steps_of_parent (h : p.parent = some d) : d.steps = p.steps.dropLast := by
  obtain ⟨hnone, -⟩ | ⟨part, -, hparent, hparts⟩ | ⟨e, part, hparent, -, hne, hparts⟩ := p.parent_cases
  · rw [hnone] at h
    cases h
  · rw [hparent] at h
    cases h
    rw [steps, steps, hparts, parts_of_text_eq rfl, List.filter_cons]
    split <;> rfl
  · rw [hparent] at h
    cases h
    have hpart := filter_ne_here (List.forall_mem_singleton.mpr (isSegment_last hparts hne))
    rw [steps, steps, hparts, List.filter_append, hpart, List.dropLast_concat]

theorem isAbsolute_of_parent (h : p.parent = some d) : d.isAbsolute = p.isAbsolute := by
  rw [Bool.eq_iff_iff, isAbsolute_iff_root_mem, isAbsolute_iff_root_mem]
  obtain ⟨hnone, -⟩ | ⟨part, hpart, hparent, hparts⟩ | ⟨e, part, hparent, -, hne, hparts⟩ := p.parent_cases
  · rw [hnone] at h
    cases h
  · rw [hparent] at h
    cases h
    simp [hparts, parts_of_text_eq, Ne.symm hpart]
  · rw [hparent] at h
    cases h
    have hpart := ne_root_of_isSegment (isSegment_last hparts hne)
    simp [hparts, Ne.symm hpart]

theorem steps_directory (p : Path) : p.directory.steps = p.steps.dropLast := by
  have hdot : (Path.mk ".").steps = [] := by decide
  unfold directory
  cases hparent : p.parent with
  | none =>
    obtain ⟨-, hparts⟩ | ⟨part, -, h, -⟩ | ⟨d, part, h, -⟩ := p.parent_cases
    · cases hparts with
      | inl h => rw [hdot, steps, h]; rfl
      | inr h => rw [hdot, steps, h]; rfl
    · rw [hparent] at h
      cases h
    · rw [hparent] at h
      cases h
  | some d =>
    rw [← steps_of_parent hparent]
    dsimp only
    split
    · rename_i hempty
      rw [hdot, steps, parts_of_text_eq (eq_of_beq hempty)]
      rfl
    · rfl

theorem isAbsolute_directory (h : p.isAbsolute = false) : p.directory.isAbsolute = false := by
  unfold directory
  cases hparent : p.parent with
  | none => decide
  | some d =>
    dsimp only
    split
    · decide
    · rw [isAbsolute_of_parent hparent, h]

theorem exists_parent_of_fileName {name : String} (h : p.fileName = some name) :
    ∃ d, p.parent = some d ∧ p.steps = d.steps ++ [.name name] := by
  have hlast : p.parts.getLast? = some (.name name) := by
    unfold fileName at h
    split at h
    · rename_i text htext
      cases h
      exact htext
    · cases h
  obtain ⟨front, hparts⟩ := List.getLast?_eq_some_iff.mp hlast
  have hsteps : p.steps = front.filter (· != .here) ++ [.name name] := by
    rw [steps, hparts, List.filter_append]
    rfl
  obtain ⟨d, hparent⟩ : ∃ d, p.parent = some d := by
    obtain ⟨-, hparts⟩ | ⟨part, -, hparent, -⟩ | ⟨d, part, hparent, -⟩ := p.parent_cases
    · cases hparts with
      | inl h => rw [h] at hlast; cases hlast
      | inr h => rw [h] at hlast; cases hlast
    · exact ⟨_, hparent⟩
    · exact ⟨d, hparent⟩
  refine ⟨d, hparent, ?_⟩
  rw [steps_of_parent hparent, hsteps, List.dropLast_concat]

theorem length_splitFrom_le (segment cs : List Char) : (splitFrom segment cs).length ≤ cs.length + 1 := by
  induction cs generalizing segment with
  | nil => exact Nat.le_refl _
  | cons c cs ih =>
    rw [splitFrom]
    split
    · exact Nat.succ_le_succ (ih [])
    · exact Nat.le_succ_of_le (ih _)

theorem length_steps_le (p : Path) : p.steps.length ≤ p.text.length + 1 := by
  have hlength : p.segments.length ≤ p.text.length + 1 := by
    rw [← String.length_toList]
    exact length_splitFrom_le [] p.text.toList
  have hinner : p.inner.length ≤ p.segments.length := List.length_filterMap_le _ _
  rw [steps_eq]
  split
  · -- the empty segment in front of the first slash does not count
    rename_i habsolute
    obtain ⟨first, rest, hsegments⟩ := List.exists_cons_of_ne_nil (splitFrom_ne_nil [] p.text.toList)
    have hsegments : p.segments = first :: rest := hsegments
    have hfirst : first = "" := ((isAbsolute_iff_of_segments hsegments).mp habsolute).1
    have hrest : p.inner.length ≤ rest.length := by
      rw [inner, hsegments, hfirst]
      exact List.length_filterMap_le partOf? rest
    rw [hsegments, List.length_cons] at hlength
    rw [List.singleton_append, List.length_cons]
    omega
  · rw [List.nil_append]
    omega

/-- What has a parent: all paths with a step, except for the root. -/
theorem exists_parent_of_steps (hne : p.steps ≠ []) (hroot : p.steps ≠ [.root]) : ∃ d, p.parent = some d := by
  obtain ⟨-, hparts⟩ | ⟨part, -, hparent, -⟩ | ⟨d, part, hparent, -⟩ := p.parent_cases
  · cases hparts with
    | inl h => exact absurd (by rw [steps, h]; rfl) hne
    | inr h => exact absurd (by rw [steps, h]; rfl) hroot
  · exact ⟨_, hparent⟩
  · exact ⟨d, hparent⟩

/-! ## Directories above a path -/

theorem mem_ancestorsFrom {n : Nat} (h : d ∈ p.ancestorsFrom n) :
    d.steps <+: p.steps.dropLast ∧ d.isAbsolute = p.isAbsolute := by
  induction n generalizing p with
  | zero => cases h
  | succ n ih =>
    rw [ancestorsFrom] at h
    cases hparent : p.parent with
    | none =>
      rw [hparent] at h
      cases h
    | some e =>
      rw [hparent] at h
      have hsteps := steps_of_parent hparent
      have habsolute := isAbsolute_of_parent hparent
      rcases List.mem_cons.mp h with rfl | h
      · exact ⟨hsteps ▸ List.prefix_rfl, habsolute⟩
      · obtain ⟨hd, hd'⟩ := ih h
        exact ⟨hd.trans ((List.dropLast_prefix _).trans (hsteps ▸ List.prefix_rfl)), hd'.trans habsolute⟩

theorem exists_eq_map_name {ps : List Part} (h : ∀ part ∈ ps, part.IsSegment) (hup : Part.up ∉ ps) :
    ∃ names : List String, ps = names.map .name := by
  induction ps with
  | nil => exact ⟨[], rfl⟩
  | cons part ps ih =>
    rw [List.forall_mem_cons] at h
    rw [List.mem_cons, not_or] at hup
    obtain ⟨names, rfl⟩ := ih h.2 hup.2
    cases part with
    | root => exact absurd rfl (ne_root_of_isSegment h.1)
    | here => exact absurd rfl (ne_here_of_isSegment h.1)
    | up => exact absurd rfl hup.1
    | name text => exact ⟨text :: names, rfl⟩

-- Without steps up, a path goes on with names from a directory above it.
theorem exists_names_of_mem_ancestors (h : d ∈ p.ancestors) (hup : Part.up ∉ p.parts) :
    ∃ names : List String, p.directory.steps = d.steps ++ names.map .name := by
  obtain ⟨⟨rest, hrest⟩, habsolute⟩ := mem_ancestorsFrom h
  obtain ⟨last, hlast⟩ := List.dropLast_prefix p.steps
  rw [← hrest, List.append_assoc] at hlast
  have hinner : ∀ part ∈ rest, part ∈ p.inner := by
    intro part hpart
    rw [steps_eq p] at hlast
    by_cases hp : p.isAbsolute = true
    · -- the root is above the rest
      obtain ⟨first, above, hd⟩ := List.exists_cons_of_ne_nil
        (List.ne_nil_of_mem (isAbsolute_iff_root_mem_steps.mp (habsolute.trans hp)))
      rw [if_pos hp, hd] at hlast
      have htail : above ++ (rest ++ last) = p.inner := (List.cons.inj hlast).2
      rw [← htail]
      exact List.mem_append_right _ (List.mem_append_left _ hpart)
    · rw [if_neg hp, List.nil_append] at hlast
      rw [← hlast]
      exact List.mem_append_right _ (List.mem_append_left _ hpart)
  have hnot : Part.up ∉ rest := by
    intro hpart
    rw [parts_eq, List.mem_append, not_or] at hup
    exact hup.2 (hinner _ hpart)
  obtain ⟨names, rfl⟩ := exists_eq_map_name (fun part hpart => isSegment_of_mem_inner (hinner part hpart)) hnot
  exact ⟨names, by rw [steps_directory, hrest]⟩

/-- Every beginning of the steps of a path leads to a directory above it, if it has the root of the path. -/
theorem exists_mem_ancestorsFrom {c : List Part} {n : Nat} (hc : c <+: p.steps) (hne : c ≠ p.steps)
    (hroot : p.isAbsolute = true → c ≠ []) (hn : p.steps.length ≤ n) : ∃ d ∈ p.ancestorsFrom n, d.steps = c := by
  induction n generalizing p with
  | zero =>
    have hnil : p.steps = [] := List.length_eq_zero_iff.mp (Nat.le_zero.mp hn)
    rw [hnil] at hc hne
    exact absurd (List.prefix_nil.mp hc) hne
  | succ n ih =>
    have hsteps : p.steps ≠ [] := by
      intro hnil
      rw [hnil] at hc hne
      exact hne (List.prefix_nil.mp hc)
    have hsingle : p.steps ≠ [.root] := by
      intro h
      have habsolute : p.isAbsolute = true := isAbsolute_iff_root_mem_steps.mpr (by rw [h]; exact List.mem_cons_self)
      rw [h] at hc hne
      rcases List.prefix_cons_iff.mp hc with hnil | ⟨rest, hrest, hprefix⟩
      · exact hroot habsolute hnil
      · rw [List.prefix_nil.mp hprefix] at hrest
        exact hne hrest
    obtain ⟨e, hparent⟩ := exists_parent_of_steps hsteps hsingle
    have he := steps_of_parent hparent
    have hlength : e.steps.length ≤ n := by
      rw [he, List.length_dropLast]
      omega
    have hprefix : c <+: e.steps := by
      obtain ⟨rest, hrest⟩ := hc
      have hmore : rest ≠ [] := by
        rintro rfl
        exact hne (by rw [← hrest, List.append_nil])
      rw [he, ← hrest, List.dropLast_append_of_ne_nil hmore]
      exact List.prefix_append _ _
    rw [ancestorsFrom, hparent]
    -- the parent is the longest of the beginnings, all others belong to it as well
    by_cases hlast : c = e.steps
    · exact ⟨e, List.mem_cons_self, hlast.symm⟩
    · have habsolute := isAbsolute_of_parent hparent
      obtain ⟨d, hd, hdc⟩ := ih hprefix hlast (fun h => hroot (habsolute ▸ h)) hlength
      exact ⟨d, List.mem_cons_of_mem _ hd, hdc⟩

end

end Path

end TemplateCompiler
