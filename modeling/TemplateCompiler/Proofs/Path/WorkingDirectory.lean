import TemplateCompiler.Proofs.Path.Requests

/-!
# Requests from a working directory

Relative paths are taken from a working directory. If it is an absolute path, a request is the one for the absolute
paths (`request_eq_request_join`), and it denotes the path that was asked for, whether it is relative to the file or
names a package (`request_denotes`).
-/

namespace TemplateCompiler.Path

/-! ## Absolute paths -/

section

variable {working p : Path}

theorem join_of_isAbsolute (h : p.isAbsolute = true) : working.join p = p := by
  rw [join, h, Bool.true_or, if_pos rfl]

theorem isAbsolute_join_of_isAbsolute (h : working.isAbsolute = true) : (working.join p).isAbsolute = true := by
  by_cases hp : p.isAbsolute = true
  · rw [join_of_isAbsolute hp, hp]
  · rw [isAbsolute_join (Bool.eq_false_iff.mpr hp), h]

theorem isRelativeRequest_join (h : working.isAbsolute = true) : isRelativeRequest (working.join p).text = false := by
  rw [Bool.eq_false_iff]
  intro hrelative
  have habsolute := isAbsolute_of_isRelativeRequest hrelative
  rw [isAbsolute_join_of_isAbsolute h] at habsolute
  cases habsolute

theorem text_ne_of_isAbsolute (h : working.isAbsolute = true) : working.text ≠ "" := by
  intro htext
  rw [isAbsolute, htext] at h
  cases h

theorem up_not_mem_join (hworking : Part.up ∉ working.parts) (hp : Part.up ∉ p.parts)
    (h : working.isAbsolute = true) : Part.up ∉ (working.join p).parts := by
  by_cases habsolute : p.isAbsolute = true
  · rwa [join_of_isAbsolute habsolute]
  · rw [parts_join (text_ne_of_isAbsolute h) (Bool.eq_false_iff.mpr habsolute), List.mem_append, not_or]
    rw [parts_eq, List.mem_append, not_or] at hp
    exact ⟨hworking, hp.2⟩

/-- A path that names a file still does so below another one. -/
theorem fileName_join {name : String} (h : working.isAbsolute = true) (hname : p.fileName = some name) :
    (working.join p).fileName = some name := by
  by_cases habsolute : p.isAbsolute = true
  · rwa [join_of_isAbsolute habsolute]
  · obtain ⟨d, -, hsteps⟩ := exists_parent_of_fileName hname
    have hrelative : p.isAbsolute = false := Bool.eq_false_iff.mpr habsolute
    rw [steps_of_not_isAbsolute hrelative] at hsteps
    rw [fileName, parts_join (text_ne_of_isAbsolute h) hrelative, hsteps, ← List.append_assoc, List.getLast?_concat]

-- The parent of a path that names a file is found before or behind taking both from the working directory.
theorem exists_parent_join {name : String} {d : Path} (h : working.isAbsolute = true) (hname : p.fileName = some name)
    (hparent : p.parent = some d) : ∃ e, (working.join p).parent = some e ∧ e.steps = (working.join d).steps := by
  obtain ⟨e, he, hsteps⟩ := exists_parent_of_fileName (fileName_join h hname)
  refine ⟨e, he, ?_⟩
  obtain ⟨d', hd', hpsteps⟩ := exists_parent_of_fileName hname
  cases hparent.symm.trans hd'
  have hd := isAbsolute_of_parent hparent
  by_cases habsolute : p.isAbsolute = true
  · rw [join_of_isAbsolute habsolute, hpsteps] at hsteps
    rw [join_of_isAbsolute (hd.trans habsolute), List.append_cancel_right hsteps]
  · have hrelative : p.isAbsolute = false := Bool.eq_false_iff.mpr habsolute
    rw [steps_join hrelative, hpsteps, ← List.append_assoc] at hsteps
    rw [steps_join (hd.trans hrelative), List.append_cancel_right hsteps]

/-- The way between two paths is that between the absolute ones. -/
theorem between?_eq (working base target : Path) :
    between? (some working) base target = some (between (working.join base) (working.join target)) := by
  by_cases hsame : base.isAbsolute = target.isAbsolute
  · rw [between?_of_isAbsolute_eq _ hsame]
    by_cases habsolute : base.isAbsolute = true
    · rw [join_of_isAbsolute habsolute, join_of_isAbsolute (hsame ▸ habsolute)]
    · -- two relative paths have the working directory in common
      have hrelative : base.isAbsolute = false := Bool.eq_false_iff.mpr habsolute
      rw [between, between, steps_join hrelative, steps_join (hsame ▸ hrelative), dropCommon_append]
  · rw [between?, if_neg (mt beq_iff_eq.mp hsame)]
    rfl

/-- A request is the one for the absolute paths, from wherever these are taken. -/
theorem request_eq_request_join {source target : Path} {name : String} (h : working.isAbsolute = true)
    (hname : source.fileName = some name) (hkept : isRelativeRequest target.text = false) (other : Option Path) :
    source.request target.text (some working) = (working.join source).request (working.join target).text other := by
  obtain ⟨d, hparent, -⟩ := exists_parent_of_fileName hname
  obtain ⟨e, he, hsteps⟩ := exists_parent_join h hname hparent
  have hway : between? (some working) (source.parent.getD ⟨""⟩) target =
      some (between (working.join d) (working.join target)) := by
    rw [hparent, Option.getD_some, between?_eq]
  have hjoined : between? other ((working.join source).parent.getD ⟨""⟩) (working.join target) =
      some (between (working.join d) (working.join target)) := by
    have habsolute : e.isAbsolute = (working.join target).isAbsolute := by
      rw [isAbsolute_of_parent he, isAbsolute_join_of_isAbsolute h, isAbsolute_join_of_isAbsolute h]
    rw [he, Option.getD_some, between?_of_isAbsolute_eq other habsolute, between, between, hsteps]
  rw [request_eq hkept hway, request_eq (isRelativeRequest_join h) hjoined]

end

/-! ## Names of a path -/

section

variable {p : Path}

theorem mem_of_mem_splitFrom {segment cs : List Char} {s : String} {c : Char} (hs : s ∈ splitFrom segment cs)
    (hc : c ∈ s.toList) : c ∈ segment ∨ c ∈ cs := by
  induction cs generalizing segment with
  | nil =>
    rw [splitFrom, List.mem_singleton] at hs
    rw [hs, String.toList_ofList, List.mem_reverse] at hc
    exact .inl hc
  | cons d cs ih =>
    rw [splitFrom] at hs
    split at hs
    · rcases List.mem_cons.mp hs with rfl | hs
      · rw [String.toList_ofList, List.mem_reverse] at hc
        exact .inl hc
      · exact .inr (List.mem_cons_of_mem _ ((ih hs).resolve_left List.not_mem_nil))
    · rcases ih hs with h | h
      · rcases List.mem_cons.mp h with rfl | h
        · exact .inr List.mem_cons_self
        · exact .inl h
      · exact .inr (List.mem_cons_of_mem _ h)

-- The names of a path are written in its text.
theorem mem_text_of_mem_steps {s : String} (h : Part.name s ∈ p.steps) {c : Char} (hc : c ∈ s.toList) :
    c ∈ p.text.toList := by
  rw [steps_eq, List.mem_append] at h
  have hinner : Part.name s ∈ p.inner := by
    rcases h with h | h
    · split at h
      · cases List.mem_singleton.mp h
      · cases h
    · exact h
  obtain ⟨segment, hsegment, hpart⟩ := List.mem_filterMap.mp hinner
  cases text_of_partOf? hpart
  exact (mem_of_mem_splitFrom hsegment hc).resolve_left List.not_mem_nil

/-- A path without steps up is made of names, behind the root if it is absolute. -/
theorem exists_names (hup : Part.up ∉ p.parts) :
    ∃ names : List String, p.steps = (if p.isAbsolute then [.root] else []) ++ names.map .name := by
  rw [parts_eq, List.mem_append, not_or] at hup
  obtain ⟨names, hnames⟩ := exists_eq_map_name (fun part hpart => isSegment_of_mem_inner hpart) hup.2
  exact ⟨names, by rw [steps_eq, hnames]⟩

theorem exists_names_directory {name : String} (hname : p.fileName = some name) (hup : Part.up ∉ p.parts) :
    ∃ names : List String, p.directory.steps = (if p.isAbsolute then [.root] else []) ++ names.map .name := by
  obtain ⟨names, hnames⟩ := exists_names hup
  obtain ⟨d, -, hsteps⟩ := exists_parent_of_fileName hname
  have hne : names ≠ [] := by
    rintro rfl
    rw [hnames, List.map_nil, List.append_nil] at hsteps
    split at hsteps
    · have hlast := congrArg List.getLast? hsteps
      rw [List.getLast?_concat] at hlast
      cases hlast
    · exact List.append_ne_nil_of_right_ne_nil _ (List.cons_ne_nil _ _) hsteps.symm
  refine ⟨names.dropLast, ?_⟩
  rw [steps_directory, hnames, List.dropLast_append_of_ne_nil (by simpa using hne), List.map_dropLast]

end

/-! ## Main result -/

-- Where the paths for the file and for what is asked for go on with names, and which names have no backslash.
theorem exists_common_front {working source target : Path} {name : String} (hworking : working.isAbsolute = true)
    (hup : Part.up ∉ working.parts)
    (hhere : source.isAbsolute = true → target.isAbsolute = false → '\\' ∉ working.text.toList)
    (hname : source.fileName = some name) (hsource : Part.up ∉ source.parts) (htarget : Part.up ∉ target.parts)
    (hslash : '\\' ∉ target.text.toList) :
    ∃ (front : List Part) (ups downs : List String), front ≠ [] ∧
      (working.join source).directory.steps = front ++ ups.map .name ∧
      (working.join target).steps = front ++ downs.map .name ∧ ∀ s ∈ downs, '\\' ∉ s.toList := by
  by_cases hrelative : source.isAbsolute = false ∧ target.isAbsolute = false
  · -- both go on from the working directory
    obtain ⟨hrelative, hrelative'⟩ := hrelative
    obtain ⟨d, hparent, -⟩ := exists_parent_of_fileName hname
    obtain ⟨e, he, hsteps⟩ := exists_parent_join hworking hname hparent
    obtain ⟨ups, hups⟩ := exists_names_directory hname hsource
    obtain ⟨downs, hdowns⟩ := exists_names htarget
    rw [hrelative, if_neg Bool.false_ne_true, List.nil_append, steps_directory, ← steps_of_parent hparent] at hups
    rw [hrelative', if_neg Bool.false_ne_true, List.nil_append] at hdowns
    refine ⟨working.steps, ups, downs, List.ne_nil_of_mem (isAbsolute_iff_root_mem_steps.mp hworking), ?_, ?_, ?_⟩
    · rw [steps_directory, ← steps_of_parent he, hsteps, steps_join ((isAbsolute_of_parent hparent).trans hrelative),
        hups]
    · rw [steps_join hrelative', hdowns]
    · exact fun s hs hc => hslash (mem_text_of_mem_steps (hdowns ▸ List.mem_map_of_mem hs) hc)
  · -- both go on from the root
    have hfile := isAbsolute_join_of_isAbsolute (p := source) hworking
    have hwanted := isAbsolute_join_of_isAbsolute (p := target) hworking
    obtain ⟨ups, hups⟩ :=
      exists_names_directory (fileName_join hworking hname) (up_not_mem_join hup hsource hworking)
    obtain ⟨downs, hdowns⟩ := exists_names (up_not_mem_join hup htarget hworking)
    rw [hfile, if_pos rfl] at hups
    rw [hwanted, if_pos rfl] at hdowns
    refine ⟨[.root], ups, downs, List.cons_ne_nil _ _, hups, hdowns, fun s hs hc => ?_⟩
    have hmem : Part.name s ∈ (working.join target).steps := by
      rw [hdowns]
      exact List.mem_append_right _ (List.mem_map_of_mem hs)
    by_cases habsolute : target.isAbsolute = true
    · rw [join_of_isAbsolute habsolute] at hmem
      exact hslash (mem_text_of_mem_steps hmem hc)
    · have hrelative' : target.isAbsolute = false := Bool.eq_false_iff.mpr habsolute
      rw [steps_join hrelative', List.mem_append] at hmem
      rcases hmem with hmem | hmem
      · have hsourceAbsolute : source.isAbsolute = true := by
          rw [← Bool.not_eq_false]
          exact fun h => hrelative ⟨h, hrelative'⟩
        exact hhere hsourceAbsolute hrelative' (mem_text_of_mem_steps hmem hc)
      · exact hslash (mem_text_of_mem_steps hmem hc)

/-- What the request for a path denotes that is not spelled as a relative request, as seen from a file. Neither path has
a step up, nor has the working directory that they are taken from; and the names that the request may be made of have no
backslash. The request is relative and leads from the directory of the file to the path, or it is not, and then the path
is that of a package in the directory of the file or in one above. It is never absolute. The working directory counts
only if just one of the two paths is absolute. -/
theorem request_denotes {working source target : Path} {name : String} (hworking : working.isAbsolute = true)
    (hup : Part.up ∉ working.parts)
    (hhere : source.isAbsolute = true → target.isAbsolute = false → '\\' ∉ working.text.toList)
    (hname : source.fileName = some name) (hsource : Part.up ∉ source.parts) (htarget : Part.up ∉ target.parts)
    (hslash : '\\' ∉ target.text.toList) (hkept : isRelativeRequest target.text = false) :
    let request := source.request target.text (some working)
    let file := working.join source
    let wanted := working.join target
    ((isRelativeRequest request = true ∧ (file.directory.join ⟨request⟩).place = wanted.place) ∨
      (isRelativeRequest request = false ∧
        ∃ d ∈ file.ancestors, ((d.join ⟨"node_modules"⟩).join ⟨request⟩).place = wanted.place)) ∧
    (Path.mk request).isAbsolute = false ∧
    (source.isAbsolute = target.isAbsolute → ∀ other, source.request target.text other = request) := by
  intro request file wanted
  obtain ⟨front, ups, downs, hfront, hups, hdowns, hbackslash⟩ :=
    exists_common_front hworking hup hhere hname hsource htarget hslash
  have hfile : file.fileName = some name := fileName_join hworking hname
  have habsolute : file.isAbsolute = wanted.isAbsolute :=
    (isAbsolute_join_of_isAbsolute hworking).trans (isAbsolute_join_of_isAbsolute hworking).symm
  have hwanted : isRelativeRequest wanted.text = false := isRelativeRequest_join hworking
  have hrequest : request = file.request wanted.text := request_eq_request_join hworking hname hkept _
  have hdenotes : file.Denotes request wanted :=
    hrequest ▸ denotes_request _ hfile hwanted habsolute (fun _ => hfront) hups hdowns hbackslash
  refine ⟨?_, ?_, fun hsame other => request_congr hname hkept hsame _ _⟩
  · rw [Denotes] at hdenotes
    by_cases hrelative : isRelativeRequest request = true
    · rw [if_pos hrelative] at hdenotes
      exact .inl ⟨hrelative, hdenotes⟩
    · rw [if_neg hrelative] at hdenotes
      exact .inr ⟨Bool.eq_false_iff.mpr hrelative, hdenotes⟩
  · obtain ⟨common, up, down, -, -, hsegment, hspelled⟩ :=
      exists_request_eq _ hfile hwanted habsolute hups hdowns hbackslash
    rw [hrequest, hspelled]
    exact isAbsolute_dropPackages hsegment

/-- A page in a directory above which the working directory is: a file beside it, and a package above it. -/
theorem request_denotes_page :
    let working : Path := ⟨"/home/app"⟩
    let page : Path := ⟨"src/page.marko"⟩
    page.request "/home/app/src/.x/card.marko" (some working) = "./.x/card.marko" ∧
    ((working.join page).directory.join ⟨"./.x/card.marko"⟩).place = (Path.mk "/home/app/src/.x/card.marko").place ∧
    page.request "/home/node_modules/ui/b.marko" (some working) = "ui/b.marko" ∧
    ∃ d ∈ (working.join page).ancestors,
      ((d.join ⟨"node_modules"⟩).join ⟨"ui/b.marko"⟩).place = (Path.mk "/home/node_modules/ui/b.marko").place := by
  intro working page
  have hcard : page.request "/home/app/src/.x/card.marko" (some working) = "./.x/card.marko" := by decide +kernel
  have hpackage : page.request "/home/node_modules/ui/b.marko" (some working) = "ui/b.marko" := by decide +kernel
  have hdenotes (target : Path) (htarget : Part.up ∉ target.parts) (hslash : '\\' ∉ target.text.toList)
      (hkept : isRelativeRequest target.text = false) (hbelow : working.join target = target) :=
    hbelow ▸ (@request_denotes working page target "page.marko" (by decide +kernel) (by decide +kernel)
      (fun h => absurd h (by decide +kernel)) (by decide +kernel) (by decide +kernel) htarget hslash hkept).1
  refine ⟨hcard, ?_, hpackage, ?_⟩
  · have hplace := hdenotes ⟨"/home/app/src/.x/card.marko"⟩ (by decide +kernel) (by decide +kernel) (by decide +kernel)
      rfl
    rw [hcard] at hplace
    exact (hplace.resolve_right fun h => absurd h.1 (by decide +kernel)).2
  · have hplace := hdenotes ⟨"/home/node_modules/ui/b.marko"⟩ (by decide +kernel) (by decide +kernel)
      (by decide +kernel) rfl
    rw [hpackage] at hplace
    exact (hplace.resolve_left fun h => absurd h.1 (by decide +kernel)).2

end TemplateCompiler.Path
