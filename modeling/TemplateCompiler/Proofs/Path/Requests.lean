import TemplateCompiler.Proofs.Path.Place

/-!
# What requests denote

A request that is computed from a path denotes this path, if what the path does not share with the directory of the
file is made of names without backslashes (`denotes_request`). A path that is taken for a relative request denotes
itself only from a directory with as many names as steps up (`denotes_iff_of_relative`).
-/

namespace TemplateCompiler.Path

/-- The path that a request leads to from the directory of a file. -/
def resolve (source : Path) (request : String) : Path := source.directory.join ⟨request⟩

/-- What a request denotes for a file. A relative one leads to it from the directory of the file, another one from
the packages of a directory above the file. -/
@[irreducible] def Denotes (source : Path) (request : String) (target : Path) : Prop :=
  if isRelativeRequest request then (source.resolve request).place = target.place
  else ∃ d ∈ source.ancestors, ((d.join ⟨"node_modules"⟩).join ⟨request⟩).place = target.place

/-! ## Relative requests -/

theorem isAbsolute_of_isRelativeRequest {text : String} (h : isRelativeRequest text = true) :
    (Path.mk text).isAbsolute = false := by
  unfold isRelativeRequest at h
  rw [isAbsolute]
  cases htext : text.toList with
  | nil => rfl
  | cons c cs =>
    rw [htext] at h
    by_cases hc : c = '.'
    · simp [hc]
    · simp [Ne.symm hc] at h

theorem place_resolve {source : Path} {request : String} (h : (Path.mk request).isAbsolute = false) :
    (source.resolve request).place = source.directory.place.follow (Path.mk request).steps :=
  place_join h

theorem fromRoot_place {p : Path} (h : p.isAbsolute = false) : p.place.fromRoot = false := by
  refine Place.fromRoot_follow fun part hpart hroot => ?_
  have habsolute := (isAbsolute_iff_root_mem p).mpr (hroot ▸ hpart)
  rw [h] at habsolute
  cases habsolute

/-- From where a path that is taken for a relative request denotes itself. -/
theorem denotes_iff_of_relative {source target : Path} (h : isRelativeRequest target.text = true)
    (hsource : source.isAbsolute = false) :
    source.Denotes target.text target ↔
      source.directory.place.names.length = source.directory.place.ups ∧
        source.directory.place.ups ≤ target.place.ups := by
  have htarget : target.isAbsolute = false := isAbsolute_of_isRelativeRequest h
  have hdirectory : source.directory.isAbsolute = false := isAbsolute_directory hsource
  have hroot : ∀ part ∈ target.steps, part ≠ .root := by
    rintro part hpart rfl
    rw [isAbsolute_iff_root_mem_steps.mpr hpart] at htarget
    cases htarget
  have hplace : (source.resolve target.text).place = source.directory.place.after target.place := by
    rw [place_resolve htarget, Place.follow_eq_after (fromRoot_place hdirectory) hroot, ← place_eq_follow_steps]
  rw [Denotes, if_pos h, hplace]
  exact Place.after_eq_iff _ (fromRoot_place htarget)

/-! ## Ways -/

theorem dropCommon_append (front as bs : List Part) :
    dropCommon (front ++ as) (front ++ bs) = dropCommon as bs := by
  induction front with
  | nil => rfl
  | cons part front ih => simpa [dropCommon] using ih

-- What is dropped are segments of dots.
theorem splitFrom_dropSteps (cs : List Char) : ∃ dots : List String, (∀ s ∈ dots, s = "." ∨ s = "..") ∧
    splitFrom [] cs = dots ++ splitFrom [] ((dropSteps cs).getD cs) := by
  fun_induction dropSteps cs with
  | case1 rest ih =>
    obtain ⟨dots, hdots, hsplit⟩ := ih
    refine ⟨"." :: dots, List.forall_mem_cons.mpr ⟨.inl rfl, hdots⟩, ?_⟩
    rw [Option.getD_some, List.cons_append, ← hsplit]
    rfl
  | case2 rest ih =>
    obtain ⟨dots, hdots, hsplit⟩ := ih
    refine ⟨".." :: dots, List.forall_mem_cons.mpr ⟨.inr rfl, hdots⟩, ?_⟩
    rw [Option.getD_some, List.cons_append, ← hsplit]
    rfl
  | case3 cs => exact ⟨[], fun s hs => (List.not_mem_nil hs).elim, rfl⟩

theorem mem_intercalate {ss : List String} {c : Char} (h : c ∈ (String.intercalate "/" ss).toList) :
    c = '/' ∨ ∃ s ∈ ss, c ∈ s.toList := by
  induction ss with
  | nil => simp at h
  | cons s ss ih =>
    cases ss with
    | nil =>
      rw [String.intercalate_singleton] at h
      exact .inr ⟨s, List.mem_cons_self, h⟩
    | cons t ss =>
      rw [String.intercalate_cons_cons, String.toList_append, String.toList_append, List.mem_append,
        List.mem_append] at h
      rcases h with (h | h) | h
      · exact .inr ⟨s, List.mem_cons_self, h⟩
      · exact .inl (List.mem_singleton.mp h)
      · rcases ih h with hc | ⟨u, hu, hc⟩
        · exact .inl hc
        · exact .inr ⟨u, List.mem_cons_of_mem _ hu, hc⟩

theorem slashes_eq {text : String} (h : '\\' ∉ text.toList) : slashes text = text := by
  rw [slashes, ← String.toList_inj, String.toList_map]
  have hchar (c : Char) (hc : c ∈ text.toList) : (if c == '\\' then '/' else c) = c := by
    have hne : c ≠ '\\' := fun heq => h (heq ▸ hc)
    simp [hne]
  exact (List.map_congr_left hchar).trans (List.map_id _)

/-- A request before the way to a package is dropped from it. -/
def dotted (text : String) : String := if isRelativeRequest text then text else "./" ++ text

theorem request_eq {source : Path} {target : String} {working : Option Path} {way : List String}
    (h : isRelativeRequest target = false) (hway : between? working (source.parent.getD ⟨""⟩) ⟨target⟩ = some way) :
    source.request target working = dropPackages (dotted (slashes (String.intercalate "/" way))) := by
  simp [request, h, hway, dotted]

/-- The way from one absolute path to another, or between paths that both are not, does not depend on where they are
taken from. -/
theorem between?_of_isAbsolute_eq {base target : Path} (working : Option Path)
    (h : base.isAbsolute = target.isAbsolute) : between? working base target = some (between base target) := by
  rw [between?, if_pos (beq_iff_eq.mpr h)]

/-- A request between two absolute paths, or between paths that both are not, does not depend on where they are taken
from. -/
theorem request_congr {source target : Path} {name : String} (hname : source.fileName = some name)
    (hkept : isRelativeRequest target.text = false) (h : source.isAbsolute = target.isAbsolute)
    (working other : Option Path) : source.request target.text working = source.request target.text other := by
  obtain ⟨d, hparent, -⟩ := exists_parent_of_fileName hname
  have hway (here : Option Path) : between? here (source.parent.getD ⟨""⟩) target = some (between d target) := by
    rw [hparent, Option.getD_some, between?_of_isAbsolute_eq here ((isAbsolute_of_parent hparent).trans h)]
  rw [request_eq hkept (hway working), request_eq hkept (hway other)]

theorem segments_dot (text : String) : (Path.mk ("./" ++ text)).segments = "." :: (Path.mk text).segments := by
  have htext : ("./" ++ text).toList = '.' :: '/' :: text.toList := by simp
  rw [segments, htext]
  rfl

section

variable {ps : List Part}

-- Only the first segment can be a dot that is put in front.
theorem exists_part_of_mem_tail (h : ∀ part ∈ ps, part.IsSegment) (hne : ps ≠ []) {s : String}
    (hs : s ∈ (Path.mk (dotted (String.intercalate "/" (ps.map Part.text)))).segments.tail) :
    ∃ part ∈ ps, part.text = s := by
  refine List.mem_map.mp ?_
  unfold dotted at hs
  split at hs
  · rw [segments_spelled h hne] at hs
    exact List.mem_of_mem_tail hs
  · rwa [segments_dot, List.tail_cons, segments_spelled h hne] at hs

theorem isRelativeRequest_dotted (text : String) : isRelativeRequest (dotted text) = true := by
  unfold dotted
  split
  · assumption
  · simp [isRelativeRequest]

theorem inner_dotted (h : ∀ part ∈ ps, part.IsSegment) :
    (Path.mk (dotted (String.intercalate "/" (ps.map Part.text)))).inner = ps := by
  unfold dotted
  split
  · exact inner_spelled h
  · rw [inner, segments_dot, List.filterMap_cons_none (by decide)]
    exact inner_spelled h

end

-- A package is behind a segment that names the directory of packages.
theorem segments_dropPackages (text : String) :
    dropPackages text = text ∨ ∃ dots : List String, (∀ s ∈ dots, s = "." ∨ s = "..") ∧
      (Path.mk text).segments = dots ++ "node_modules" :: (Path.mk (dropPackages text)).segments := by
  unfold dropPackages
  cases hdrop : dropSteps text.toList with
  | none => exact .inl rfl
  | some rest =>
    dsimp only
    split
    · rename_i hpackage
      obtain ⟨dots, hdots, hsplit⟩ := splitFrom_dropSteps text.toList
      rw [hdrop, Option.getD_some] at hsplit
      obtain ⟨tail, rfl⟩ := List.isPrefixOf_iff_prefix.mp hpackage
      refine .inr ⟨dots, hdots, ?_⟩
      have hpackages : packages = "node_modules".toList ++ '/' :: [] := by decide
      rw [segments, hsplit, List.drop_left, segments, String.toList_ofList, hpackages, List.append_assoc]
      exact congrArg (dots ++ ·) (splitFrom_append (by decide) [] tail)
    · exact .inl rfl

/-! ## Requests that are computed -/

theorem exists_map_name_of_append {names : List String} {as bs : List Part} (h : names.map Part.name = as ++ bs) :
    ∃ front back : List String, names = front ++ back ∧ as = front.map .name ∧ bs = back.map .name := by
  obtain ⟨front, back, hnames, hfront, hback⟩ := List.map_eq_append_iff.mp h
  exact ⟨front, back, hnames, hfront.symm, hback.symm⟩

/-- What two ways of names are left with after their common beginning. -/
theorem exists_dropCommon_names (ups downs : List String) :
    ∃ common up down : List String, ups = common ++ up ∧ downs = common ++ down ∧
      dropCommon (ups.map .name) (downs.map .name) = (up.map .name, down.map .name) := by
  obtain ⟨common, hups, hdowns⟩ := dropCommon_spec (ups.map .name) (downs.map .name)
  obtain ⟨front, up, rfl, hfront, hup⟩ := exists_map_name_of_append hups
  obtain ⟨front', down, rfl, hfront', hdown⟩ := exists_map_name_of_append hdowns
  have hcommon : front = front' := (List.map_inj_right fun _ _ h => Part.name.inj h).mp (hfront.symm.trans hfront')
  exact ⟨front, up, down, rfl, by rw [hcommon], Prod.ext hup hdown⟩

-- Steps up in front of names tell how many they are.
theorem eq_of_replicate_up {j k : Nat} {names : List String} {name : String} {ps : List Part}
    (h : List.replicate j Part.up ++ names.map .name = List.replicate k Part.up ++ .name name :: ps) :
    names.map .name = Part.name name :: ps := by
  induction k generalizing j with
  | zero =>
    cases j with
    | zero => exact h
    | succ j => cases h
  | succ k ih =>
    cases j with
    | zero =>
      cases names with
      | nil => cases h
      | cons _ _ => cases h
    | succ j => exact ih (List.cons.inj h).2

theorem filterMap_dots {dots : List String} (h : ∀ s ∈ dots, s = "." ∨ s = "..") :
    ∃ k, dots.filterMap partOf? = List.replicate k .up := by
  induction dots with
  | nil => exact ⟨0, rfl⟩
  | cons s dots ih =>
    rw [List.forall_mem_cons] at h
    obtain ⟨k, hk⟩ := ih h.2
    rcases h.1 with rfl | rfl
    · exact ⟨k, (List.filterMap_cons_none (by decide)).trans hk⟩
    · exact ⟨k + 1, (List.filterMap_cons_some (b := Part.up) (by decide)).trans (congrArg _ hk)⟩

/-- As many steps up as there are names, and names behind them. -/
def way (up down : List String) : List Part := List.replicate up.length .up ++ down.map .name

section

variable {source target : Path} {front : List Part} {up down ups downs : List String} {name : String}

/-- The way to a path that is not spelled as a request. -/
theorem exists_way {d : Path} (hups : d.steps = front ++ ups.map .name)
    (hdowns : target.steps = front ++ downs.map .name) :
    ∃ common up down : List String, ups = common ++ up ∧ downs = common ++ down ∧
      between d target = (way up down).map Part.text := by
  obtain ⟨common, up, down, hup, hdown, hdrop⟩ := exists_dropCommon_names ups downs
  refine ⟨common, up, down, hup, hdown, ?_⟩
  have hways : between d target =
      (dropCommon d.steps target.steps).1.map (fun _ => "..") ++
        (dropCommon d.steps target.steps).2.map Part.text := rfl
  rw [hways, hups, hdowns, dropCommon_append, hdrop, way, List.map_append, List.map_replicate, List.map_const',
    List.length_map]
  rfl

theorem eq_of_mem_way {part : Part} (h : part ∈ way up down) : part = .up ∨ ∃ s ∈ down, part = .name s := by
  rcases List.mem_append.mp h with h | h
  · exact .inl (List.eq_of_mem_replicate h)
  · obtain ⟨s, hs, rfl⟩ := List.mem_map.mp h
    exact .inr ⟨s, hs, rfl⟩

-- A request that starts with a name is the request of a package.
theorem isPackage_of_names {request : String}
    (h : ∀ s ∈ (Path.mk request).segments, ∃ name, partOf? s = some (.name name)) :
    isRelativeRequest request = false ∧ (Path.mk request).isAbsolute = false := by
  obtain ⟨first, rest, hsegments⟩ := List.exists_cons_of_ne_nil (splitFrom_ne_nil [] request.toList)
  have hsegments : (Path.mk request).segments = first :: rest := hsegments
  obtain ⟨text, hfirst⟩ := h first (by rw [hsegments]; exact List.mem_cons_self)
  constructor
  · rw [Bool.eq_false_iff]
    intro hrelative
    unfold isRelativeRequest at hrelative
    rw [Bool.or_eq_true, List.isPrefixOf_iff_prefix, List.isPrefixOf_iff_prefix] at hrelative
    rcases hrelative with ⟨tail, htail⟩ | ⟨tail, htail⟩
    · have hdot : (Path.mk request).segments = "." :: splitFrom [] tail := by
        rw [segments, ← htail]
        rfl
      rw [(List.cons.inj (hsegments.symm.trans hdot)).1] at hfirst
      cases hfirst
    · have hup : (Path.mk request).segments = ".." :: splitFrom [] tail := by
        rw [segments, ← htail]
        rfl
      rw [(List.cons.inj (hsegments.symm.trans hup)).1] at hfirst
      cases hfirst
  · rw [Bool.eq_false_iff]
    intro habsolute
    rw [((isAbsolute_iff_of_segments hsegments).mp habsolute).1] at hfirst
    cases hfirst

-- A package is looked up in all directories above the file.
theorem denotes_of_isPackage (front : List Part) {request : String} (hname : source.fileName = some name)
    (hfront : front <+: source.directory.steps) (hroot : source.isAbsolute = true → front ≠ [])
    (hrequest : ∀ s ∈ (Path.mk request).segments, ∃ text, partOf? s = some (.name text))
    (htarget : target.place = Place.start.follow (front ++ .name "node_modules" :: (Path.mk request).inner)) :
    source.Denotes request target := by
  obtain ⟨hrelative, habsolute⟩ := isPackage_of_names hrequest
  obtain ⟨d, hparent, hsteps⟩ := exists_parent_of_fileName hname
  rw [steps_directory, hsteps, List.dropLast_concat] at hfront
  have hne : front ≠ source.steps := by
    rintro rfl
    have hlength := hfront.length_le
    rw [hsteps, List.length_append, List.length_singleton] at hlength
    omega
  obtain ⟨above, habove, habovesteps⟩ := exists_mem_ancestorsFrom
    (hsteps ▸ hfront.trans (List.prefix_append _ _)) hne hroot (length_steps_le source)
  rw [Denotes, hrelative, if_neg Bool.false_ne_true]
  refine ⟨above, habove, ?_⟩
  have hmodules : (Path.mk "node_modules").steps = [.name "node_modules"] := by decide
  rw [place_join habsolute, place_join (by decide), place_eq_follow_steps above, habovesteps, hmodules,
    steps_of_not_isAbsolute habsolute, htarget, Place.follow_append]
  rfl

-- What is written behind dots denotes the path that the way leads to, also where dots and packages are left out.
theorem denotes_dropPackages (hname : source.fileName = some name)
    (hups : source.directory.steps = front ++ up.map .name) (hroot : source.isAbsolute = true → front ≠ [])
    (hdowns : target.place = Place.start.follow (front ++ down.map .name))
    (hsegment : ∀ part ∈ way up down, part.IsSegment) :
    source.Denotes (dropPackages (dotted (String.intercalate "/" ((way up down).map Part.text)))) target := by
  obtain ⟨q, hq⟩ : ∃ q, q = dotted (String.intercalate "/" ((way up down).map Part.text)) := ⟨_, rfl⟩
  have hinner : (Path.mk q).inner = way up down := hq ▸ inner_dotted hsegment
  have hrelative : isRelativeRequest q = true := hq ▸ isRelativeRequest_dotted _
  rw [← hq]
  rcases segments_dropPackages q with hsame | ⟨dots, hdots, hsegments⟩
  · -- the way leads back to where the path goes on
    have habsolute := isAbsolute_of_isRelativeRequest hrelative
    rw [hsame, Denotes, if_pos hrelative, place_resolve habsolute, steps_of_not_isAbsolute habsolute, hinner,
      place_eq_follow_steps, hups, hdowns, way, Place.follow_append, Place.follow_append, Place.follow_back,
      Place.follow_append]
  · -- the packages are in the directory from where the path goes on
    obtain ⟨k, hk⟩ := filterMap_dots hdots
    have hmodules : partOf? "node_modules" = some (.name "node_modules") := by decide
    have hparts : way up down = List.replicate k .up ++ .name "node_modules" :: (Path.mk (dropPackages q)).inner := by
      rw [← hinner, inner, hsegments, List.filterMap_append, hk, List.filterMap_cons_some hmodules]
      rfl
    have hdown := eq_of_replicate_up hparts
    have hne : way up down ≠ [] := by
      rw [hparts]
      exact List.append_ne_nil_of_right_ne_nil _ (List.cons_ne_nil _ _)
    refine denotes_of_isPackage front hname (hups ▸ List.prefix_append _ _) hroot ?_ (hdown ▸ hdowns)
    intro s hs
    have htail : s ∈ (Path.mk q).segments.tail := by
      rw [hsegments]
      cases dots with
      | nil => exact hs
      | cons _ dots => exact List.mem_append_right dots (List.mem_cons_of_mem _ hs)
    obtain ⟨part, hpart, rfl⟩ := exists_part_of_mem_tail hsegment hne (hq ▸ htail)
    have hcounts := (hsegment part hpart).2
    have hmem : part ∈ down.map Part.name := by
      rw [hdown]
      exact List.mem_cons_of_mem _ (List.mem_filterMap.mpr ⟨_, hs, hcounts⟩)
    obtain ⟨text, -, rfl⟩ := List.mem_map.mp hmem
    exact ⟨text, hcounts⟩

/-- How the request for a path is spelled that goes on with names, none of them with a backslash, from where the
directory of the file goes on with names. -/
theorem exists_request_eq (working : Option Path) (hname : source.fileName = some name)
    (hkept : isRelativeRequest target.text = false) (habsolute : source.isAbsolute = target.isAbsolute)
    (hups : source.directory.steps = front ++ ups.map .name) (hdowns : target.steps = front ++ downs.map .name)
    (hslash : ∀ s ∈ downs, '\\' ∉ s.toList) :
    ∃ common up down : List String, ups = common ++ up ∧ downs = common ++ down ∧
      (∀ part ∈ way up down, part.IsSegment) ∧
      source.request target.text working =
        dropPackages (dotted (String.intercalate "/" ((way up down).map Part.text))) := by
  obtain ⟨d, hparent, hsteps⟩ := exists_parent_of_fileName hname
  have hd : d.steps = front ++ ups.map .name := by
    rw [steps_of_parent hparent, ← steps_directory, hups]
  obtain ⟨common, up, down, rfl, rfl, hbetween⟩ := exists_way hd hdowns
  refine ⟨common, up, down, rfl, rfl, fun part hpart => ?_, ?_⟩
  · rcases eq_of_mem_way hpart with rfl | ⟨s, hs, rfl⟩
    · exact isSegment_up
    · refine isSegment_of_mem_steps (p := target) ?_ Part.noConfusion
      rw [hdowns]
      exact List.mem_append_right _ (List.mem_map_of_mem (List.mem_append_right _ hs))
  · have hbackslash : '\\' ∉ (String.intercalate "/" ((way up down).map Part.text)).toList := by
      intro h
      obtain h | ⟨text, htext, h⟩ := mem_intercalate h
      · cases h
      · obtain ⟨part, hpart, rfl⟩ := List.mem_map.mp htext
        rcases eq_of_mem_way hpart with rfl | ⟨s, hs, rfl⟩
        · exact absurd h (by decide)
        · exact hslash s (List.mem_append_right _ hs) h
    have hway := between?_of_isAbsolute_eq working ((isAbsolute_of_parent hparent).trans habsolute)
    rw [hbetween] at hway
    rw [request_eq hkept (by rwa [hparent]), slashes_eq hbackslash]

/-- A request denotes the path that it is computed from, if the path is not spelled as a request and if it goes on
with names, none of them with a backslash, from where the directory of the file goes on with names. -/
theorem denotes_request (working : Option Path) (hname : source.fileName = some name)
    (hkept : isRelativeRequest target.text = false) (habsolute : source.isAbsolute = target.isAbsolute)
    (hroot : source.isAbsolute = true → front ≠ []) (hups : source.directory.steps = front ++ ups.map .name)
    (hdowns : target.steps = front ++ downs.map .name) (hslash : ∀ s ∈ downs, '\\' ∉ s.toList) :
    source.Denotes (source.request target.text working) target := by
  obtain ⟨common, up, down, rfl, rfl, hsegment, hrequest⟩ :=
    exists_request_eq working hname hkept habsolute hups hdowns hslash
  rw [List.map_append, ← List.append_assoc] at hups hdowns
  rw [hrequest]
  refine denotes_dropPackages hname hups (fun h => ?_) ?_ hsegment
  · exact List.append_ne_nil_of_left_ne_nil (hroot h) _
  · rw [place_eq_follow_steps, hdowns]

-- What is left of dots and packages starts with a dot or a name.
theorem isAbsolute_dropPackages {ps : List Part} (h : ∀ part ∈ ps, part.IsSegment) :
    (Path.mk (dropPackages (dotted (String.intercalate "/" (ps.map Part.text))))).isAbsolute = false := by
  obtain ⟨q, hq⟩ : ∃ q, q = dotted (String.intercalate "/" (ps.map Part.text)) := ⟨_, rfl⟩
  rw [← hq]
  rcases segments_dropPackages q with hsame | ⟨dots, -, hsegments⟩
  · rw [hsame]
    exact isAbsolute_of_isRelativeRequest (hq ▸ isRelativeRequest_dotted _)
  · obtain ⟨first, rest, hfirst⟩ := List.exists_cons_of_ne_nil (splitFrom_ne_nil [] (dropPackages q).toList)
    have hfirst : (Path.mk (dropPackages q)).segments = first :: rest := hfirst
    have hne : ps ≠ [] := by
      rintro rfl
      have hinner : (Path.mk q).inner = [] := hq ▸ inner_dotted h
      rw [inner, hsegments, List.filterMap_append, List.filterMap_cons_some (b := Part.name "node_modules") (by decide)]
        at hinner
      exact List.append_ne_nil_of_right_ne_nil _ (List.cons_ne_nil _ _) hinner
    have htail : first ∈ (Path.mk q).segments.tail := by
      rw [hsegments, hfirst]
      cases dots with
      | nil => exact List.mem_cons_self
      | cons _ dots => exact List.mem_append_right dots (List.mem_cons_of_mem _ List.mem_cons_self)
    obtain ⟨part, hpart, rfl⟩ := exists_part_of_mem_tail h hne (hq ▸ htail)
    rw [Bool.eq_false_iff]
    intro habsolute
    have hcounts := (h part hpart).2
    rw [((isAbsolute_iff_of_segments hfirst).mp habsolute).1] at hcounts
    cases hcounts

end

end TemplateCompiler.Path
