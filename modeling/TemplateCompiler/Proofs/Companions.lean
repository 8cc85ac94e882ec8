import TemplateCompiler.Proofs.Path.Place
import TemplateCompiler.Proofs.Text.ByteOrder
import TemplateCompiler.Proofs.Text.LastDot

/-!
# Companions by name

Which of the files beside a template are its companions. A name has the role that the convention gives it
(`Role.ofName_eq_some_iff`), whatever dots the name of the template has, since only the last two dots of a name
count. Each role goes to the least name in the order of bytes that has it, so all that matters of a listing is
which names are in it (`companions_of_listing`).
-/

namespace TemplateCompiler

/-! ## The naming convention -/

/-- The word in the name of a companion. -/
def Role.kind : Role → String
  | .style => "style"
  | .package => "package"
  | .component => "component"
  | .browser => "component-browser"

/-- The extension is one that companions of this role have: `json` for a package, else any word. -/
def Role.TakesExtension (role : Role) (extension : String) : Prop :=
  match role with
  | .package => extension = "json"
  | .style | .component | .browser => extension ≠ "" ∧ extension.toList.all Text.isWord = true

/-- The name is one for a companion of a template: it is the name of the template, the word for the role and an
extension, with dots in between. The name `index` may be left out. -/
def Role.Fits (role : Role) (stem name : String) : Prop :=
  ∃ extension, role.TakesExtension extension ∧
    (name = stem ++ "." ++ (role.kind ++ "." ++ extension) ∨ stem = "index" ∧ name = role.kind ++ "." ++ extension)

/-- The companion that has a role. -/
def Companions.slot (c : Companions) : Role → Option String
  | .style => c.style
  | .package => c.package
  | .component => c.component
  | .browser => c.browser

/-! ## Names of companions -/

-- The words have no dots.
theorem Role.dot_not_mem_kind (role : Role) : '.' ∉ role.kind.toList := by
  cases role <;> decide

theorem Role.TakesExtension.dot_not_mem {role : Role} {extension : String} (h : role.TakesExtension extension) :
    '.' ∉ extension.toList := by
  have hword (h : extension ≠ "" ∧ extension.toList.all Text.isWord = true) : '.' ∉ extension.toList :=
    fun hdot => absurd (List.all_eq_true.mp h.2 '.' hdot) (by decide)
  cases role with
  | package =>
    rw [show extension = "json" from h]
    decide
  | style | component | browser => exact hword h

theorem Role.ofKind_eq_some_iff {kind extension : List Char} {role : Role} :
    Role.ofKind kind extension = some role ↔
      kind = role.kind.toList ∧ role.TakesExtension (String.ofList extension) := by
  have hword : (!extension.isEmpty && extension.all Text.isWord) = true ↔
      String.ofList extension ≠ "" ∧ (String.ofList extension).toList.all Text.isWord = true := by
    rw [Bool.and_eq_true, String.toList_ofList, ← String.toList_inj.ne, String.toList_ofList]
    simp
  simp only [Role.ofKind, Bool.and_eq_true (_ == _), hword, beq_iff_eq]
  constructor
  · intro h
    split at h
    · rename_i hstyle
      cases h
      exact hstyle
    split at h
    · rename_i hpackage
      cases h
      exact ⟨hpackage.1, String.toList_inj.mp (by rw [String.toList_ofList, hpackage.2])⟩
    split at h
    · rename_i hbrowser
      cases h
      exact hbrowser
    split at h
    · rename_i hcomponent
      cases h
      exact hcomponent
    · cases h
  · rintro ⟨rfl, hextension⟩
    cases role with
    | style => exact if_pos ⟨rfl, hextension⟩
    | package =>
      have hjson : extension = "json".toList := by rw [← hextension, String.toList_ofList]
      rw [if_neg (not_and_of_not_left _ (by decide)), if_pos ⟨rfl, hjson⟩]
    | component =>
      rw [if_neg (not_and_of_not_left _ (by decide)), if_neg (not_and_of_not_left _ (by decide)),
        if_neg (not_and_of_not_left _ (by decide)), if_pos ⟨rfl, hextension⟩]
    | browser =>
      rw [if_neg (not_and_of_not_left _ (by decide)), if_neg (not_and_of_not_left _ (by decide)),
        if_pos ⟨rfl, hextension⟩]

-- The role of a name that is split at its last two dots.
theorem Role.ofName_append {stem : String} (owner kind : List Char) {extension : List Char} {name : String}
    (hname : name.toList = owner ++ '.' :: kind ++ '.' :: extension) (hkind : '.' ∉ kind)
    (hextension : '.' ∉ extension) :
    Role.ofName stem name =
      if !owner.isEmpty && !owner.contains '\n' && owner == stem.toList then Role.ofKind kind extension else none := by
  rw [Role.ofName, hname, splitLastDot_append _ hextension, Option.bind_eq_bind, Option.bind_some]
  dsimp only
  rw [splitLastDot_append _ hkind]
  dsimp only
  cases !owner.isEmpty && !owner.contains '\n' && owner == stem.toList <;> rfl

-- The role of a name with only one dot.
theorem Role.ofName_of_not_mem {stem : String} {kind extension : List Char} {name : String}
    (hname : name.toList = kind ++ '.' :: extension) (hkind : '.' ∉ kind) (hextension : '.' ∉ extension) :
    Role.ofName stem name = if stem == "index" then Role.ofKind kind extension else none := by
  rw [Role.ofName, hname, splitLastDot_append _ hextension, Option.bind_eq_bind, Option.bind_some]
  dsimp only
  rw [splitLastDot_of_not_mem hkind]
  dsimp only
  cases stem == "index" <;> rfl

/-- A name without line feeds has a role for a template exactly if it is one for a companion with this role. -/
theorem Role.ofName_eq_some_iff {stem name : String} {role : Role} (hstem : stem ≠ "")
    (hname : '\n' ∉ name.toList) : Role.ofName stem name = some role ↔ role.Fits stem name := by
  constructor
  · intro h
    obtain ⟨⟨front, extension⟩, hsplit, -⟩ := Option.bind_eq_some_iff.mp h
    obtain ⟨hchars, hextension⟩ := splitLastDot_eq_some_iff.mp hsplit
    -- a second dot parts the name of the template from the kind; without one, the kind stands alone
    by_cases hdot : '.' ∈ front
    · obtain ⟨owner, kind, rfl, hkind⟩ := exists_last_dot hdot
      rw [Role.ofName_append owner kind hchars hkind hextension] at h
      split at h
      · rename_i howner
        obtain ⟨rfl, htakes⟩ := Role.ofKind_eq_some_iff.mp h
        refine ⟨String.ofList extension, htakes, .inl (String.toList_inj.mp ?_)⟩
        rw [hchars, beq_iff_eq.mp (Bool.and_eq_true_iff.mp howner).2]
        simp
      · cases h
    · rw [Role.ofName_of_not_mem hchars hdot hextension] at h
      split at h
      · rename_i hindex
        obtain ⟨rfl, htakes⟩ := Role.ofKind_eq_some_iff.mp h
        refine ⟨String.ofList extension, htakes, .inr ⟨beq_iff_eq.mp hindex, String.toList_inj.mp ?_⟩⟩
        rw [hchars]
        simp
      · cases h
  · rintro ⟨extension, htakes, rfl | ⟨rfl, rfl⟩⟩
    · have hchars : (stem ++ "." ++ (role.kind ++ "." ++ extension)).toList =
          stem.toList ++ '.' :: role.kind.toList ++ '.' :: extension.toList := by simp
      have hfeed : '\n' ∉ stem.toList := by
        intro h
        rw [hchars, List.append_assoc] at hname
        exact hname (List.mem_append_left _ h)
      have howner : (!stem.toList.isEmpty && !stem.toList.contains '\n' && stem.toList == stem.toList) = true := by
        simp [hstem, hfeed]
      rw [Role.ofName_append _ _ hchars role.dot_not_mem_kind htakes.dot_not_mem, if_pos howner]
      exact Role.ofKind_eq_some_iff.mpr ⟨rfl, by rwa [String.ofList_toList]⟩
    · have hchars : (role.kind ++ "." ++ extension).toList = role.kind.toList ++ '.' :: extension.toList := by simp
      rw [Role.ofName_of_not_mem hchars role.dot_not_mem_kind htakes.dot_not_mem,
        if_pos (beq_self_eq_true _)]
      exact Role.ofKind_eq_some_iff.mpr ⟨rfl, by rwa [String.ofList_toList]⟩

/-! ## The least name -/

theorem leastName_eq_none_iff {names : List String} : leastName names = none ↔ names = [] := by
  cases names with
  | nil => exact ⟨fun _ => rfl, fun _ => rfl⟩
  | cons name rest =>
    rw [leastName]
    cases leastName rest <;> simp

theorem leastName_spec {names : List String} {least : String} (h : leastName names = some least) :
    least ∈ names ∧ ∀ name ∈ names, least ≤ name := by
  induction names generalizing least with
  | nil => cases h
  | cons name rest ih =>
    rw [leastName] at h
    cases hrest : leastName rest with
    | none =>
      rw [hrest] at h
      cases h
      rw [leastName_eq_none_iff.mp hrest]
      exact ⟨List.mem_cons_self, List.forall_mem_singleton.mpr le_rfl⟩
    | some other =>
      rw [hrest] at h
      obtain ⟨hmem, hleast⟩ := ih hrest
      cases h
      split
      · rename_i hlt
        exact ⟨List.mem_cons_of_mem _ hmem, List.forall_mem_cons.mpr ⟨hlt.le, hleast⟩⟩
      · rename_i hge
        have hle : name ≤ other := not_lt.mp hge
        exact ⟨List.mem_cons_self, List.forall_mem_cons.mpr ⟨le_rfl, fun n hn => hle.trans (hleast n hn)⟩⟩

/-- The least name is the one that all others come behind. -/
theorem leastName_eq_some_iff {names : List String} {least : String} :
    leastName names = some least ↔ least ∈ names ∧ ∀ name ∈ names, least ≤ name := by
  refine ⟨leastName_spec, fun ⟨hmem, hleast⟩ => ?_⟩
  cases hother : leastName names with
  | none =>
    rw [leastName_eq_none_iff.mp hother] at hmem
    exact (List.not_mem_nil hmem).elim
  | some other =>
    obtain ⟨hmem', hleast'⟩ := leastName_spec hother
    exact congrArg some (le_antisymm (hleast' least hmem) (hleast other hmem'))

/-! ## The companions of a template -/

-- A template has some name in front of its extension.
theorem Path.fileStem_ne_empty {p : Path} {stem : String} (h : p.fileStem = some stem) : stem ≠ "" := by
  obtain ⟨name, hname, rfl⟩ := Option.map_eq_some_iff.mp h
  obtain ⟨d, -, hsteps⟩ := exists_parent_of_fileName hname
  have hmem : Part.name name ∈ p.steps := hsteps ▸ List.mem_append_right _ List.mem_cons_self
  have hne : name ≠ "" := by
    rintro rfl
    cases (isSegment_of_mem_steps hmem (by simp)).2
  unfold splitName
  dsimp only
  split
  · split
    · exact hne
    · rename_i hstem
      simpa using hstem
  · exact hne

namespace Companions

theorem slot_ofListing (stem : String) (names : List String) (role : Role) :
    (ofListing stem names).slot role =
      (leastName (names.filter fun name => Role.ofName stem name == some role)).map ("./" ++ ·) := by
  cases role <;> rfl

theorem ext_slot {c d : Companions} (h : ∀ role, c.slot role = d.slot role) : c = d := by
  obtain ⟨style, package, component, browser⟩ := c
  obtain ⟨style', package', component', browser'⟩ := d
  obtain rfl : style = style' := h .style
  obtain rfl : package = package' := h .package
  obtain rfl : component = component' := h .component
  obtain rfl : browser = browser' := h .browser
  rfl

section

variable {stem : String} {names : List String} (hstem : stem ≠ "") (hnames : ∀ name ∈ names, '\n' ∉ name.toList)

include hstem hnames

theorem mem_filter_ofName {role : Role} {name : String} :
    (name ∈ names.filter fun name => Role.ofName stem name == some role) ↔ name ∈ names ∧ role.Fits stem name := by
  rw [List.mem_filter, beq_iff_eq]
  exact and_congr_right fun h => Role.ofName_eq_some_iff hstem (hnames name h)

/-- Each role goes to the least of the names that fit it. -/
theorem slot_ofListing_eq_some_iff {role : Role} {slot : String} :
    (ofListing stem names).slot role = some slot ↔
      ∃ name ∈ names, role.Fits stem name ∧
        (∀ other ∈ names, role.Fits stem other → Text.bytes name ≤ Text.bytes other) ∧ slot = "./" ++ name := by
  rw [slot_ofListing, Option.map_eq_some_iff]
  simp only [leastName_eq_some_iff, mem_filter_ofName hstem hnames, Text.bytes_le_bytes]
  constructor
  · rintro ⟨name, ⟨⟨hmem, hfits⟩, hleast⟩, rfl⟩
    exact ⟨name, hmem, hfits, fun other hother hfits' => hleast other ⟨hother, hfits'⟩, rfl⟩
  · rintro ⟨name, hmem, hfits, hleast, rfl⟩
    exact ⟨name, ⟨⟨hmem, hfits⟩, fun other hother => hleast other hother.1 hother.2⟩, rfl⟩

theorem slot_ofListing_eq_none_iff {role : Role} :
    (ofListing stem names).slot role = none ↔ ∀ name ∈ names, ¬ role.Fits stem name := by
  rw [slot_ofListing, Option.map_eq_none_iff, leastName_eq_none_iff, List.eq_nil_iff_forall_not_mem]
  simp only [mem_filter_ofName hstem hnames, not_and]

/-- No name is the companion for two roles. -/
theorem eq_of_slot_ofListing {role role' : Role} {slot : String} (h : (ofListing stem names).slot role = some slot)
    (h' : (ofListing stem names).slot role' = some slot) : role = role' := by
  obtain ⟨name, hmem, hfits, -, rfl⟩ := (slot_ofListing_eq_some_iff hstem hnames).mp h
  obtain ⟨other, -, hfits', -, hother⟩ := (slot_ofListing_eq_some_iff hstem hnames).mp h'
  obtain rfl : name = other := (String.append_right_inj _).mp hother
  have hfeed := hnames name hmem
  have hsame := ((Role.ofName_eq_some_iff hstem hfeed).mpr hfits).symm.trans
    ((Role.ofName_eq_some_iff hstem hfeed).mpr hfits')
  exact Option.some.inj hsame

/-- All that matters of a listing is which names are in it. -/
theorem ofListing_congr {others : List String} (h : ∀ name, name ∈ others ↔ name ∈ names) :
    ofListing stem others = ofListing stem names := by
  have hothers : ∀ name ∈ others, '\n' ∉ name.toList := fun name hname => hnames name ((h name).mp hname)
  refine ext_slot fun role => Option.ext fun slot => ?_
  rw [slot_ofListing_eq_some_iff hstem hnames, slot_ofListing_eq_some_iff hstem hothers]
  simp only [h]

end

end Companions

/-- The companions of a template in a directory whose names have no line feeds: each role goes to the name that
fits it and is the least one in the order of bytes, and to none if no name fits it. No name has two roles. In
another listing of the same names, in any order and with any of them repeated, the companions are the same. -/
theorem companions_of_listing {storage : Storage} {p : Path} {readings : Nat} {stem : String} {names : List String}
    (hstem : p.fileStem = some stem) (hlist : storage.list readings p.directory = some names)
    (hnames : ∀ name ∈ names, '\n' ∉ name.toList) :
    (∀ role slot, (storage.companions p readings).1.slot role = some slot ↔
      ∃ name ∈ names, role.Fits stem name ∧
        (∀ other ∈ names, role.Fits stem other → Text.bytes name ≤ Text.bytes other) ∧ slot = "./" ++ name) ∧
    (∀ role, (storage.companions p readings).1.slot role = none ↔ ∀ name ∈ names, ¬ role.Fits stem name) ∧
    (∀ role role' slot, (storage.companions p readings).1.slot role = some slot →
      (storage.companions p readings).1.slot role' = some slot → role = role') ∧
    ∀ (other : Storage) n others, other.list n p.directory = some others →
      (∀ name, name ∈ others ↔ name ∈ names) → (other.companions p n).1 = (storage.companions p readings).1 := by
  have hcompanions {storage : Storage} {n : Nat} {names : List String}
      (hlist : storage.list n p.directory = some names) :
      (storage.companions p n).1 = Companions.ofListing stem names := by
    rw [Storage.companions, hstem, hlist]
    rfl
  have hne := Path.fileStem_ne_empty hstem
  rw [hcompanions hlist]
  refine ⟨fun role slot => Companions.slot_ofListing_eq_some_iff hne hnames,
    fun role => Companions.slot_ofListing_eq_none_iff hne hnames,
    fun role role' slot => Companions.eq_of_slot_ofListing hne hnames, fun other n others hothers hsame => ?_⟩
  rw [hcompanions hothers]
  exact Companions.ofListing_congr hne hnames hsame

/-- A template named `index`, with a style and a component of its own name and others without it. -/
theorem companions_of_listing_index :
    let p : Path := ⟨"src/index.marko"⟩
    let names := ["style.scss", "a.style.css", "index.style.css", "component.js", "index.component.js", "style.scss"]
    let storage := Storage.ofTable [(⟨"src"⟩, names)]
    let shuffled := Storage.ofTable [(⟨"src"⟩, names.reverse ++ names)]
    (storage.companions p 0).1.slot .style = some "./index.style.css" ∧
      (storage.companions p 0).1.slot .component = some "./component.js" ∧
      Role.style.Fits "index" "index.style.css" ∧
      (∀ other ∈ names, Role.style.Fits "index" other → Text.bytes "index.style.css" ≤ Text.bytes other) ∧
      (∀ name ∈ names, ¬ Role.package.Fits "index" name) ∧
      (shuffled.companions p 7).1 = (storage.companions p 0).1 := by
  intro p names storage shuffled
  have hstem : p.fileStem = some "index" := by decide +kernel
  have hlist : storage.list 0 p.directory = some names := by decide +kernel
  have hshuffled : shuffled.list 7 p.directory = some (names.reverse ++ names) := by decide +kernel
  have hstyle : (storage.companions p 0).1.slot .style = some "./index.style.css" := by decide +kernel
  have hcomponent : (storage.companions p 0).1.slot .component = some "./component.js" := by decide +kernel
  have hpackage : (storage.companions p 0).1.slot .package = none := by decide +kernel
  obtain ⟨hslot, hnone, -, hsame⟩ := companions_of_listing hstem hlist (by decide +kernel)
  obtain ⟨name, -, hfits, hleast, heq⟩ := (hslot .style _).mp hstyle
  obtain rfl : "index.style.css" = name := (String.append_right_inj "./").mp heq
  refine ⟨hstyle, hcomponent, hfits, hleast, (hnone .package).mp hpackage, hsame shuffled 7 _ hshuffled ?_⟩
  exact fun name => by simp

end TemplateCompiler
