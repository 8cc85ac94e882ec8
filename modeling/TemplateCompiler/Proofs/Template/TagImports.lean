import TemplateCompiler.Proofs.Text.Distinct
import TemplateCompiler.Template.TagImport

/-!
# Imports of tags, one after another

An import asks for a tag if it names the tag in angle brackets and there is a module behind the name
(`asksFor_iff`). Of imports that are resolved one after another, those that ask for a tag change, and what they ask
for is recorded in the order in which it is first seen (`areSettled_resolveAll`).
-/

namespace TemplateCompiler

open Text (AreFirstSeen distinctFrom distinctFrom_congr areFirstSeen_distinctFrom)

/-! ## What an import asks for -/

/-- A source that is a tag name in angle brackets. The name is not empty, and has no angle bracket and no blank. -/
structure IsTagSource (source name : String) : Prop where
  source_eq : source = "<" ++ name ++ ">"
  ne_empty : name ≠ ""
  bare : ∀ c ∈ name.toList, c ≠ '<' ∧ c ≠ '>' ∧ Text.isBlank c = false

/-- The module of a tag, as seen from a file: its template, or its renderer if there is no template. -/
inductive TagRegistry.Provides (registry : TagRegistry) (source : Path) (name : String) (entry : Path) : Prop
  | template {d : TagDefinition} (hlookup : registry.lookup source name = some d) (hentry : d.template = some entry)
  | renderer {d : TagDefinition} (hlookup : registry.lookup source name = some d) (hnone : d.template = none)
    (hentry : d.renderer = some entry)

/-- An import names a tag, and the request is for the module of that tag. -/
def Import.AsksFor (i : Import) (registry : TagRegistry) (source : Path) (working : Option Path) (request : String) :
    Prop :=
  ∃ name entry, IsTagSource i.source name ∧ registry.Provides source name entry ∧
    request = source.request entry.text working

namespace TagRegistry

theorem all_isBracketed_iff {cs : List Char} :
    cs.all isBracketed = true ↔ ∀ c ∈ cs, c ≠ '<' ∧ c ≠ '>' ∧ Text.isBlank c = false := by
  simp only [List.all_eq_true, isBracketed, Bool.and_eq_true, bne_iff_ne, Bool.not_eq_true', and_assoc]

theorem toList_bracketed (name : String) : ("<" ++ name ++ ">").toList = '<' :: (name.toList ++ ['>']) := by
  rw [String.toList_append, String.toList_append]
  rfl

theorem importedTag?_eq_some_iff {source name : String} :
    importedTag? source = some name ↔ IsTagSource source name := by
  constructor
  · intro h
    unfold importedTag? at h
    split at h
    case h_2 => cases h
    case h_1 rest hsource =>
      -- The name is what is left without the last character, which has to close the bracket.
      dsimp only at h
      split at h
      case isFalse => cases h
      case isTrue hname =>
        simp only [Bool.and_eq_true, beq_iff_eq, Bool.not_eq_true', List.isEmpty_eq_false_iff] at hname
        obtain ⟨⟨hlast, hempty⟩, hbare⟩ := hname
        obtain rfl := Option.some.inj h
        have hrest : rest = rest.dropLast ++ ['>'] := (List.dropLast_append_getLast? _ hlast).symm
        refine ⟨?_, fun h => hempty ?_, ?_⟩
        · rw [← String.toList_inj, hsource, toList_bracketed, String.toList_ofList]
          exact congrArg ('<' :: ·) hrest
        · rw [← String.toList_inj, String.toList_ofList] at h
          exact h
        · rw [String.toList_ofList]
          exact all_isBracketed_iff.mp hbare
  · rintro ⟨rfl, hempty, hbare⟩
    have hname : name.toList.isEmpty = false := by
      rw [List.isEmpty_eq_false_iff]
      exact fun h => hempty (String.toList_inj.mp h)
    unfold importedTag?
    rw [toList_bracketed]
    simp [hname, all_isBracketed_iff.mpr hbare]

theorem request?_eq_some_iff {registry : TagRegistry} {source : Path} {working : Option Path} {name request : String} :
    registry.request? source name working = some request ↔
      ∃ entry, registry.Provides source name entry ∧ request = source.request entry.text working := by
  unfold request? TagDefinition.entry
  constructor
  · intro h
    obtain ⟨d, hlookup, h⟩ := Option.bind_eq_some_iff.mp h
    obtain ⟨entry, hentry, h⟩ := Option.bind_eq_some_iff.mp h
    refine ⟨entry, ?_, (Option.some.inj h).symm⟩
    rcases Option.or_eq_some_iff.mp hentry with htemplate | ⟨hnone, hrenderer⟩
    · exact .template hlookup htemplate
    · exact .renderer hlookup hnone hrenderer
  · rintro ⟨entry, hprovides, rfl⟩
    rcases hprovides with ⟨hlookup, hentry⟩ | ⟨hlookup, hnone, hentry⟩
    · simp [hlookup, hentry]
    · simp [hlookup, hnone, hentry]

end TagRegistry

variable {registry : TagRegistry} {source : Path} {working : Option Path}

theorem Import.asksFor_iff {i : Import} {request : String} :
    i.AsksFor registry source working request ↔ registry.resolveImport source i.source working = some request := by
  unfold AsksFor TagRegistry.resolveImport
  constructor
  · rintro ⟨name, entry, hname, hentry⟩
    refine Option.bind_eq_some_iff.mpr ⟨name, TagRegistry.importedTag?_eq_some_iff.mpr hname, ?_⟩
    exact TagRegistry.request?_eq_some_iff.mpr ⟨entry, hentry⟩
  · intro h
    obtain ⟨name, hname, h⟩ := Option.bind_eq_some_iff.mp h
    obtain ⟨entry, hentry⟩ := TagRegistry.request?_eq_some_iff.mp h
    exact ⟨name, entry, TagRegistry.importedTag?_eq_some_iff.mp hname, hentry⟩

theorem Import.resolve_of_some {i : Import} {request : String}
    (h : registry.resolveImport source i.source working = some request) (m : Metadata) :
    i.resolve registry source m working = ({ i with source := request }, m.addTag request, true) := by
  unfold resolve
  rw [h]

/-! ## Tags that are recorded -/

theorem Metadata.addTag_eq (m : Metadata) (request : String) :
    m.addTag request = { m with tags := m.tags ++ if request ∈ m.tags then [] else [request] } := by
  unfold addTag
  by_cases h : request ∈ m.tags <;> simp [h]

/-- Tags are recorded one after another, those that are new in the order in which they are first seen. -/
theorem Metadata.foldl_addTag (requests : List String) (m : Metadata) :
    requests.foldl addTag m = { m with tags := m.tags ++ distinctFrom m.tags requests } := by
  induction requests generalizing m with
  | nil => simp [distinctFrom]
  | cons request rest ih =>
    rw [List.foldl_cons, ih, addTag_eq, distinctFrom]
    by_cases h : request ∈ m.tags
    · simp [h]
    · -- A new tag is put behind the others, but `distinctFrom` has what was seen last in front.
      have hsame : distinctFrom (m.tags ++ [request]) rest = distinctFrom (request :: m.tags) rest :=
        distinctFrom_congr (fun s => by simp [or_comm]) rest
      simp [h, hsame]

/-! ## One import after another -/

/-- Imports resolved one after another, with whether each was rewritten, and the record of their uses. -/
def Import.resolveAll (registry : TagRegistry) (source : Path) (working : Option Path) :
    List Import → Metadata → List (Import × Bool) × Metadata
  | [], m => ([], m)
  | i :: rest, m =>
    let (resolved, m, rewritten) := i.resolve registry source m working
    let (answers, m) := resolveAll registry source working rest m
    ((resolved, rewritten) :: answers, m)

/-- The requests of the imports that were rewritten. -/
def Import.requests (answers : List (Import × Bool)) : List String :=
  (answers.filter (·.2)).map (·.1.source)

/-- Imports are settled one after another. One that asks for a tag is rewritten: its source becomes the request, which
is recorded with the tags if it is not there yet. Any other stays as it is, and so does what is recorded. -/
inductive Import.AreSettled (registry : TagRegistry) (source : Path) (working : Option Path) :
    List Import → Metadata → List (Import × Bool) → Metadata → Prop
  | nil {m : Metadata} : AreSettled registry source working [] m [] m
  | rewritten {i : Import} {rest : List Import} {m m' : Metadata} {answers : List (Import × Bool)} {request : String}
    (hasks : i.AsksFor registry source working request)
    (hrest : AreSettled registry source working rest
      { m with tags := m.tags ++ if request ∈ m.tags then [] else [request] } answers m') :
    AreSettled registry source working (i :: rest) m (({ i with source := request }, true) :: answers) m'
  | kept {i : Import} {rest : List Import} {m m' : Metadata} {answers : List (Import × Bool)}
    (hasks : ∀ request, ¬ i.AsksFor registry source working request)
    (hrest : AreSettled registry source working rest m answers m') :
    AreSettled registry source working (i :: rest) m ((i, false) :: answers) m'

namespace Import.AreSettled

variable {imports : List Import} {m m' : Metadata} {answers : List (Import × Bool)}

theorem metadata_eq (h : AreSettled registry source working imports m answers m') :
    m' = (requests answers).foldl Metadata.addTag m := by
  induction h with
  | nil => rfl
  | rewritten hasks hrest ih => rw [ih, ← Metadata.addTag_eq]; rfl
  | kept hasks hrest ih => exact ih

end Import.AreSettled

/-- An import changes if and only if it asks for a tag, and what is recorded afterwards are the tags from before and
behind them the new requests, each once and in the order in which they are first seen. -/
theorem Import.areSettled_resolveAll (registry : TagRegistry) (source : Path) (working : Option Path)
    (imports : List Import) (m : Metadata) :
    AreSettled registry source working imports m (resolveAll registry source working imports m).1
        (resolveAll registry source working imports m).2 ∧
      ∃ added, (resolveAll registry source working imports m).2 = { m with tags := m.tags ++ added } ∧
        AreFirstSeen m.tags (requests (resolveAll registry source working imports m).1) added := by
  have hsettled : AreSettled registry source working imports m (resolveAll registry source working imports m).1
      (resolveAll registry source working imports m).2 := by
    induction imports generalizing m with
    | nil => exact .nil
    | cons i rest ih =>
      cases hresolve : registry.resolveImport source i.source working with
      | none =>
        rw [resolveAll, resolve_of_none hresolve]
        exact .kept (fun request h => by simp [asksFor_iff.mp h] at hresolve) (ih m)
      | some request =>
        rw [resolveAll, resolve_of_some hresolve, Metadata.addTag_eq]
        exact .rewritten (asksFor_iff.mpr hresolve) (ih _)
  refine ⟨hsettled, _, ?_, areFirstSeen_distinctFrom _ _⟩
  rw [← Metadata.foldl_addTag]
  exact hsettled.metadata_eq

end TemplateCompiler
