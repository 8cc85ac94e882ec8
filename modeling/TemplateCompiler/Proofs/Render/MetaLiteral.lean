import TemplateCompiler.Proofs.Json.Reading
import TemplateCompiler.Proofs.Names
import TemplateCompiler.Proofs.Text.Layout
import TemplateCompiler.Render.Assembly

/-!
# The metadata object of a module

The object literal that is attached to a template is read back as the metadata object it was written for: as
the name that stands for the identifier, and the fields as they are encoded (`readLiteral_metaText`). It is
printed into a module as it is (`unlines_layout_metaText`).
-/

namespace TemplateCompiler

open Json (ReadsBack EndsWord IsValid isBlank skipBlanks readValue readList quote)
open Text (isPlainPart)

namespace Render

/-! ## Object literals -/

/-- What a property of an object is set to: what a name stands for, or a value. -/
inductive Operand where
  | name (name : String)
  | value (value : Json)

/-- An operand, after any blanks. Names start with a low line, values do not. -/
def readOperand (depth : Nat) (cs : List Char) : Option (Operand × List Char) :=
  match skipBlanks cs with
  | '_' :: rest =>
    some (.name (String.ofList ('_' :: rest.takeWhile isPlainPart)), rest.dropWhile isPlainPart)
  | cs => (readValue depth cs).map fun (j, rest) => (.value j, rest)

/-- A property of an object: its key, a colon and an operand. -/
def readProperty (depth : Nat) (cs : List Char) : Option ((String × Operand) × List Char) :=
  let key := (skipBlanks cs).takeWhile isPlainPart
  match skipBlanks ((skipBlanks cs).dropWhile isPlainPart) with
  | ':' :: rest => (readOperand depth rest).map fun (operand, rest) => ((String.ofList key, operand), rest)
  | _ => none

/-- The properties that an object literal sets. -/
def readLiteral (text : String) : Option (List (String × Operand)) :=
  match text.toList with
  | '\x7b' :: rest =>
    match readList (readProperty text.toList.length) '\x7d' rest with
    | some (properties, rest) => if (skipBlanks rest).isEmpty then some properties else none
    | none => none
  | _ => none

/-- A name that generated code uses. -/
def IsPlainName (name : String) : Prop := ∃ cs, name.toList = '_' :: cs ∧ ∀ c ∈ cs, isPlainPart c = true

theorem readOperand_name {name : String} (hname : IsPlainName name) (depth : Nat) {rest : List Char}
    (hrest : EndsWord rest) :
    readOperand depth (' ' :: (name.toList ++ rest)) = some (.name name, rest) := by
  obtain ⟨cs, hchars, hcs⟩ := hname
  obtain ⟨htake, hdrop⟩ := Text.takeWhile_run hcs fun c hc => (hrest c hc).1
  have hskip : skipBlanks (' ' :: (name.toList ++ rest)) = '_' :: (cs ++ rest) := by
    rw [hchars]
    rfl
  unfold readOperand
  rw [hskip]
  show some (Operand.name (String.ofList ('_' :: (cs ++ rest).takeWhile isPlainPart)),
    (cs ++ rest).dropWhile isPlainPart) = _
  rw [htake, hdrop, ← hchars, String.ofList_toList]

theorem readOperand_value {depth : Nat} {text : List Char} {j : Json}
    (h : ReadsBack (readValue depth) ']' text j) {rest : List Char} (hrest : EndsWord rest) :
    readOperand depth (' ' :: (text ++ rest)) = some (.value j, rest) := by
  obtain ⟨c, cs, htext, hblank, -⟩ := h.starts
  have hread : readValue depth (text ++ rest) = some (j, rest) :=
    h.reads [] rest (List.forall_mem_nil _) hrest
  have hne : c ≠ '_' := by
    rintro rfl
    rw [htext, List.cons_append] at hread
    have hnone : readValue depth ('_' :: (cs ++ rest)) = none := by
      cases depth with
      | zero =>
        rw [readValue, Json.skipBlanks_cons (by decide)]
        rfl
      | succ depth =>
        rw [readValue, Json.skipBlanks_cons (by decide)]
        rfl
    rw [hnone] at hread
    cases hread
  have hskip : skipBlanks (' ' :: (text ++ rest)) = c :: (cs ++ rest) := by
    rw [htext, List.cons_append]
    exact Json.skipBlanks_cons hblank _
  unfold readOperand
  rw [hskip]
  split
  · rename_i more heq
    exact absurd (List.cons.inj heq).1 hne
  · rw [← List.cons_append, ← htext, hread]
    rfl

theorem readsBack_property {key : String} {text : List Char} {operand : Operand} {depth : Nat}
    (hkey : ∃ c cs, key.toList = c :: cs) (hplain : key.toList.all isPlainPart = true)
    (h : ∀ rest, EndsWord rest → readOperand depth (' ' :: (text ++ rest)) = some (operand, rest)) :
    ReadsBack (readProperty depth) '\x7d' (key.toList ++ ':' :: ' ' :: text) (key, operand) := by
  obtain ⟨c, cs, hchars⟩ := hkey
  have hc : isPlainPart c = true := List.all_eq_true.mp hplain c (hchars ▸ List.mem_cons_self)
  have hblank : isBlank c = false := by
    rw [← Bool.not_eq_true]
    intro hblank
    rw [(Json.isPlainPart_of_isBlank hblank).1] at hc
    cases hc
  refine ⟨⟨c, cs ++ ':' :: ' ' :: text, by rw [hchars]; rfl, hblank, ?_⟩, fun gap rest hgap hrest => ?_⟩
  · rintro rfl
    exact absurd hc (by decide)
  · have hskip : skipBlanks (gap ++ (key.toList ++ ':' :: ' ' :: text ++ rest)) =
        key.toList ++ ':' :: ' ' :: (text ++ rest) := by
      rw [Json.skipBlanks_append hgap, List.append_assoc, hchars]
      exact Json.skipBlanks_cons hblank _
    have hstop : ∀ c ∈ (':' :: ' ' :: (text ++ rest)).head?, isPlainPart c = false := by
      rintro c ⟨⟩
      decide
    obtain ⟨htake, hdrop⟩ := Text.takeWhile_run (List.all_eq_true.mp hplain) hstop
    unfold readProperty
    dsimp only
    rw [hskip, htake, hdrop, Json.skipBlanks_cons (by decide)]
    show (readOperand depth (' ' :: (text ++ rest))).map _ = _
    rw [h rest hrest, Option.map_some, String.ofList_toList]

/-! ## The metadata object -/

/-- A property as it is written: its key, the text behind the colon and what is meant by it. -/
structure Entry where
  key : String
  text : String
  operand : Operand

/-- The characters of a property. -/
def Entry.chars (e : Entry) : List Char := e.key.toList ++ ':' :: ' ' :: e.text.toList

/-- The properties of the metadata object of a module. -/
def metaEntries (componentType : String) (t : TemplateMeta) : List Entry :=
  [⟨"id", componentType, .name componentType⟩] ++
    (t.component.map fun c => ⟨"component", quote c, .value (.string c)⟩).toList ++
    (if t.deps.isEmpty then [] else [⟨"deps", depsText t.deps, .value (.array t.deps)⟩]) ++
    (if t.tags.isEmpty then []
      else [⟨"tags", "[" ++ String.intercalate ", " (t.tags.map quote) ++ "]",
        .value (.array (t.tags.map .string))⟩])

section

variable {componentType : String} {t : TemplateMeta}

theorem map_toList_metaProperties : (metaProperties componentType t).map String.toList =
    (metaEntries componentType t).map Entry.chars := by
  unfold metaEntries metaProperties
  cases t.component <;> cases t.deps.isEmpty <;> cases t.tags.isEmpty <;> simp [Entry.chars]

/-- The properties are the name of the identifier, and the fields that are encoded behind it. -/
theorem exists_fields_metaEntries (componentType : String) (t : TemplateMeta) :
    ∃ fields, t.encode = .object (("id", .string t.id) :: fields) ∧
    (metaEntries componentType t).map (fun e => (e.key, e.operand)) =
      ("id", .name componentType) :: fields.map fun (key, value) => (key, .value value) := by
  refine ⟨(t.component.map fun c => ("component", Json.string c)).toList ++
    (if t.deps.isEmpty then [] else [("deps", Json.array t.deps)]) ++
    (if t.tags.isEmpty then [] else [("tags", Json.array (t.tags.map .string))]), ?_, ?_⟩
  · unfold TemplateMeta.encode
    rw [List.append_assoc, List.append_assoc, ← List.append_assoc (Option.toList _)]
    rfl
  · unfold metaEntries
    cases t.component <;> cases t.deps.isEmpty <;> cases t.tags.isEmpty <;> rfl

/-- What holds of each property that may be there holds of all that are. -/
theorem forall_mem_metaEntries {P : Entry → Prop} (hid : P ⟨"id", componentType, .name componentType⟩)
    (hcomponent : ∀ c, P ⟨"component", quote c, .value (.string c)⟩)
    (hdeps : P ⟨"deps", depsText t.deps, .value (.array t.deps)⟩)
    (htags : P ⟨"tags", "[" ++ String.intercalate ", " (t.tags.map quote) ++ "]",
      .value (.array (t.tags.map .string))⟩) :
    ∀ e ∈ metaEntries componentType t, P e := by
  unfold metaEntries
  refine List.forall_mem_append.mpr ⟨List.forall_mem_append.mpr ⟨List.forall_mem_append.mpr ⟨?_, ?_⟩, ?_⟩, ?_⟩
  · exact List.forall_mem_singleton.mpr hid
  · intro e he
    obtain ⟨c, -, rfl⟩ := Option.map_eq_some_iff.mp (Option.mem_toList.mp he)
    exact hcomponent c
  · split
    · exact List.forall_mem_nil _
    · exact List.forall_mem_singleton.mpr hdeps
  · split
    · exact List.forall_mem_nil _
    · exact List.forall_mem_singleton.mpr htags

theorem readsBack_metaEntries (hname : IsPlainName componentType) (hdeps : ∀ d ∈ t.deps, d.IsValid)
    {depth : Nat} : ∀ e ∈ metaEntries componentType t, e.text.toList.length < depth →
      ReadsBack (readProperty depth) '\x7d' e.chars (e.key, e.operand) := by
  have hvalue {key text : String} {j : Json} (hkey : ∃ c cs, key.toList = c :: cs)
      (hplain : key.toList.all isPlainPart = true) (h : ReadsBack (readValue depth) ']' text.toList j) :
      ReadsBack (readProperty depth) '\x7d' (Entry.mk key text (.value j)).chars (key, .value j) :=
    readsBack_property hkey hplain fun rest hrest => readOperand_value h hrest
  refine forall_mem_metaEntries (fun _ => ?_) (fun c _ => ?_) (fun hdepth => ?_) fun hdepth => ?_
  · have hid : ReadsBack (readProperty depth) '\x7d' ("id".toList ++ ':' :: ' ' :: componentType.toList)
        ("id", .name componentType) :=
      readsBack_property ⟨_, _, rfl⟩ (by decide) fun rest hrest => readOperand_name hname depth hrest
    exact hid
  · exact hvalue ⟨_, _, rfl⟩ (by decide) (Json.readsBack_string c depth)
  · exact hvalue ⟨_, _, rfl⟩ (by decide) 
      (Json.readValue_render (.array hdeps) ((IsValid.array hdeps).depth_le_length.trans hdepth.le))
  · obtain ⟨depth, rfl⟩ : ∃ d, depth = d + 1 :=
      Nat.exists_eq_succ_of_ne_zero (Nat.ne_zero_of_lt hdepth)
    apply hvalue ⟨_, _, rfl⟩ (by decide)
    have hgap : ∀ c ∈ [' '], isBlank c = true := List.forall_mem_singleton.mpr rfl
    have hitems : ∀ s ∈ t.tags, ReadsBack (readValue depth) ']' (quote s).toList (.string s) :=
      fun s _ => Json.readsBack_string s depth
    have hchars : ("[" ++ String.intercalate ", " (t.tags.map quote) ++ "]").toList =
        '[' :: (List.intercalate [',', ' '] (t.tags.map fun s => (quote s).toList) ++ [']']) := by
      simp [String.toList_intercalate, Function.comp_def]
    rw [hchars]
    exact Json.readsBack_array hgap hitems

end

theorem toList_metaText (componentType : String) (t : TemplateMeta) :
    (metaText componentType t).toList =
      '\x7b' :: (['\n', ' ', ' '] ++
        (List.intercalate [',', '\n', ' ', ' '] ((metaEntries componentType t).map Entry.chars) ++
          (['\n'] ++ ['\x7d']))) := by
  unfold metaText
  rw [String.toList_append, String.toList_append, String.toList_intercalate, map_toList_metaProperties]
  simp

/-- The metadata object is read back as the fields that are encoded, for all strings and all values. -/
theorem readLiteral_metaText {componentType : String} (hname : IsPlainName componentType)
    {t : TemplateMeta} (hdeps : ∀ d ∈ t.deps, d.IsValid) :
    ∃ fields, t.encode = .object (("id", .string t.id) :: fields) ∧
      readLiteral (metaText componentType t) =
        some (("id", .name componentType) :: fields.map fun (key, value) => (key, .value value)) := by
  obtain ⟨fields, hencode, hfields⟩ := exists_fields_metaEntries componentType t
  refine ⟨fields, hencode, ?_⟩
  have hchars := toList_metaText componentType t
  obtain ⟨depth, hdepth⟩ : ∃ depth, (metaText componentType t).toList.length = depth := ⟨_, rfl⟩
  -- the length of the whole text is depth enough for each value in it
  have hlength : ∀ e ∈ metaEntries componentType t, e.text.toList.length < depth := by
    intro e he
    have hle : e.chars.length ≤ (List.intercalate [',', '\n', ' ', ' ']
        ((metaEntries componentType t).map Entry.chars)).length :=
      Json.length_le_length_intercalate (List.mem_map_of_mem he)
    have hentry : e.chars.length = e.key.toList.length + (e.text.toList.length + 1 + 1) := by
      unfold Entry.chars
      rw [List.length_append, List.length_cons, List.length_cons]
    rw [← hdepth, hchars, List.length_cons, List.length_append, List.length_append]
    omega
  have hgap : ∀ c ∈ ['\n', ' ', ' '], isBlank c = true := List.all_eq_true.mp (by decide)
  have htail : ∀ c ∈ ['\n'], isBlank c = true := List.forall_mem_singleton.mpr rfl
  have hlist := Json.readList_intercalate (by decide) hgap htail []
    (fun e he => readsBack_metaEntries hname hdeps e he (hlength e he)) hgap
  have hread (properties : List Char) (h : (metaText componentType t).toList = '\x7b' :: properties) :
      readLiteral (metaText componentType t) =
        match readList (readProperty depth) '\x7d' properties with
        | some (properties, rest) => if (skipBlanks rest).isEmpty then some properties else none
        | none => none := by
    unfold readLiteral
    rw [hdepth, h]
    rfl
  rw [← hfields, hread _ hchars]
  change (match readList (readProperty depth) '\x7d' (_ ++ (_ ++ (['\n'] ++ '\x7d' :: []))) with
    | some (properties, rest) => if (skipBlanks rest).isEmpty then some properties else none
    | none => none) = _
  rw [hlist]
  rfl

end Render

/-! ## Layout -/

namespace Text

open Json (IsLine isLine_append isLine_cons)

/-- The characters of a text that is laid out at the left margin. -/
def laidOut (cs : List Char) : List Char :=
  (linesFrom [] cs).flatMap fun l => (if l.all isBlank then [] else l) ++ ['\n']

theorem toList_unlines_layout_zero (text : String) :
    (unlines (layout 0 text)).toList = laidOut (trimEndChars text.toList) := by
  have hline (l : List Char) :
      ((if isBlankText (String.ofList l) then "" else indent 0 (String.ofList l)) ++ "\n").toList =
        (if l.all isBlank then [] else l) ++ ['\n'] := by
    unfold isBlankText
    rw [indent_zero, String.toList_ofList]
    split <;> simp
  unfold unlines layout lines trimEnd laidOut
  rw [String.toList_join, String.toList_ofList, List.map_map, List.map_map, List.flatMap_map]
  exact List.flatMap_congr fun l _ => hline l

section

variable {l rest : List Char}

-- A line that is not blank, and is no more than that, stays; so does what comes behind it.
theorem laidOut_append (hl : IsLine l) (hne : l.all isBlank = false) (hrest : laidOut rest = rest ++ ['\n']) :
    laidOut (l ++ '\n' :: rest) = l ++ '\n' :: rest ++ ['\n'] := by
  unfold laidOut at hrest ⊢
  rw [linesFrom_append hl.1, List.append_nil, linesFrom, if_pos rfl, dropReturn_reverse hl.2,
    List.reverse_reverse, List.flatMap_cons, hrest, hne, if_neg Bool.false_ne_true]
  simp

theorem laidOut_line (hl : IsLine l) (hne : l.all isBlank = false) : laidOut l = l ++ ['\n'] := by
  have hlines : linesFrom [] l = [l] := by
    have happend := linesFrom_append hl.1 [] []
    rw [List.append_nil, List.append_nil] at happend
    have hempty : l.reverse.isEmpty = false := by
      rw [List.isEmpty_reverse]
      cases l with
      | nil => cases hne
      | cons c cs => rfl
    rw [happend, linesFrom, hempty, if_neg Bool.false_ne_true, List.reverse_reverse]
  unfold laidOut
  rw [hlines, List.flatMap_singleton, hne, if_neg Bool.false_ne_true]

end

end Text

namespace Render

open Json (IsLine isLine_append isLine_cons)

theorem IsPlainName.isLine {name : String} (h : IsPlainName name) : IsLine name.toList := by
  obtain ⟨cs, hchars, hcs⟩ := h
  rw [hchars]
  exact isLine_cons.mpr ⟨by decide, Json.isLine_of_forall hcs (by decide) (by decide)⟩

-- Each property is a line.
theorem isLine_metaEntries {componentType : String} (hname : IsPlainName componentType) {t : TemplateMeta}
    (hdeps : ∀ d ∈ t.deps, d.IsValid) : ∀ e ∈ metaEntries componentType t, IsLine e.chars := by
  have hentry {key text : String} {operand : Operand} (hkey : IsLine key.toList)
      (htext : IsLine text.toList) : IsLine (Entry.mk key text operand).chars :=
    isLine_append.mpr ⟨hkey, isLine_cons.mpr ⟨by decide, isLine_cons.mpr ⟨by decide, htext⟩⟩⟩
  refine forall_mem_metaEntries ?_ (fun c => ?_) ?_ ?_
  · exact hentry (by decide) hname.isLine
  · exact hentry (by decide) (Json.isLine_quote c)
  · exact hentry (by decide) (Json.isLine_render (.array hdeps))
  · apply hentry (by decide)
    have hquotes : ∀ l ∈ (t.tags.map quote).map String.toList, IsLine l := by
      rw [List.map_map]
      exact List.forall_mem_map.mpr fun s _ => Json.isLine_quote s
    have hlist : IsLine (List.intercalate ", ".toList ((t.tags.map quote).map String.toList)) :=
      Json.isLine_intercalate (by decide) hquotes
    rw [String.toList_append, String.toList_append, String.toList_intercalate]
    exact isLine_append.mpr ⟨isLine_append.mpr ⟨by decide, hlist⟩, by decide⟩

-- There is a colon in each property.
theorem all_isBlank_chars (e : Entry) : e.chars.all Text.isBlank = false := by
  have hcolon : Text.isBlank ':' = false := by decide
  unfold Entry.chars
  rw [List.all_append, List.all_cons, hcolon, Bool.false_and, Bool.and_false]

theorem laidOut_properties {es : List Entry} (hes : es ≠ []) (h : ∀ e ∈ es, IsLine e.chars) :
    let cs := ' ' :: ' ' :: (List.intercalate [',', '\n', ' ', ' '] (es.map Entry.chars) ++
      '\n' :: ['\x7d', ';'])
    Text.laidOut cs = cs ++ ['\n'] := by
  have hline {l : List Char} (hl : IsLine l) : IsLine (' ' :: ' ' :: l) :=
    isLine_cons.mpr ⟨by decide, isLine_cons.mpr ⟨by decide, hl⟩⟩
  have hblank : Text.isBlank ' ' = true := by decide
  induction es with
  | nil => exact absurd rfl hes
  | cons e es ih =>
    have he := h e List.mem_cons_self
    have hne := all_isBlank_chars e
    cases es with
    | nil =>
      rw [List.map_singleton, List.intercalate_singleton]
      have hend : Text.laidOut ['\x7d', ';'] = ['\x7d', ';'] ++ ['\n'] :=
        Text.laidOut_line (by decide) (by decide)
      apply Text.laidOut_append (hline he) _ hend
      rw [List.all_cons, List.all_cons, hblank, hne]
      rfl
    | cons f es =>
      have hrest := ih (List.cons_ne_nil f es) fun g hg => h g (List.mem_cons_of_mem e hg)
      have hcomma : IsLine (' ' :: ' ' :: (e.chars ++ [','])) :=
        hline (isLine_append.mpr ⟨he, by decide⟩)
      have happend := Text.laidOut_append hcomma (by
        rw [List.all_cons, List.all_cons, List.all_append, hblank, hne]
        rfl) hrest
      rw [List.map_cons, List.map_cons, List.intercalate_cons_cons, ← List.map_cons]
      simpa using happend

/-- The metadata object is printed as it is. -/
theorem unlines_layout_metaText {componentType template : String} (hname : IsPlainName componentType)
    (htemplate : IsPlainName template) {t : TemplateMeta} (hdeps : ∀ d ∈ t.deps, d.IsValid) :
    Text.unlines (ModuleItem.assign (template ++ ".meta") (metaText componentType t)).lines =
      template ++ ".meta = " ++ metaText componentType t ++ ";\n" := by
  let properties := ' ' :: ' ' :: (List.intercalate [',', '\n', ' ', ' ']
    ((metaEntries componentType t).map Entry.chars) ++ '\n' :: ['\x7d', ';'])
  have hchars : (template ++ ".meta" ++ " = " ++ metaText componentType t ++ ";").toList =
      template.toList ++ ".meta = \x7b".toList ++ '\n' :: properties := by
    rw [String.toList_append, String.toList_append, toList_metaText]
    simp [properties]
  have hproperties : Text.laidOut properties = properties ++ ['\n'] :=
    laidOut_properties (List.cons_ne_nil _ _) (isLine_metaEntries hname hdeps)
  have hstart : IsLine (template.toList ++ ".meta = \x7b".toList) :=
    isLine_append.mpr ⟨htemplate.isLine, by decide⟩
  have hne : (template.toList ++ ".meta = \x7b".toList).all Text.isBlank = false := by
    have hmeta : ".meta = \x7b".toList.all Text.isBlank = false := by decide
    rw [List.all_append, hmeta, Bool.and_false]
  have htrim : Text.trimEndChars (template ++ ".meta" ++ " = " ++ metaText componentType t ++ ";").toList =
      (template ++ ".meta" ++ " = " ++ metaText componentType t ++ ";").toList := by
    rw [String.toList_append]
    exact Text.trimEndChars_append_nonblank _ (by decide)
  apply String.toList_injective
  show (Text.unlines (Text.layout 0
    (template ++ ".meta" ++ " = " ++ metaText componentType t ++ ";"))).toList = _
  rw [Text.toList_unlines_layout_zero, htrim, hchars, Text.laidOut_append hstart hne hproperties, ← hchars]
  simp

end Render

/-- Generated names are plain. -/
theorem Names.isPlainName_fresh (names : Names) (hint : String) :
    Render.IsPlainName (names.fresh hint) := by
  obtain ⟨n, hn, -⟩ := Names.exists_fresh_eq names hint
  rw [hn]
  exact Names.exists_toList_candidate hint n

end TemplateCompiler
