import Mathlib.Data.List.Basic
import Mathlib.Data.List.TakeWhile
import TemplateCompiler.Proofs.Text.Entities
import TemplateCompiler.Render.Markup
import TemplateCompiler.Text.Blank

/-!
# Attributes in markup

The markup of constant attributes is read back: each name up to where it ends, and each value up to its
closing quote (`readAttributes`). What is read are the names and the texts of the attributes that are not left
out, whether the text ends behind them or the tag does (`readAttributes_append`).
-/

namespace TemplateCompiler.Render

open Script (Literal literal?)
open Text (attributeEntities textEntities)

/-! ## Reading -/

/-- A character of an attribute name. -/
def isAttributeChar (c : Char) : Bool :=
  c != '=' && c != '>' && c != '\x22' && c != '\'' && !Text.isBlank c

/-- A name that an attribute can be given in markup. -/
def IsAttributeName (name : String) : Prop := name ≠ "" ∧ ∀ c ∈ name.toList, isAttributeChar c = true

instance (name : String) : Decidable (IsAttributeName name) :=
  decidable_of_iff (name ≠ "" ∧ name.toList.all isAttributeChar = true) (by rw [List.all_eq_true, IsAttributeName])

/-- The value at the start of a text, up to its closing quote, and the text behind it. There is none without an
equals sign. -/
def readValue? : List Char → Option (Option String × List Char)
  | '=' :: '\x22' :: quoted =>
    match quoted.dropWhile (· != '\x22') with
    | _ :: rest => some (some (attributeEntities.decode (String.ofList (quoted.takeWhile (· != '\x22')))), rest)
    | [] => none
  | rest => some (none, rest)

/-- The attribute at the start of a text, behind a blank: its name and its value. -/
def readAttribute? : List Char → Option ((String × Option String) × List Char)
  | ' ' :: cs =>
    let name := cs.takeWhile isAttributeChar
    if name.isEmpty then none
    else
      (readValue? (cs.dropWhile isAttributeChar)).map fun (value, rest) => ((String.ofList name, value), rest)
  | _ => none

theorem length_of_readValue? {cs rest : List Char} {value : Option String}
    (h : readValue? cs = some (value, rest)) : rest.length ≤ cs.length := by
  unfold readValue? at h
  split at h
  · rename_i quoted
    have hvalue := List.length_dropWhile_le (· != '\x22') quoted
    split at h
    · rename_i hrest
      cases h
      rw [hrest, List.length_cons] at hvalue
      rw [List.length_cons, List.length_cons]
      omega
    · cases h
  · cases h
    exact Nat.le_refl _

-- At least the blank is read.
theorem length_of_readAttribute? {cs rest : List Char} {a : String × Option String}
    (h : readAttribute? cs = some (a, rest)) : rest.length < cs.length := by
  unfold readAttribute? at h
  split at h
  · rename_i cs
    dsimp only at h
    split_ifs at h
    obtain ⟨⟨value, rest⟩, hvalue, heq⟩ := Option.map_eq_some_iff.mp h
    cases heq
    exact Nat.lt_succ_of_le
      (Nat.le_trans (length_of_readValue? hvalue) (List.length_dropWhile_le isAttributeChar cs))
  · cases h

/-- The attributes at the start of a text, as many as there are, and the text behind them. -/
def readAttributes (cs : List Char) : List (String × Option String) × List Char :=
  match _h : readAttribute? cs with
  | some (a, rest) => (a :: (readAttributes rest).1, (readAttributes rest).2)
  | none => ([], cs)
termination_by cs.length
decreasing_by all_goals exact length_of_readAttribute? _h

theorem readAttributes_of_some {cs rest : List Char} {a : String × Option String}
    (h : readAttribute? cs = some (a, rest)) :
    readAttributes cs = (a :: (readAttributes rest).1, (readAttributes rest).2) := by
  rw [readAttributes]
  split
  · rename_i heq
    rw [h] at heq
    cases heq
    rfl
  · rename_i heq
    rw [h] at heq
    cases heq

theorem readAttributes_of_none {cs : List Char} (h : readAttribute? cs = none) : readAttributes cs = ([], cs) := by
  rw [readAttributes]
  split
  · rename_i heq
    rw [h] at heq
    cases heq
  · rfl

/-! ## One attribute -/

section

variable {name : String} {rest : List Char}

-- A name is read up to where it ends.
theorem readAttribute?_append (hname : IsAttributeName name)
    (hrest : ∀ c ∈ rest.head?, isAttributeChar c = false) :
    readAttribute? (' ' :: (name.toList ++ rest)) =
      (readValue? rest).map fun (value, rest) => ((name, value), rest) := by
  have hempty : name.toList.isEmpty = false := by
    rw [List.isEmpty_eq_false_iff]
    exact fun h => hname.1 (String.toList_eq_nil_iff.mp h)
  have hrun : rest.takeWhile isAttributeChar = [] ∧ rest.dropWhile isAttributeChar = rest := by
    cases rest with
    | nil => exact ⟨rfl, rfl⟩
    | cons c rest =>
      have hc : isAttributeChar c = false := hrest c rfl
      simp [hc]
  rw [readAttribute?]
  dsimp only
  rw [List.takeWhile_append_of_pos hname.2, List.dropWhile_append_of_pos hname.2, hrun.1, hrun.2,
    List.append_nil, hempty, if_neg Bool.false_ne_true, String.ofList_toList]

theorem readValue?_of_ne (hrest : ∀ c ∈ rest.head?, c ≠ '=') : readValue? rest = some (none, rest) := by
  unfold readValue?
  split
  · exact absurd rfl (hrest '=' rfl)
  · rfl

/-- A value is read up to its closing quote, and as it was before it was escaped. -/
theorem readValue?_escapeAttribute (value : String) (rest : List Char) :
    readValue? ('=' :: '\x22' :: ((Text.escapeAttribute value).toList ++ '\x22' :: rest)) =
      some (some value, rest) := by
  have hescaped := Text.isEscaped_escapeAttribute value
  have hvalue : ∀ c ∈ (Text.escapeAttribute value).toList, (c != '\x22') = true := by
    intro c hc
    rw [bne_iff_ne]
    rintro rfl
    exact hescaped.clean ⟨'\x22', ['q', 'u', 'o', 't']⟩ (by decide) (by decide) hc
  rw [readValue?, List.dropWhile_append_of_pos hvalue, List.takeWhile_append_of_pos hvalue,
    List.dropWhile_cons_of_neg (by decide), List.takeWhile_cons_of_neg (by decide), List.append_nil,
    String.ofList_toList, hescaped.decode]

end

/-! ## All attributes -/

/-- What an attribute with a constant value shows: nothing at all, its name only, or its value behind its
name. -/
def shown? : Literal → Option (Option String)
  | .boolean false | .null | .undefined => none
  | .boolean true => some none
  | value => some (some value.text)

/-- The markup of an attribute that shows something is read as what it shows. -/
theorem readAttribute?_markup {name : String} (hname : IsAttributeName name) {value : Literal} {rest : List Char}
    (hrest : ∀ c ∈ rest.head?, c = ' ' ∨ c = '>') {shown : Option String}
    (hshown : shown? value = some shown) :
    readAttribute? ((value.attributeMarkup name).toList ++ rest) = some ((name, shown), rest) := by
  have hvalue (text : String) :
      (" " ++ name ++ "=\"" ++ Text.escapeAttribute text ++ "\"").toList ++ rest =
        ' ' :: (name.toList ++ '=' :: '\x22' :: ((Text.escapeAttribute text).toList ++ '\x22' :: rest)) := by
    simp
  have hread (text : String) :
      readAttribute? ((" " ++ name ++ "=\"" ++ Text.escapeAttribute text ++ "\"").toList ++ rest) =
        some ((name, some text), rest) := by
    rw [hvalue, readAttribute?_append hname, readValue?_escapeAttribute, Option.map_some]
    rintro c ⟨⟩
    decide
  cases value with
  | null => cases hshown
  | undefined => cases hshown
  | boolean b =>
    cases b with
    | false => cases hshown
    | true =>
      cases hshown
      have hmarkup : (" " ++ name).toList ++ rest = ' ' :: (name.toList ++ rest) := by simp
      rw [Literal.attributeMarkup, hmarkup, readAttribute?_append hname, readValue?_of_ne, Option.map_some]
      · intro c hc
        rcases hrest c hc with rfl | rfl <;> decide
      · intro c hc
        rcases hrest c hc with rfl | rfl <;> decide
  | string text =>
    cases hshown
    exact hread text
  | number x =>
    cases hshown
    exact hread x.markup

theorem attributeMarkup_of_shown?_eq_none {value : Literal} (h : shown? value = none) (name : String) :
    value.attributeMarkup name = "" := by
  cases value with
  | boolean b =>
    cases b with
    | false => rfl
    | true => cases h
  | null => rfl
  | undefined => rfl
  | string text => cases h
  | number x => cases h

-- The markup of an attribute is empty, or starts with a blank.
theorem head?_attributeMarkup (name : String) (value : Literal) (rest : List Char) {c : Char}
    (hc : c ∈ ((value.attributeMarkup name).toList ++ rest).head?) : c = ' ' ∨ c ∈ rest.head? := by
  cases hshown : shown? value with
  | none =>
    rw [attributeMarkup_of_shown?_eq_none hshown] at hc
    exact .inr hc
  | some shown =>
    have hblank : (value.attributeMarkup name).toList.head? = some ' ' := by
      cases value with
      | boolean b =>
        cases b with
        | false => cases hshown
        | true => simp [Literal.attributeMarkup]
      | null => cases hshown
      | undefined => cases hshown
      | string text => simp [Literal.attributeMarkup]
      | number x => simp [Literal.attributeMarkup]
    rw [List.head?_append, hblank] at hc
    cases hc
    exact .inl rfl

theorem head?_attributesMarkup (attributes : List (String × Literal)) {rest : List Char} {c : Char}
    (hc : c ∈ (attributes.flatMap (fun a => (a.2.attributeMarkup a.1).toList) ++ rest).head?) :
    c = ' ' ∨ c ∈ rest.head? := by
  induction attributes with
  | nil => exact .inr hc
  | cons a attributes ih =>
    rw [List.flatMap_cons, List.append_assoc] at hc
    exact (head?_attributeMarkup a.1 a.2 _ hc).elim .inl ih

-- What is behind the attributes is no attribute.
theorem readAttribute?_eq_none {rest : List Char} (hrest : ∀ c ∈ rest.head?, c = '>') :
    readAttribute? rest = none := by
  cases rest with
  | nil => rfl
  | cons c rest =>
    cases hrest c rfl
    rfl

/-- What attributes show is read from their markup, at its end or at the end of the tag that it stands in. -/
theorem readAttributes_append {attributes : List (String × Literal)}
    (hnames : ∀ a ∈ attributes, IsAttributeName a.1) {rest : List Char} (hrest : ∀ c ∈ rest.head?, c = '>') :
    readAttributes (attributes.flatMap (fun a => (a.2.attributeMarkup a.1).toList) ++ rest) =
      (attributes.filterMap fun a => (shown? a.2).map (a.1, ·), rest) := by
  induction attributes with
  | nil => exact readAttributes_of_none (readAttribute?_eq_none hrest)
  | cons a attributes ih =>
    obtain ⟨hname, hnames⟩ := List.forall_mem_cons.mp hnames
    rw [List.flatMap_cons, List.append_assoc]
    cases hshown : shown? a.2 with
    | none =>
      rw [attributeMarkup_of_shown?_eq_none hshown, List.filterMap_cons_none (by rw [hshown]; rfl)]
      exact ih hnames
    | some shown =>
      have hbehind : ∀ c ∈ (attributes.flatMap (fun a => (a.2.attributeMarkup a.1).toList) ++ rest).head?,
          c = ' ' ∨ c = '>' :=
        fun c hc => (head?_attributesMarkup attributes hc).imp_right (hrest c)
      rw [readAttributes_of_some (readAttribute?_markup hname hbehind hshown), ih hnames,
        List.filterMap_cons_some (by rw [hshown]; rfl)]

/-! ## Safety -/

/-- Escaped text holds no angle brackets, escaped attribute values no double quotes; each ampersand in them starts
an entity, and with characters in place of entities they are the same as before. For that reason the markup of
constant attributes shows what they do: read up to each closing quote, at its end or at the end of the tag, it
gives the names and values of the attributes that are not left out. -/
theorem markup_denotes (s : String) (attributes : List (String × Literal))
    (hnames : ∀ a ∈ attributes, IsAttributeName a.1) (rest : List Char) (hrest : ∀ c ∈ rest.head?, c = '>') :
    textEntities.IsEscaped s (Text.escapeText s) ∧ attributeEntities.IsEscaped s (Text.escapeAttribute s) ∧
      readAttributes ((String.join (attributes.map fun a => a.2.attributeMarkup a.1)).toList ++ rest) =
        (attributes.filterMap fun a => (shown? a.2).map (a.1, ·), rest) := by
  refine ⟨Text.isEscaped_escapeText s, Text.isEscaped_escapeAttribute s, ?_⟩
  rw [String.toList_join, List.flatMap_map]
  exact readAttributes_append hnames hrest

/-- A value with quotes and an entity of its own, between an attribute that is left out and one without a
value. -/
theorem markup_denotes_title :
    (∀ a ∈ [("hidden", Literal.null), ("title", .string "\"a\" &amp; b"), ("disabled", .boolean true)],
      IsAttributeName a.1) ∧
    (∀ c ∈ ['>', '<'].head?, c = '>') ∧
    readAttributes " title=\"&quot;a&quot; &amp;amp; b\" disabled><".toList =
      ([("title", some "\"a\" &amp; b"), ("disabled", none)], ['>', '<']) := by
  have hnames : ∀ a ∈ [("hidden", Literal.null), ("title", .string "\"a\" &amp; b"), ("disabled", .boolean true)],
      IsAttributeName a.1 := by decide +kernel
  have hrest : ∀ c ∈ ['>', '<'].head?, c = '>' := by simp
  have hmarkup : " title=\"&quot;a&quot; &amp;amp; b\" disabled><".toList = (String.join
      ([("hidden", Literal.null), ("title", .string "\"a\" &amp; b"), ("disabled", .boolean true)].map fun a =>
        a.2.attributeMarkup a.1)).toList ++ ['>', '<'] := by
    have hescaped : Text.escapeAttribute "\"a\" &amp; b" = "&quot;a&quot; &amp;amp; b" := by decide +kernel
    simp [Literal.attributeMarkup, Literal.text, hescaped, String.join]
  rw [hmarkup]
  exact ⟨hnames, hrest, (markup_denotes "&lt;" _ hnames _ hrest).2.2⟩

end TemplateCompiler.Render
