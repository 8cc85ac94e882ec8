import TemplateCompiler.Text.Markup

/-!
# Entities

What is escaped can be read back. The two ways to escape are one function of a table of entities
(`escapeTextChar_eq`, `escapeAttributeChar_eq`), so that each fact is proved once, for any table: no character
that has an entity is left, each ampersand starts an entity, and decoding gives the text back
(`isEscaped_escape`).
-/

namespace TemplateCompiler.Text

/-! ## Tables of entities -/

/-- An entity: a character, and the name that stands for it. -/
structure Entity where
  char : Char
  name : List Char
deriving DecidableEq, Repr

/-- An entity as it is written, its name between an ampersand and a semicolon. -/
def Entity.written (e : Entity) : List Char := '&' :: (e.name ++ [';'])

/-- The entities that are written for the characters of a text. The ampersand has one itself, and what has an
entity or ends one is no part of the names. -/
structure EntityTable where
  entities : List Entity
  ampersand : ∃ e ∈ entities, e.char = '&'
  semicolon : ∀ e ∈ entities, e.char ≠ ';' ∧ ';' ∉ e.name
  plain : ∀ e ∈ entities, ∀ e' ∈ entities, e.char ∉ e'.name
  distinct : ∀ e ∈ entities, ∀ e' ∈ entities, e.name = e'.name → e = e'

/-- The entities of text between tags. -/
def textEntities : EntityTable where
  entities := [⟨'&', ['a', 'm', 'p']⟩, ⟨'<', ['l', 't']⟩, ⟨'>', ['g', 't']⟩]
  ampersand := by decide
  semicolon := by decide
  plain := by decide
  distinct := by decide

/-- The entities of attribute values between double quotes. -/
def attributeEntities : EntityTable where
  entities := [⟨'&', ['a', 'm', 'p']⟩, ⟨'\x22', ['q', 'u', 'o', 't']⟩]
  ampersand := by decide
  semicolon := by decide
  plain := by decide
  distinct := by decide

namespace EntityTable

variable {t : EntityTable}

/-- A character, or the entity that is written for it. -/
def escapeChar (t : EntityTable) (c : Char) : List Char :=
  match t.entities.find? (·.char == c) with
  | some e => e.written
  | none => [c]

/-- A text with the character in place of each entity. The number says how many characters of the last entity
are still to be left out. -/
def decodeFrom (t : EntityTable) : Nat → List Char → List Char
  | _, [] => []
  | skip + 1, _ :: rest => decodeFrom t skip rest
  | 0, c :: rest =>
    match t.entities.find? fun e => e.written.isPrefixOf (c :: rest) with
    | some e => e.char :: decodeFrom t (e.name.length + 1) rest
    | none => c :: decodeFrom t 0 rest

/-- The text that a text with entities stands for. -/
def decode (t : EntityTable) (escaped : String) : String := String.ofList (t.decodeFrom 0 escaped.toList)

/-- A text stands for another one, and holds nothing else that could be taken for markup. -/
structure IsEscaped (t : EntityTable) (s escaped : String) : Prop where
  /-- Of the characters that have an entity, only ampersands are left. -/
  clean : ∀ e ∈ t.entities, e.char ≠ '&' → e.char ∉ escaped.toList
  /-- Wherever an ampersand stands, an entity starts. -/
  starts : ∀ rest, '&' :: rest <:+ escaped.toList → ∃ e ∈ t.entities, e.written <+: '&' :: rest
  decode : t.decode escaped = s

/-! ## Escaping -/

-- A character has one entity, or none and is no ampersand.
theorem escapeChar_cases (t : EntityTable) (c : Char) :
    (∃ e ∈ t.entities, e.char = c ∧ t.escapeChar c = e.written) ∨
      ((∀ e ∈ t.entities, e.char ≠ c) ∧ c ≠ '&' ∧ t.escapeChar c = [c]) := by
  unfold escapeChar
  cases hfind : t.entities.find? (·.char == c) with
  | some e =>
    have hchar := List.find?_some hfind
    exact .inl ⟨e, List.mem_of_find?_eq_some hfind, beq_iff_eq.mp hchar, rfl⟩
  | none =>
    have hnone : ∀ e ∈ t.entities, e.char ≠ c := by simpa using hfind
    refine .inr ⟨hnone, ?_, rfl⟩
    rintro rfl
    obtain ⟨e, he, hchar⟩ := t.ampersand
    exact hnone e he hchar

theorem not_mem_escapeChar {e : Entity} (he : e ∈ t.entities) (hchar : e.char ≠ '&') (c : Char) :
    e.char ∉ t.escapeChar c := by
  rcases t.escapeChar_cases c with ⟨e', he', -, hwritten⟩ | ⟨hnone, -, hsame⟩
  · rw [hwritten, Entity.written, List.mem_cons, List.mem_append, List.mem_singleton]
    rintro (h | h | h)
    · exact hchar h
    · exact t.plain e he e' he' h
    · exact (t.semicolon e he).1 h
  · rw [hsame, List.mem_singleton]
    exact hnone e he

-- An ampersand behind characters other than ampersands belongs to what follows them.
theorem suffix_of_suffix_append {cs rest tail : List Char} (hcs : '&' ∉ cs)
    (h : '&' :: rest <:+ cs ++ tail) : '&' :: rest <:+ tail := by
  induction cs with
  | nil => exact h
  | cons c cs ih =>
    rw [List.mem_cons, not_or] at hcs
    rw [List.cons_append] at h
    rcases List.suffix_cons_iff.mp h with h | h
    · cases h
      exact absurd rfl hcs.1
    · exact ih hcs.2 h

theorem exists_entity_of_suffix {cs rest : List Char} (h : '&' :: rest <:+ cs.flatMap t.escapeChar) :
    ∃ e ∈ t.entities, e.written <+: '&' :: rest := by
  induction cs with
  | nil => simp at h
  | cons c cs ih =>
    rw [List.flatMap_cons] at h
    rcases t.escapeChar_cases c with ⟨e, he, -, hwritten⟩ | ⟨-, hc, hsame⟩
    · rw [hwritten, Entity.written, List.cons_append] at h
      rcases List.suffix_cons_iff.mp h with h | h
      · exact ⟨e, he, _, h.symm⟩
      · -- behind its own ampersand, an entity holds no other one
        obtain ⟨a, ha, hamp⟩ := t.ampersand
        have hname : '&' ∉ e.name ++ [';'] := by
          have hplain := t.plain a ha e he
          rw [hamp] at hplain
          simpa using hplain
        exact ih (suffix_of_suffix_append hname h)
    · rw [hsame] at h
      exact ih (suffix_of_suffix_append (by simpa using Ne.symm hc) h)

/-! ## Decoding -/

theorem decodeFrom_append (cs tail : List Char) :
    t.decodeFrom cs.length (cs ++ tail) = t.decodeFrom 0 tail := by
  induction cs with
  | nil => rfl
  | cons c cs ih => exact ih

-- Names end at their semicolons.
theorem eq_of_isPrefix_written {e e' : Entity} (he : e ∈ t.entities) (he' : e' ∈ t.entities) {tail : List Char}
    (h : e'.written <+: e.written ++ tail) : e' = e := by
  obtain ⟨more, hmore⟩ := h
  have hrun (d : Entity) (hd : d ∈ t.entities) (cs : List Char) :
      (d.name ++ ';' :: cs).takeWhile (· != ';') = d.name := by
    have hname : ∀ c ∈ d.name, (c != ';') = true := by
      intro c hc
      rw [bne_iff_ne]
      rintro rfl
      exact (t.semicolon d hd).2 hc
    simp [List.takeWhile_append_of_pos hname]
  have hnames : e'.name ++ ';' :: more = e.name ++ ';' :: tail := by
    simpa [Entity.written] using hmore
  refine t.distinct e' he' e he ?_
  rw [← hrun e' he' more, hnames, hrun e he tail]

theorem decodeFrom_written {e : Entity} (he : e ∈ t.entities) (tail : List Char) :
    t.decodeFrom 0 (e.written ++ tail) = e.char :: t.decodeFrom 0 tail := by
  have hfind : t.entities.find? (fun d => d.written.isPrefixOf (e.written ++ tail)) = some e := by
    cases hfind : t.entities.find? fun d => d.written.isPrefixOf (e.written ++ tail) with
    | none =>
      have hnone := List.find?_eq_none.mp hfind e he
      exact absurd (List.isPrefixOf_iff_prefix.mpr (List.prefix_append _ _)) hnone
    | some d =>
      have hfound := List.find?_some hfind
      rw [eq_of_isPrefix_written he (List.mem_of_find?_eq_some hfind) (List.isPrefixOf_iff_prefix.mp hfound)]
  have hlength : e.name.length + 1 = (e.name ++ [';']).length := by simp
  rw [Entity.written, List.cons_append] at hfind ⊢
  rw [decodeFrom, hfind]
  dsimp only
  rw [hlength, decodeFrom_append]

theorem decodeFrom_cons {c : Char} (hc : c ≠ '&') (tail : List Char) :
    t.decodeFrom 0 (c :: tail) = c :: t.decodeFrom 0 tail := by
  have hfind : t.entities.find? (fun e => e.written.isPrefixOf (c :: tail)) = none := by
    refine List.find?_eq_none.mpr fun e _ hprefix => ?_
    obtain ⟨more, hmore⟩ := List.isPrefixOf_iff_prefix.mp hprefix
    cases hmore
    exact hc rfl
  rw [decodeFrom, hfind]

theorem decodeFrom_flatMap (cs : List Char) : t.decodeFrom 0 (cs.flatMap t.escapeChar) = cs := by
  induction cs with
  | nil => rfl
  | cons c cs ih =>
    rw [List.flatMap_cons]
    rcases t.escapeChar_cases c with ⟨e, he, hchar, hwritten⟩ | ⟨-, hc, hsame⟩
    · rw [hwritten, decodeFrom_written he, ih, hchar]
    · rw [hsame, List.singleton_append, decodeFrom_cons hc, ih]

/-- Whatever the table is, what is escaped by it is safe, and nothing of the text is lost. -/
theorem isEscaped_escape (t : EntityTable) {s escaped : String}
    (h : escaped.toList = s.toList.flatMap t.escapeChar) : t.IsEscaped s escaped where
  clean e he hchar hmem := by
    rw [h] at hmem
    obtain ⟨c, -, hc⟩ := List.mem_flatMap.mp hmem
    exact not_mem_escapeChar he hchar c hc
  starts rest hsuffix := by
    rw [h] at hsuffix
    exact exists_entity_of_suffix hsuffix
  decode := by rw [decode, h, decodeFrom_flatMap, String.ofList_toList]

end EntityTable

/-! ## Text and attribute values -/

theorem escapeTextChar_eq (c : Char) : escapeTextChar c = textEntities.escapeChar c := by
  by_cases hamp : c = '&'
  · subst hamp
    decide
  by_cases hless : c = '<'
  · subst hless
    decide
  by_cases hgreater : c = '>'
  · subst hgreater
    decide
  simp [escapeTextChar, EntityTable.escapeChar, textEntities, hamp, hless, hgreater, Ne.symm hamp,
    Ne.symm hless, Ne.symm hgreater]

theorem escapeAttributeChar_eq (c : Char) : escapeAttributeChar c = attributeEntities.escapeChar c := by
  by_cases hamp : c = '&'
  · subst hamp
    decide
  by_cases hquote : c = '\x22'
  · subst hquote
    decide
  simp [escapeAttributeChar, EntityTable.escapeChar, attributeEntities, hamp, hquote, Ne.symm hamp,
    Ne.symm hquote]

theorem isEscaped_escapeText (s : String) : textEntities.IsEscaped s (escapeText s) := by
  apply EntityTable.isEscaped_escape
  rw [toList_escapeText, funext escapeTextChar_eq]

theorem isEscaped_escapeAttribute (s : String) : attributeEntities.IsEscaped s (escapeAttribute s) := by
  apply EntityTable.isEscaped_escape
  rw [toList_escapeAttribute, funext escapeAttributeChar_eq]

example : textEntities.decode "&amp;lt; &lt;&#38;" = "&lt; <&#38;" := by decide +kernel

end TemplateCompiler.Text
