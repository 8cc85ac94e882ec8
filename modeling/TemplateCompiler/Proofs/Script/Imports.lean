import TemplateCompiler.Proofs.Script.TokenReading
import TemplateCompiler.Text.Layout

/-!
# Import declarations as they are generated

A generated declaration imports the default export of a module, other exports of it, or both. Its text is read as the
declaration that it is (`parseModule_unlines`), if the exports have the names of words and are bound to variables.
-/

namespace TemplateCompiler.Script

open Grammar

/-- An import declaration: the module, the name that its default export is bound to, if it is imported, and the names
of other exports with those that they are bound to. -/
structure ImportDeclaration where
  source : String
  default : Option String
  named : List (String × String)

namespace ImportDeclaration

/-! ## Text -/

/-- The specifier of an export. -/
def specifier (b : String × String) : String := if b.1 = b.2 then b.2 else b.1 ++ " as " ++ b.2

/-- The specifiers of exports, in braces. -/
def braces (named : List (String × String)) : String :=
  "\x7b " ++ String.intercalate ", " (named.map specifier) ++ " \x7d"

/-- What is imported. -/
def clause (d : ImportDeclaration) : String :=
  match d.default with
  | some name => if d.named.isEmpty then name else name ++ ", " ++ braces d.named
  | none => braces d.named

/-- The declaration as it is written. -/
def text (d : ImportDeclaration) : String := "import " ++ d.clause ++ " from " ++ Json.quote d.source ++ ";"

/-- Exports are named by words, and bound to variables. -/
structure IsWritable (d : ImportDeclaration) : Prop where
  default : ∀ name ∈ d.default, isVariable name = true
  named : ∀ b ∈ d.named, isIdentifierName b.1 = true ∧ isVariable b.2 = true

/-! ## Tokens -/

/-- The tokens of a specifier. -/
def specifierTokens (b : String × String) : List Token :=
  if b.1 = b.2 then [.name b.2 false] else [.name b.1 false, .name "as" false, .name b.2 false]

/-- The tokens of specifiers in braces. -/
def bracesTokens (named : List (String × String)) : List Token :=
  .symbol "\x7b" :: ([Token.symbol ","].intercalate (named.map specifierTokens) ++ [.symbol "\x7d"])

/-- The tokens of what is imported. -/
def clauseTokens (d : ImportDeclaration) : List Token :=
  match d.default with
  | some name => .name name false :: if d.named.isEmpty then [] else .symbol "," :: bracesTokens d.named
  | none => bracesTokens d.named

/-- The tokens of a declaration. -/
def tokens (d : ImportDeclaration) : List Token :=
  .name "import" false :: (d.clauseTokens ++ [.name "from" false, .string (quoted d.source), .symbol ";"])

section

variable {cs : List Char} {ts : List Token} {c : Char} (h : IsSpelled (c :: cs) ts) (hc : EndsName c)

theorem endsName_blank : EndsName ' ' := endsName_of_mem (by decide)

include h hc

theorem isSpelled_specifier {b : String × String} (hname : isIdentifierName b.1 = true)
    (hlocal : isVariable b.2 = true) :
    IsSpelled ((specifier b).toList ++ c :: cs) (specifierTokens b ++ ts) := by
  have hbound := h.word (isIdentifierName_of_isVariable hlocal) hc
  unfold specifier specifierTokens
  split
  · exact hbound
  · have has := hbound.blank.word (x := "as") (by decide) endsName_blank
    have hall := has.blank.word hname endsName_blank
    simpa [String.toList_append] using hall

theorem isSpelled_specifiers {named : List (String × String)}
    (hnamed : ∀ b ∈ named, isIdentifierName b.1 = true ∧ isVariable b.2 = true) :
    IsSpelled ((String.intercalate ", " (named.map specifier)).toList ++ c :: cs)
      ([Token.symbol ","].intercalate (named.map specifierTokens) ++ ts) := by
  rw [String.toList_intercalate]
  induction named with
  | nil => exact h
  | cons b rest ih =>
    obtain ⟨hname, hlocal⟩ := hnamed b List.mem_cons_self
    cases rest with
    | nil => simpa using isSpelled_specifier h hc hname hlocal
    | cons b' rest =>
      have hrest := ih fun b hb => hnamed b (List.mem_cons_of_mem _ hb)
      have hcomma := hrest.blank.cons (nextToken_comma _)
      have hends : EndsName ',' := endsName_of_mem (by decide)
      simpa using isSpelled_specifier hcomma hends hname hlocal

end

theorem isSpelled_braces {cs : List Char} {ts : List Token} (h : IsSpelled cs ts) {named : List (String × String)}
    (hnamed : ∀ b ∈ named, isIdentifierName b.1 = true ∧ isVariable b.2 = true) :
    IsSpelled ((braces named).toList ++ cs) (bracesTokens named ++ ts) := by
  have hclose := h.cons (c := '\x7d') rfl
  have hspecifiers := isSpelled_specifiers hclose.blank endsName_blank hnamed
  have hopen := hspecifiers.blank.cons (c := '\x7b') rfl
  simpa [braces, bracesTokens, String.toList_append] using hopen

variable {d : ImportDeclaration}

theorem isSpelled_clause {cs : List Char} {ts : List Token} (h : IsSpelled (' ' :: cs) ts) (hd : d.IsWritable) :
    IsSpelled (d.clause.toList ++ ' ' :: cs) (d.clauseTokens ++ ts) := by
  have hbraces := isSpelled_braces h hd.named
  unfold clause clauseTokens
  split
  · rename_i name hname
    have hword := isIdentifierName_of_isVariable (hd.default name hname)
    split
    · exact h.word hword endsName_blank
    · have hends : EndsName ',' := endsName_of_mem (by decide)
      have hall := (hbraces.blank.cons (nextToken_comma _)).word hword hends
      simpa [String.toList_append] using hall
  · exact hbraces

/-- The text of a declaration, with its line feed, spells its tokens. -/
theorem isSpelled_text {cs : List Char} {ts : List Token} (h : IsSpelled cs ts) (hd : d.IsWritable) :
    IsSpelled ((d.text ++ "\n").toList ++ cs) (d.tokens ++ ts) := by
  have hend := (h.newline.cons (nextToken_semicolon_cons _)).quote d.source
  have hfrom := hend.blank.word (x := "from") (by decide) endsName_blank
  have hclause := isSpelled_clause hfrom.blank hd
  have himport := hclause.blank.word (x := "import") (by decide) endsName_blank
  simpa [text, tokens, String.toList_append] using himport

/-! ## Statements -/

/-- What a declaration binds, in the order in which it is written. -/
def bindings (d : ImportDeclaration) : List ImportBinding :=
  (d.default.map .default).toList ++ d.named.map fun b => .named (.name b.1) b.2

/-- The statement that a declaration is. -/
def statement (d : ImportDeclaration) : Statement := .imports (some d.bindings) (quoted d.source) []

section

variable {c : Context} {ts : List Token}

theorem takes_moduleName (x : String) (ts : List Token) : Takes moduleName (.name x false :: ts) (.name x) ts := by
  have hword : Takes word (.name x false :: ts) x ts :=
    (takes_peek _).bind ((takes_advance _ ts).bind (takes_pure x ts))
  exact (takes_peek _).bind (hword.bind (takes_pure _ ts))

theorem takes_namedImport {b : String × String} (hlocal : isVariable b.2 = true)
    (hts : ts.headD .finish ≠ .name "as" false) :
    Takes (namedImport c) (specifierTokens b ++ ts) (.named (.name b.1) b.2) ts := by
  have hname := allowsName_of_isVariable hlocal c
  unfold specifierTokens
  split
  · rename_i hsame
    refine (takes_moduleName b.2 ts).bind ((takes_eatWord_of_ne hts).bind ?_)
    rw [if_neg Bool.false_ne_true, hsame]
    exact (takes_guard hname ts).bind (takes_pure _ ts)
  · refine (takes_moduleName b.1 _).bind ((takes_eatWord "as" _).bind ?_)
    rw [if_pos rfl]
    exact (takes_identifier hname false ts).bind (takes_pure _ ts)

theorem specifierTokens_eq (b : String × String) : ∃ x ts, specifierTokens b = .name x false :: ts := by
  unfold specifierTokens
  split
  · exact ⟨_, _, rfl⟩
  · exact ⟨_, _, rfl⟩

theorem takes_importGroup {named : List (String × String)} (hnamed : ∀ b ∈ named, isVariable b.2 = true) :
    Takes (importGroup c) (bracesTokens named ++ ts) (named.map fun b => .named (.name b.1) b.2) ts := by
  refine (takes_atSymbol_of_ne (by simp [bracesTokens])).bind ?_
  rw [if_neg Bool.false_ne_true, bracesTokens, List.cons_append, List.append_assoc, List.singleton_append]
  have hfirst : ∀ b ∈ named, ∃ t us, specifierTokens b = t :: us ∧ t ≠ .symbol "\x7d" := by
    intro b _
    obtain ⟨x, us, hx⟩ := specifierTokens_eq b
    exact ⟨_, us, hx, nofun⟩
  have hitem : ∀ b ∈ named, ∀ s ∈ [",", "\x7d"], ∀ us,
      Takes (namedImport c) (specifierTokens b ++ .symbol s :: us) (.named (.name b.1) b.2) (.symbol s :: us) :=
    fun b hb s _ us => takes_namedImport (hnamed b hb) (by simp)
  exact (takes_bracketed (by decide) hfirst hitem ts).bind (takes_pure _ ts)

variable {d : ImportDeclaration}

theorem takes_importClause (hd : d.IsWritable) (hts : ts.headD .finish ≠ .symbol ",") :
    Takes (importClause c) (d.clauseTokens ++ ts) d.bindings ts := by
  have hgroup : Takes (importGroup c) (bracesTokens d.named ++ ts) (d.named.map fun b => .named (.name b.1) b.2) ts :=
    takes_importGroup fun b hb => (hd.named b hb).2
  unfold clauseTokens bindings
  split
  · rename_i name hname
    have hidentifier (us : List Token) := takes_identifier (allowsName_of_isVariable (hd.default name hname) c) false us
    rw [hname]
    refine (takes_peek _).bind ((hidentifier _).bind ?_)
    split
    · rename_i hnone
      rw [List.isEmpty_iff.mp hnone]
      refine (takes_eatSymbol_of_ne hts).bind ?_
      exact (takes_pure _ ts).bind (takes_pure _ ts)
    · refine (takes_eatSymbol "," _).bind ?_
      exact hgroup.bind (takes_pure _ ts)
  · rename_i hname
    rw [hname]
    exact (takes_peek _).bind hgroup

theorem clauseTokens_eq (d : ImportDeclaration) :
    (∃ name us, d.clauseTokens = .name name false :: us) ∨ ∃ us, d.clauseTokens = .symbol "\x7b" :: us := by
  unfold clauseTokens
  split
  · exact .inl ⟨_, _, rfl⟩
  · exact .inr ⟨_, rfl⟩

theorem takes_importRest (hd : d.IsWritable) (ts : List Token) :
    Takes (importRest c) (d.clauseTokens ++ .name "from" false :: .string (quoted d.source) :: .symbol ";" :: ts)
      d.statement ts := by
  have hsource : Takes stringText (.string (quoted d.source) :: .symbol ";" :: ts) (quoted d.source)
      (.symbol ";" :: ts) :=
    (takes_peek _).bind ((takes_advance _ _).bind (takes_pure _ _))
  have hattributes : Takes importAttributes (.symbol ";" :: ts) [] (.symbol ";" :: ts) :=
    (takes_eatWord_of_ne (by simp)).bind (takes_pure _ _)
  have hrest : Takes (do
      let source ← stringText
      let attributes ← importAttributes
      endStatement
      pure (.imports (some d.bindings) source attributes))
      (.string (quoted d.source) :: .symbol ";" :: ts) d.statement ts :=
    hsource.bind (hattributes.bind ((takes_endStatement ts).bind (takes_pure _ ts)))
  have hclause : Takes (importClause c)
      (d.clauseTokens ++ .name "from" false :: .string (quoted d.source) :: .symbol ";" :: ts) d.bindings
      (.name "from" false :: .string (quoted d.source) :: .symbol ";" :: ts) := takes_importClause hd (by simp)
  refine (takes_peek _).bind ?_
  -- What is imported starts with a name or with a brace, not with a string.
  rcases clauseTokens_eq d with ⟨name, us, htokens⟩ | ⟨us, htokens⟩
  all_goals
    rw [htokens] at hclause ⊢
    exact hclause.bind ((takes_expectWord "from" _).bind ((takes_pure (some d.bindings) _).bind hrest))

theorem takes_wordStatement (g : Rules) (hd : d.IsWritable) (ts : List Token) :
    Takes (wordStatement g .module "import") (d.tokens ++ ts) d.statement ts := by
  have hfunction (ts : List Token) : Takes atFunction (.name "import" false :: ts) false (.name "import" false :: ts) :=
    (takes_atWord "function" _).bind ((takes_atWord "async" _).bind (takes_pure _ _))
  have hvariables (ts : List Token) :
      Takes atVariables (.name "import" false :: ts) none (.name "import" false :: ts) :=
    (takes_peek _).bind (takes_pure _ _)
  have hrest := takes_importRest (c := .module) hd ts
  have htokens : d.tokens ++ ts = .name "import" false ::
      (d.clauseTokens ++ .name "from" false :: .string (quoted d.source) :: .symbol ";" :: ts) := by
    simp [tokens]
  rw [htokens]
  refine (hfunction _).bind ((hvariables _).bind ?_)
  have hoperand : Takes atImportOperand (.name "import" false ::
      (d.clauseTokens ++ .name "from" false :: .string (quoted d.source) :: .symbol ";" :: ts)) false
      (.name "import" false ::
      (d.clauseTokens ++ .name "from" false :: .string (quoted d.source) :: .symbol ";" :: ts)) := by
    rcases clauseTokens_eq d with ⟨name, us, hclause⟩ | ⟨us, hclause⟩
    · rw [hclause]
      exact takes_peekSecond fun newline => takes_pure _ _
    · rw [hclause]
      exact takes_peekSecond fun newline => takes_pure _ _
  refine hoperand.bind ?_
  rw [if_neg Bool.false_ne_true]
  exact (takes_guard rfl _).bind ((takes_advance _ _).bind hrest)

/-- A declaration is read as the statement that it is. -/
theorem takes_statementRule (g : Rules) (hd : d.IsWritable) (ts : List Token) :
    Takes (statementRule g .module) (d.tokens ++ ts) d.statement ts :=
  (takes_peek _).bind (takes_wordStatement g hd ts)

end

/-! ## Modules -/

theorem isSpelled_unlines {ds : List ImportDeclaration} (hds : ∀ d ∈ ds, d.IsWritable) :
    IsSpelled (Text.unlines (ds.map text)).toList (ds.flatMap tokens) := by
  induction ds with
  | nil => exact .nil
  | cons d rest ih =>
    have hrest := ih fun e he => hds e (List.mem_cons_of_mem _ he)
    have hlines : (Text.unlines ((d :: rest).map text)).toList =
        (d.text ++ "\n").toList ++ (Text.unlines (rest.map text)).toList := by
      simp [Text.unlines, String.join_cons]
    rw [hlines, List.flatMap_cons]
    exact isSpelled_text hrest (hds d List.mem_cons_self)

theorem markDirectives_map_statement (ds : List ImportDeclaration) :
    markDirectives (ds.map statement) = ds.map statement := by
  cases ds <;> rfl

theorem splitInterpreter_unlines (ds : List ImportDeclaration) :
    splitInterpreter (Text.unlines (ds.map text)).toList = (none, (Text.unlines (ds.map text)).toList) := by
  cases ds with
  | nil => rfl
  | cons d rest =>
    obtain ⟨cs, hcs⟩ : ∃ cs, (Text.unlines ((d :: rest).map text)).toList = 'i' :: cs := by
      simp [Text.unlines, String.join_cons, text, String.toList_append]
    rw [hcs]
    rfl

/-- Declarations, each on a line, are a module. -/
theorem parseModule_unlines {ds : List ImportDeclaration} (hds : ∀ d ∈ ds, d.IsWritable) :
    parseModule (Text.unlines (ds.map text)) = some ⟨none, ds.map statement⟩ := by
  obtain ⟨t, newline, rest, hnext, hbefore⟩ := (isSpelled_unlines hds).exists_nextToken
  have hreader : Reader.ofText (Text.unlines (ds.map text)).toList = some ⟨t, newline, rest, 0⟩ := by
    rw [Reader.ofText, hnext]
    rfl
  have hitems : Takes (moduleItems (Rules.forText (Text.unlines (ds.map text)).toList)) (ds.flatMap tokens)
      (ds.map statement) [] :=
    takes_moduleItems (fun d _ => ⟨_, _, rfl, by simp⟩) fun d hd us => takes_statementRule _ (hds d hd) us
  obtain ⟨r, hread, hend⟩ := hitems _ hbefore
  have hcovers : r.covers = 0 := by
    cases hend
    rfl
  have hexports : (ds.map statement).flatMap (·.exportedNames) = [] := by
    rw [List.flatMap_map]
    exact List.flatMap_eq_nil_iff.mpr fun d _ => rfl
  unfold parseModule
  rw [splitInterpreter_unlines]
  simp only [hreader, hread, hcovers, hexports, markDirectives_map_statement, Option.bind_eq_bind, Option.bind_some,
    isDistinct, beq_self_eq_true, guard, if_true, Option.map_none]
  rfl

end ImportDeclaration

end TemplateCompiler.Script
