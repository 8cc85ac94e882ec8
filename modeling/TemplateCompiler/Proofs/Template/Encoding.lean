import TemplateCompiler.Proofs.Json.Reading

/-!
# Programs read back

A program is decoded from the record that it is encoded as (`Program.decode_encode`): each item is taken for what
it is, and each field is shown, so that no default takes its place. Written as text, the record is read back
exactly if it does not nest too deep (`Program.decode_encode_render`).
-/

namespace TemplateCompiler

open Json (required nullable asString asBool asUInt32 asList IsValid)

/-! ## Records -/

namespace Json

theorem valuesOf_eq_nil {key : String} {ms : List (String × Json)} (h : key ∉ ms.map Prod.fst) :
    valuesOf key ms = [] := by
  refine List.filterMap_eq_nil_iff.mpr fun m hm => ?_
  have hne : m.1 ≠ key := fun heq => h (heq ▸ List.mem_map_of_mem hm)
  simp [hne]

theorem valuesOf_cons (key : String) (v : Json) {ms : List (String × Json)} (h : key ∉ ms.map Prod.fst) :
    valuesOf key ((key, v) :: ms) = [v] := by
  have hcons : valuesOf key ((key, v) :: ms) = v :: valuesOf key ms := by simp [valuesOf]
  rw [hcons, valuesOf_eq_nil h]

-- A member whose key no other one has is a field.
theorem field?_of_mem {ms : List (String × Json)} (h : (ms.map Prod.fst).Nodup) {m : String × Json}
    (hm : m ∈ ms) : field? m.1 ms = some (some m.2) := by
  have hvalues : valuesOf m.1 ms = [m.2] := by
    induction ms with
    | nil => cases hm
    | cons first ms ih =>
      rw [List.map_cons, List.nodup_cons] at h
      rcases List.mem_cons.mp hm with rfl | hm
      · exact valuesOf_cons m.1 m.2 h.1
      · have hne : first.1 ≠ m.1 := fun heq => h.1 (heq ▸ List.mem_map_of_mem hm)
        have hfirst : valuesOf m.1 (first :: ms) = valuesOf m.1 ms := by simp [valuesOf, hne]
        rw [hfirst, ih h.2 hm]
  simp [field?, hvalues]

theorem fields_object (ms : List (String × Json)) (h : (ms.map Prod.fst).Nodup) :
    (Json.object ms).fields (ms.map Prod.fst) = some (ms.map fun m => some m.2) := by
  have hfields (ns : List (String × Json)) (hns : ∀ m ∈ ns, m ∈ ms) :
      (ns.map Prod.fst).mapM (fun name => field? name ms) = some (ns.map fun m => some m.2) := by
    induction ns with
    | nil => rfl
    | cons m ns ih =>
      rw [List.forall_mem_cons] at hns
      simp [List.mapM_cons, field?_of_mem h hns.1, ih hns.2]
  exact hfields ms fun _ hm => hm

theorem tagged_object {key : String} (tag : Json) {ms : List (String × Json)} (h : key ∉ ms.map Prod.fst) :
    (Json.object ((key, tag) :: ms)).tagged key = some (tag, .object ms) := by
  have hrest : ms.filter (fun m => m.1 != key) = ms :=
    List.filter_eq_self.mpr fun m hm => by
      simpa using fun heq : m.1 = key => h (heq ▸ List.mem_map_of_mem hm)
  simp [tagged, valuesOf_cons key tag h, hrest]

/-! ## Fields -/

theorem required_some {α : Type} (decode : Json → Option α) (j : Json) : required decode (some j) = decode j := by
  simp only [required]

theorem optional_some {α : Type} (default : α) (decode : Json → Option α) (j : Json) :
    Json.optional default decode (some j) = decode j := by
  simp only [Json.optional]

theorem asString_string (s : String) : asString (.string s) = some s := by
  simp only [asString]

theorem asBool_boolean (b : Bool) : asBool (.boolean b) = some b := by
  simp only [asBool]

theorem asUInt32_toNat (n : UInt32) : asUInt32 (.integer n.toNat) = some n := by
  have hn : n.toNat < UInt32.size := n.toNat_lt_size
  simp [asUInt32, hn]

theorem asList_map {α : Type} {decode : Json → Option α} {encode : α → Json} {xs : List α}
    (h : ∀ x ∈ xs, decode (encode x) = some x) : asList decode (.array (xs.map encode)) = some xs := by
  show (xs.map encode).mapM decode = some xs
  induction xs with
  | nil => rfl
  | cons x xs ih =>
    rw [List.forall_mem_cons] at h
    simp [List.mapM_cons, h.1, ih h.2]

theorem asList_ofStrings (texts : List String) : asList asString (ofStrings texts) = some texts :=
  asList_map fun _ _ => rfl

theorem nullable_ofOption (text : Option String) : nullable asString (ofOption text) = some text := by
  cases text <;> rfl

theorem isValid_ofStrings (texts : List String) : IsValid (ofStrings texts) := by
  refine .array fun e he => ?_
  obtain ⟨s, -, rfl⟩ := List.mem_map.mp he
  exact .string s

theorem isValid_ofOption (text : Option String) : IsValid (ofOption text) := by
  cases text with
  | none => exact .null
  | some s => exact .string s

theorem isValid_ofNat {n : Nat} (h : n < 2 ^ 64) : IsValid (.integer n) := by
  have hn : IsInteger n := ⟨by omega, by omega⟩
  exact .integer hn

theorem depth_lt_of_mem_array {es : List Json} {e : Json} (he : e ∈ es) :
    e.depth < (Json.array es).depth := by
  have hle : e.depth ≤ depthOfElements es := depthOfElements_le_iff.mp (Nat.le_refl _) e he
  exact Nat.lt_succ_of_le hle

theorem depth_lt_of_mem_object {ms : List (String × Json)} {m : String × Json} (hm : m ∈ ms) :
    m.2.depth < (Json.object ms).depth := by
  have hle : m.2.depth ≤ depthOfMembers ms := depthOfMembers_le_iff.mp (Nat.le_refl _) m hm
  exact Nat.lt_succ_of_le hle

end Json

/-! ## Parts of nodes -/

-- The numbers are left open, so that nothing compares them with the greatest one.
theorem Location.decode_object {line column : Json} {l : Location} (hline : asUInt32 line = some l.line)
    (hcolumn : asUInt32 column = some l.column) :
    Location.decode (.object [("line", line), ("column", column)]) = some l := by
  have hfields := Json.fields_object [("line", line), ("column", column)] (by simp)
  simp only [List.map_cons, List.map_nil] at hfields
  simp [Location.decode, hfields, Json.required_some, hline, hcolumn]

theorem Location.decode_encode (l : Location) : Location.decode l.encode = some l :=
  Location.decode_object (Json.asUInt32_toNat l.line) (Json.asUInt32_toNat l.column)

theorem Marks.decode_encode (m : Marks) :
    Marks.decode (some (.boolean m.isStatic)) (some m.location.encode) = some m := by
  simp [Marks.decode, Json.optional_some, Json.asBool_boolean, m.location.decode_encode]

theorem TagName.decode_encode (n : TagName) : TagName.decode n.encode = some n := by
  cases n <;> rfl

theorem Attribute.decode_encode (a : Attribute) : Attribute.decode a.encode = some a := rfl

theorem Location.isValid_encode (l : Location) : IsValid l.encode := by
  have hnumber (n : UInt32) : IsValid (.integer n.toNat) := by
    have hn : n.toNat < UInt32.size := n.toNat_lt_size
    exact Json.isValid_ofNat (Nat.lt_of_lt_of_le hn (by decide))
  refine .object fun m hm => ?_
  rcases List.mem_pair.mp hm with rfl | rfl
  · exact hnumber l.line
  · exact hnumber l.column

theorem Marks.isValid_encode (m : Marks) : ∀ e ∈ m.encode, IsValid e.2 := by
  intro e he
  rcases List.mem_pair.mp he with rfl | rfl
  · exact .boolean _
  · exact m.location.isValid_encode

-- Records of texts.
theorem isValid_texts {ms : List (String × Json)} (h : ∀ m ∈ ms, ∃ s, m.2 = .string s) :
    IsValid (.object ms) := by
  refine .object fun m hm => ?_
  obtain ⟨s, hs⟩ := h m hm
  rw [hs]
  exact .string s

/-! ## Nodes -/

namespace Node

section

variable {m : Marks} {isStatic location : Json}

theorem decodeLeaf_object (field content : String) (leaf : String → Leaf)
    (h : [field, "static", "location"].Nodup) (hm : Marks.decode (some isStatic) (some location) = some m) :
    decodeLeaf field leaf (.object [(field, .string content), ("static", isStatic), ("location", location)]) =
      some (.leaf m (leaf content)) := by
  have hfields := Json.fields_object
    [(field, .string content), ("static", isStatic), ("location", location)] h
  simp only [List.map_cons, List.map_nil] at hfields
  simp [decodeLeaf, hfields, hm, Json.required_some, Json.asString_string]

theorem decodePlaceholder_object (expression : String) (escape : Bool)
    (hm : Marks.decode (some isStatic) (some location) = some m) :
    decodePlaceholder (.object [("expression", .string expression), ("escape", .boolean escape),
      ("static", isStatic), ("location", location)]) = some (.leaf m (.placeholder expression escape)) := by
  have hfields := Json.fields_object [("expression", .string expression), ("escape", .boolean escape),
    ("static", isStatic), ("location", location)] (by simp)
  simp only [List.map_cons, List.map_nil] at hfields
  simp [decodePlaceholder, hfields, hm, Json.required_some, Json.optional_some, Json.asString_string,
    Json.asBool_boolean]

theorem decodeBody_object (params : List String) {children : List Node} {decode : Json → Option Node}
    (h : ∀ n ∈ children, decode n.encode = some n) :
    decodeBody decode (.object [("params", Json.ofStrings params), ("children", .array (encodeAll children))]) =
      some (params, children) := by
  have hfields := Json.fields_object
    [("params", Json.ofStrings params), ("children", .array (encodeAll children))] (by simp)
  have hchildren : asList decode (.array (encodeAll children)) = some children := by
    rw [encodeAll_eq_map]
    exact Json.asList_map h
  simp only [List.map_cons, List.map_nil] at hfields
  simp [decodeBody, hfields, Json.optional_some, Json.asList_ofStrings, hchildren]

theorem decodeTag_object (t : Tag) {children : List Node} {decode : Json → Option Node} {body : Json}
    (hbody : decodeBody decode body = some (t.params, children))
    (hm : Marks.decode (some isStatic) (some location) = some m) :
    decodeTag decode (.object [
      ("name", t.name.encode), ("attributes", .array (t.attributes.map Attribute.encode)),
      ("arguments", Json.ofOption t.arguments), ("body", body), ("static", isStatic), ("location", location)]) =
      some (.tag m t children) := by
  have hfields := Json.fields_object [
    ("name", t.name.encode), ("attributes", .array (t.attributes.map Attribute.encode)),
    ("arguments", Json.ofOption t.arguments), ("body", body), ("static", isStatic), ("location", location)]
    (by simp)
  have hattributes : asList Attribute.decode (.array (t.attributes.map Attribute.encode)) =
      some t.attributes := Json.asList_map fun a _ => a.decode_encode
  simp only [List.map_cons, List.map_nil] at hfields
  simp [decodeTag, hfields, Json.required_some, Json.optional_some, t.name.decode_encode, hattributes,
    Json.nullable_ofOption, hbody, hm]

end

-- The kind of a record decides how the rest of it is decoded.
theorem decodeWithin_object (kind : NodeKind) {ms : List (String × Json)} (h : "type" ∉ ms.map Prod.fst)
    (depth : Nat) : decodeWithin (depth + 1) (.object (("type", .string kind.name) :: ms)) =
      match kind with
      | .documentType => decodeLeaf "value" .documentType (.object ms)
      | .declaration => decodeLeaf "value" .declaration (.object ms)
      | .cdata => decodeLeaf "value" .cdata (.object ms)
      | .text => decodeLeaf "value" .text (.object ms)
      | .comment => decodeLeaf "value" .comment (.object ms)
      | .scriptlet => decodeLeaf "code" .scriptlet (.object ms)
      | .component => decodeLeaf "code" .component (.object ms)
      | .placeholder => decodePlaceholder (.object ms)
      | .tag => decodeTag (decodeWithin depth) (.object ms) := by
  cases kind <;>
    simp only [decodeWithin, Json.tagged_object (.string _) h, Option.bind_eq_bind, Option.bind_some,
      NodeKind.decode_name]

theorem decode_leaf (m : Marks) (l : Leaf) (depth : Nat) :
    decodeWithin (depth + 1) (Node.leaf m l).encode = some (.leaf m l) := by
  have hkind : "type" ∉ (l.encode ++ m.encode).map Prod.fst := by
    cases l <;> simp [Leaf.encode, Marks.encode]
  rw [Node.encode, decodeWithin_object _ hkind]
  cases l with
  | documentType v | declaration v | cdata v | text v | comment v =>
    exact decodeLeaf_object "value" v _ (by simp) m.decode_encode
  | scriptlet c | component c => exact decodeLeaf_object "code" c _ (by simp) m.decode_encode
  | placeholder e escape => exact decodePlaceholder_object e escape m.decode_encode

theorem decode_tag (m : Marks) (t : Tag) {children : List Node} {depth : Nat}
    (h : ∀ n ∈ children, decodeWithin depth n.encode = some n) :
    decodeWithin (depth + 1) (Node.tag m t children).encode = some (.tag m t children) := by
  have htag := decodeTag_object t (decodeBody_object t.params h) m.decode_encode
  rw [Node.encode]
  exact (decodeWithin_object .tag (by simp [Marks.encode]) depth).trans htag

-- The depth of a record bounds how deep its nodes are looked for.
theorem decodeWithin_encode :
    (∀ (n : Node) (depth : Nat), n.encode.depth ≤ depth → decodeWithin depth n.encode = some n) ∧
    ∀ (ns : List Node) (depth : Nat), (∀ n ∈ ns, n.encode.depth ≤ depth) →
      ∀ n ∈ ns, decodeWithin depth n.encode = some n := by
  apply Node.induct
  case leaf =>
    intro m l depth hdepth
    obtain ⟨depth, rfl⟩ : ∃ d, depth = d + 1 := Nat.exists_eq_succ_of_ne_zero (Nat.ne_zero_of_lt hdepth)
    exact decode_leaf m l depth
  case tag =>
    intro m t children ih depth hdepth
    obtain ⟨depth, rfl⟩ : ∃ d, depth = d + 1 := Nat.exists_eq_succ_of_ne_zero (Nat.ne_zero_of_lt hdepth)
    refine decode_tag m t (ih depth fun n hn => ?_)
    have harray : n.encode.depth < (Json.array (encodeAll children)).depth :=
      Json.depth_lt_of_mem_array (by simpa [encodeAll_eq_map] using List.mem_map_of_mem hn)
    have hbody : (Json.array (encodeAll children)).depth < (Json.object [
        ("params", Json.ofStrings t.params), ("children", .array (encodeAll children))]).depth :=
      Json.depth_lt_of_mem_object (m := ("children", .array (encodeAll children))) (by simp)
    have htag : (Json.object [("params", Json.ofStrings t.params),
        ("children", .array (encodeAll children))]).depth < (Node.tag m t children).encode.depth :=
      Json.depth_lt_of_mem_object (m := ("body", .object [("params", Json.ofStrings t.params),
        ("children", .array (encodeAll children))])) (by simp)
    omega
  case nil => exact fun depth _ n hn => (List.not_mem_nil hn).elim
  case cons =>
    intro n ns ihn ihns depth hdepth
    rw [List.forall_mem_cons] at hdepth ⊢
    exact ⟨ihn depth hdepth.1, ihns depth hdepth.2⟩

theorem decode_encode (n : Node) : Node.decode n.encode = some n :=
  decodeWithin_encode.1 n _ (Nat.le_refl _)

theorem isValid_encode :
    (∀ n : Node, IsValid n.encode) ∧ ∀ ns : List Node, ∀ n ∈ ns, IsValid n.encode := by
  apply Node.induct
  case leaf =>
    intro m l
    refine .object (List.forall_mem_cons.mpr ⟨.string _, List.forall_mem_append.mpr ⟨?_, m.isValid_encode⟩⟩)
    cases l with
    | placeholder e escape =>
      exact List.forall_mem_cons.mpr ⟨.string e, List.forall_mem_singleton.mpr (.boolean escape)⟩
    | documentType v | declaration v | cdata v | text v | comment v | scriptlet v | component v =>
      exact List.forall_mem_singleton.mpr (.string v)
  case tag =>
    intro m t children ih
    have hname : IsValid t.name.encode := by
      cases t.name <;> exact isValid_texts (by simp)
    have hattributes : IsValid (.array (t.attributes.map Attribute.encode)) := by
      refine .array (List.forall_mem_map.mpr fun a _ => ?_)
      exact isValid_texts (by simp)
    have hchildren : IsValid (.array (encodeAll children)) := by
      rw [encodeAll_eq_map]
      exact .array (List.forall_mem_map.mpr ih)
    have hbody : IsValid (.object [("params", Json.ofStrings t.params),
        ("children", .array (encodeAll children))]) :=
      .object (List.forall_mem_cons.mpr ⟨Json.isValid_ofStrings t.params,
        List.forall_mem_singleton.mpr hchildren⟩)
    have htype : IsValid (.string "tag") := .string _
    have harguments := Json.isValid_ofOption t.arguments
    refine .object (List.forall_mem_append.mpr ⟨?_, m.isValid_encode⟩)
    simp [htype, hname, hattributes, harguments, hbody]
  case nil => exact fun n hn => (List.not_mem_nil hn).elim
  case cons => exact fun n ns ihn ihns => List.forall_mem_cons.mpr ⟨ihn, ihns⟩

end Node

/-! ## Programs -/

theorem Import.decode_encode (i : Import) : Import.decode i.encode = some i := rfl

-- Only nodes have a kind, and only imports have a source.
theorem Item.decode_encode (i : Item) : Item.decode i.encode = some i := by
  cases i with
  | node n =>
    show ((Node.decode n.encode).map Item.node <|> _) = _
    rw [n.decode_encode]
    rfl
  | external i => rfl
  | statement code => rfl

theorem Item.isValid_encode (i : Item) : IsValid i.encode := by
  cases i with
  | node n => exact Node.isValid_encode.1 n
  | external i => exact isValid_texts (by simp)
  | statement code => exact isValid_texts (by simp)

namespace Program

/-- A program is decoded from the record that it is encoded as. -/
theorem decode_encode (p : Program) : Program.decode p.encode = some p := by
  have hfields : p.encode.fields ["body", "moduleCode"] =
      some [some (.array (p.body.map Item.encode)), some (Json.ofOption p.moduleCode)] := rfl
  have hbody : asList Item.decode (.array (p.body.map Item.encode)) = some p.body :=
    Json.asList_map fun i _ => i.decode_encode
  simp [Program.decode, hfields, Json.required_some, Json.optional_some, hbody, Json.nullable_ofOption]

theorem isValid_encode (p : Program) : IsValid p.encode := by
  have hbody : IsValid (.array (p.body.map Item.encode)) :=
    .array (List.forall_mem_map.mpr fun i _ => i.isValid_encode)
  exact .object (List.forall_mem_cons.mpr ⟨hbody,
    List.forall_mem_singleton.mpr (Json.isValid_ofOption p.moduleCode)⟩)

/-- A program is decoded from its record, and from the text of the record exactly if that is no text which nests
deeper than texts are read. -/
theorem decode_encode_render (p : Program) :
    Program.decode p.encode = some p ∧
      (Json.read p.encode.render).bind Program.decode =
        if p.encode.depth ≤ Json.maxDepth then some p else none := by
  refine ⟨p.decode_encode, ?_⟩
  rw [Json.read_render p.isValid_encode]
  split
  · exact p.decode_encode
  · rfl

/-- The text of 42 elements inside of each other is not read: it nests 130 deep. -/
theorem exists_text_not_read :
    let place : Marks := ⟨false, ⟨0, 0⟩⟩
    let inside (n : Node) : Node := .tag place ⟨.static "div", [], none, []⟩ [n]
    let page : Program := ⟨[.node (inside^[42] (.leaf place (.text "x")))], none⟩
    page.encode.depth = 130 ∧ (Json.read page.encode.render).bind Program.decode = none := by
  intro place inside page
  have hdepth : page.encode.depth = 130 := by decide +kernel
  refine ⟨hdepth, ?_⟩
  rw [Json.read_render page.isValid_encode, hdepth, if_neg (by decide)]
  simp

end Program

end TemplateCompiler
