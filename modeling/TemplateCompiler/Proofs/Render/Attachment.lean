import TemplateCompiler.Proofs.Render.Batching

/-!
# Attached blocks

Some elements of a list have to come right behind certain others, as an `else` block has to come right
behind an `if` block (`IsAttached`). Lists are read from the front for that, and all that has to be known of
what was read is its last element (`AttachedFrom`). Batching keeps operations attached or not, at all depths
(`Op.areAttached_batch`).
-/

namespace TemplateCompiler.Render

/-! ## Lists -/

section

variable {α β : Type} (takes needs : α → Bool)

/-- Each element that needs one before it comes right behind an element that takes one. -/
def IsAttached (l : List α) : Prop :=
  ∀ before a after, l = before ++ a :: after → needs a = true →
    ∃ front b, before = front ++ [b] ∧ takes b = true

/-- The same behind other elements, where `ready` says whether the last of these takes one. -/
def AttachedFrom (ready : Bool) : List α → Prop
  | [] => True
  | a :: l => (needs a = true → ready = true) ∧ AttachedFrom (takes a) l

/-- Whether the last element takes one. -/
def readyAfter (ready : Bool) (l : List α) : Bool := l.foldl (fun _ a => takes a) ready

variable {takes needs} {ready ready' : Bool} {l l' : List α}

theorem attachedFrom_append :
    AttachedFrom takes needs ready (l ++ l') ↔
      AttachedFrom takes needs ready l ∧ AttachedFrom takes needs (readyAfter takes ready l) l' := by
  induction l generalizing ready with
  | nil => simp [AttachedFrom, readyAfter]
  | cons a l ih =>
    rw [List.cons_append, AttachedFrom, AttachedFrom, ih, and_assoc]
    rfl

theorem AttachedFrom.mono (h : AttachedFrom takes needs ready l) (himp : ready = true → ready' = true) :
    AttachedFrom takes needs ready' l := by
  cases l with
  | nil => trivial
  | cons a l => exact ⟨fun hneeds => himp (h.1 hneeds), h.2⟩

-- What is attached by itself is attached anywhere.
theorem AttachedFrom.anywhere (h : AttachedFrom takes needs false l) :
    AttachedFrom takes needs ready l := h.mono fun hfalse => Bool.noConfusion hfalse

theorem AttachedFrom.append (h : AttachedFrom takes needs ready l)
    (h' : AttachedFrom takes needs false l') : AttachedFrom takes needs ready (l ++ l') :=
  attachedFrom_append.mpr ⟨h, h'.anywhere⟩

theorem isAttached_iff : IsAttached takes needs l ↔ AttachedFrom takes needs false l := by
  constructor
  · -- behind `front`, whose last element says whether one may follow
    suffices hbehind : ∀ front rest, l = front ++ rest → IsAttached takes needs l →
        AttachedFrom takes needs (readyAfter takes false front) rest from hbehind [] l rfl
    intro front rest hl h
    induction rest generalizing front with
    | nil => trivial
    | cons a rest ih =>
      refine ⟨fun hneeds => ?_, ?_⟩
      · obtain ⟨first, b, rfl, hb⟩ := h front a rest hl hneeds
        rw [readyAfter, List.foldl_append]
        exact hb
      · have hnext := ih (front ++ [a]) (by rw [hl, List.append_assoc]; rfl)
        rwa [readyAfter, List.foldl_append] at hnext
  · intro h before a after hl hneeds
    rw [hl, attachedFrom_append] at h
    have hready := h.2.1 hneeds
    rcases List.eq_nil_or_concat before with rfl | ⟨front, b, rfl⟩
    · exact Bool.noConfusion hready
    · rw [readyAfter, List.concat_eq_append, List.foldl_append] at hready
      exact ⟨front, b, List.concat_eq_append, hready⟩

instance decidableAttachedFrom (ready : Bool) : (l : List α) → Decidable (AttachedFrom takes needs ready l)
  | [] => .isTrue trivial
  | a :: l =>
    let _ := decidableAttachedFrom (takes a) l
    inferInstanceAs (Decidable ((needs a = true → ready = true) ∧ AttachedFrom takes needs (takes a) l))

instance : Decidable (IsAttached takes needs l) := decidable_of_iff _ isAttached_iff.symm

theorem attachedFrom_map {f : β → α} {bs : List β} :
    AttachedFrom takes needs ready (bs.map f) ↔
      AttachedFrom (fun b => takes (f b)) (fun b => needs (f b)) ready bs := by
  induction bs generalizing ready with
  | nil => exact Iff.rfl
  | cons b bs ih => exact and_congr Iff.rfl ih

theorem attachedFrom_congr {takes' needs' : α → Bool} (htakes : ∀ a ∈ l, takes a = takes' a)
    (hneeds : ∀ a ∈ l, needs a = needs' a) :
    AttachedFrom takes needs ready l ↔ AttachedFrom takes' needs' ready l := by
  induction l generalizing ready with
  | nil => exact Iff.rfl
  | cons a l ih =>
    rw [List.forall_mem_cons] at htakes hneeds
    rw [AttachedFrom, AttachedFrom, htakes.1, hneeds.1, ih htakes.2 hneeds.2]

end

namespace Op

/-! ## Operations -/

section

variable {σ β τ γ : Type}

/-- The operation is a block that the test holds of. -/
def isBlock (p : β → Bool) : Op σ β → Bool
  | .block scope _ => p scope
  | _ => false

/-- At all depths, each block that needs one before it comes right behind a block that takes one. -/
def AreAttached (takes needs : β → Bool) (ops : List (Op σ β)) : Prop :=
  ∀ level ∈ levels ops, IsAttached (isBlock takes) (isBlock needs) level

instance (takes needs : β → Bool) (ops : List (Op σ β)) : Decidable (AreAttached takes needs ops) :=
  inferInstanceAs (Decidable (∀ level ∈ levels ops, _))

variable {takes needs : β → Bool} {ops more : List (Op σ β)} {ready : Bool}

theorem isBlock_map (f : σ → τ) (g : β → γ) (p : γ → Bool) (op : Op σ β) :
    isBlock p (op.map f g) = isBlock (fun b => p (g b)) op := by
  cases op <;> rfl

theorem isBlock_batchInside (p : β → Bool) (op : Op σ β) : isBlock p op.batchInside = isBlock p op := by
  cases op <;> rfl

theorem bodiesOf_append (ops more : List (Op σ β)) :
    bodiesOf (ops ++ more) = bodiesOf ops ++ bodiesOf more := by
  induction ops with
  | nil => rfl
  | cons op ops ih => rw [List.cons_append, bodiesOf, bodiesOf, ih, List.append_assoc]

theorem areAttached_iff :
    AreAttached takes needs ops ↔ AttachedFrom (isBlock takes) (isBlock needs) false ops ∧
      ∀ level ∈ bodiesOf ops, AttachedFrom (isBlock takes) (isBlock needs) false level := by
  rw [AreAttached, levels, List.forall_mem_cons, isAttached_iff]
  exact and_congr Iff.rfl (forall₂_congr fun _ _ => isAttached_iff)

/-! ### Combining operations -/

theorem areAttached_nil : AreAttached takes needs ([] : List (Op σ β)) :=
  areAttached_iff.mpr ⟨trivial, fun _ h => (List.not_mem_nil h).elim⟩

theorem areAttached_write (markup : String) :
    AreAttached takes needs [(.write markup : Op σ β)] :=
  areAttached_iff.mpr ⟨⟨fun h => Bool.noConfusion h, trivial⟩, fun _ h => (List.not_mem_nil h).elim⟩

theorem areAttached_code (statement : σ) : AreAttached takes needs [(.code statement : Op σ β)] :=
  areAttached_iff.mpr ⟨⟨fun h => Bool.noConfusion h, trivial⟩, fun _ h => (List.not_mem_nil h).elim⟩

theorem AreAttached.append (h : AreAttached takes needs ops) (hmore : AreAttached takes needs more) :
    AreAttached takes needs (ops ++ more) := by
  rw [areAttached_iff] at h hmore ⊢
  refine ⟨h.1.append hmore.1, fun level hlevel => ?_⟩
  rw [bodiesOf_append] at hlevel
  exact (List.mem_append.mp hlevel).elim (h.2 level) (hmore.2 level)

-- A block is attached inside if its body is, and to what is around it if it needs nothing.
theorem attachedFrom_bodiesOf_block {scope : β} (h : AreAttached takes needs ops) :
    ∀ level ∈ bodiesOf [(.block scope ops : Op σ β)],
      AttachedFrom (isBlock takes) (isBlock needs) false level := by
  intro level hlevel
  have hmem : level ∈ levels ops ++ [] := hlevel
  rw [List.append_nil] at hmem
  exact isAttached_iff.mp (h level hmem)

theorem AreAttached.block {scope : β} (h : AreAttached takes needs ops) (hneeds : needs scope = false) :
    AreAttached takes needs [.block scope ops] :=
  areAttached_iff.mpr ⟨⟨fun hblock => Bool.noConfusion (hneeds.symm.trans hblock), trivial⟩,
    attachedFrom_bodiesOf_block h⟩

/-! ### Batching and texts -/

theorem attachedFrom_join (op : Op σ β) (ops : List (Op σ β)) :
    AttachedFrom (isBlock takes) (isBlock needs) ready (join op ops) ↔
      AttachedFrom (isBlock takes) (isBlock needs) ready (op :: ops) := by
  match op, ops with
  | .write a, .write b :: rest => simp [join, AttachedFrom, isBlock]
  | .write _, [] | .write _, .code _ :: _ | .write _, .block _ _ :: _ => exact Iff.rfl
  | .code _, _ | .block _ _, _ => exact Iff.rfl

/-- Batching joins writes only, which neither need nor take anything. -/
theorem areAttached_batch : AreAttached takes needs (batch ops) ↔ AreAttached takes needs ops := by
  let A (level : List (Op σ β)) : Prop := AttachedFrom (isBlock takes) (isBlock needs) false level
  have h : (∀ op : Op σ β, (∀ level ∈ bodies op.batchInside, A level) ↔ ∀ level ∈ bodies op, A level) ∧
      ∀ ops : List (Op σ β), (∀ ready, AttachedFrom (isBlock takes) (isBlock needs) ready (batch ops) ↔
        AttachedFrom (isBlock takes) (isBlock needs) ready ops) ∧
        ((∀ level ∈ bodiesOf (batch ops), A level) ↔ ∀ level ∈ bodiesOf ops, A level) := by
    apply Op.induct
    case write => exact fun _ => Iff.rfl
    case code => exact fun _ => Iff.rfl
    case block =>
      intro scope body ih
      rw [batchInside, bodies, bodies, List.forall_mem_cons, List.forall_mem_cons]
      exact and_congr (ih.1 false) ih.2
    case nil => exact ⟨fun _ => Iff.rfl, Iff.rfl⟩
    case cons =>
      intro op ops ihop ihops
      constructor
      · intro ready
        rw [batch_cons, attachedFrom_join, AttachedFrom, AttachedFrom, isBlock_batchInside,
          isBlock_batchInside, ihops.1]
      · rw [batch_cons, bodiesOf_join, bodiesOf, List.forall_mem_append, List.forall_mem_append]
        exact and_congr ihop ihops.2
  rw [areAttached_iff, areAttached_iff]
  exact and_congr ((h.2 ops).1 false) (h.2 ops).2

theorem bodiesOf_mapAll (f : σ → τ) (g : β → γ) :
    (∀ op : Op σ β, bodies (op.map f g) = (bodies op).map (mapAll f g)) ∧
      ∀ ops : List (Op σ β), bodiesOf (mapAll f g ops) = (bodiesOf ops).map (mapAll f g) := by
  apply Op.induct
  case write => exact fun _ => rfl
  case code => exact fun _ => rfl
  case block => exact fun scope body ih => congrArg (mapAll f g body :: ·) ih
  case nil => rfl
  case cons =>
    intro op ops ihop ihops
    rw [mapAll, bodiesOf, bodiesOf, ihop, ihops, List.map_append]

/-- Blocks may be replaced by others that take and need the same. -/
theorem areAttached_mapAll (f : σ → τ) (g : β → γ) {takes' needs' : γ → Bool} :
    AreAttached takes' needs' (mapAll f g ops) ↔
      AreAttached (fun b => takes' (g b)) (fun b => needs' (g b)) ops := by
  have hlevel (level : List (Op σ β)) :
      AttachedFrom (isBlock takes') (isBlock needs') false (mapAll f g level) ↔
        AttachedFrom (isBlock fun b => takes' (g b)) (isBlock fun b => needs' (g b)) false level := by
    rw [mapAll_eq_map, attachedFrom_map]
    exact attachedFrom_congr (fun op _ => isBlock_map f g takes' op) fun op _ => isBlock_map f g needs' op
  rw [areAttached_iff, areAttached_iff, hlevel, (bodiesOf_mapAll f g).2, List.forall_mem_map]
  exact and_congr Iff.rfl (forall₂_congr fun level _ => hlevel level)

end

end Op

end TemplateCompiler.Render
