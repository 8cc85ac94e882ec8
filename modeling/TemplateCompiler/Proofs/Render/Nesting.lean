import TemplateCompiler.Proofs.Render.Attachment

/-!
# Nested brackets

A list of brackets is nested if each opening bracket has a closing one behind it, with a nested list in
between, and no other closing bracket is left (`IsNested`). That is what reading the list with the number of
open brackets comes to (`isNested_iff`). In operations brackets have to be nested in each list by itself, at all
depths (`Op.AreNested`).
-/

namespace TemplateCompiler.Render

/-- Where something that is opened and closed again starts or ends. -/
inductive Bracket where
  | opening
  | closing
deriving DecidableEq, Repr

/-! ## Lists of brackets -/

/-- Each opening bracket is closed behind a nested list, and each closing bracket closes one of these. -/
inductive IsNested : List Bracket → Prop where
  | nil : IsNested []
  | pair {content rest : List Bracket} : IsNested content → IsNested rest →
    IsNested (.opening :: (content ++ .closing :: rest))

theorem IsNested.append {first second : List Bracket} (h : IsNested first) (h' : IsNested second) :
    IsNested (first ++ second) := by
  induction h with
  | nil => exact h'
  | pair hcontent _ _ ihrest =>
    rw [List.cons_append, List.append_assoc, List.cons_append]
    exact .pair hcontent ihrest

/-- The number of open brackets behind a list, where `n` are open in front of it. There is none if a bracket is
closed that is not open. -/
def openBehind : Nat → List Bracket → Option Nat
  | n, [] => some n
  | n, .opening :: rest => openBehind (n + 1) rest
  | n + 1, .closing :: rest => openBehind n rest
  | 0, .closing :: _ => none

-- A nested list leaves the open brackets in front of it alone.
theorem IsNested.openBehind_append {content : List Bracket} (h : IsNested content) (n : Nat)
    (rest : List Bracket) : openBehind n (content ++ rest) = openBehind n rest := by
  induction h generalizing n rest with
  | nil => rfl
  | pair _ _ ihcontent ihrest =>
    rw [List.cons_append, List.append_assoc, List.cons_append, openBehind, ihcontent, openBehind]
    exact ihrest n rest

-- The innermost open bracket is closed behind a nested list.
theorem exists_of_openBehind_succ {n : Nat} {l : List Bracket} (h : openBehind (n + 1) l = some 0) :
    ∃ content rest, l = content ++ .closing :: rest ∧ IsNested content ∧ openBehind n rest = some 0 := by
  match l with
  | [] => cases h
  | .closing :: rest => exact ⟨[], rest, rfl, .nil, h⟩
  | .opening :: l =>
    -- the bracket that is opened here is closed first
    obtain ⟨inner, behind, rfl, hinner, hbehind⟩ := exists_of_openBehind_succ (n := n + 1) (l := l) h
    obtain ⟨content, rest, rfl, hcontent, hrest⟩ := exists_of_openBehind_succ hbehind
    refine ⟨.opening :: (inner ++ .closing :: content), rest, ?_, .pair hinner hcontent, hrest⟩
    rw [List.cons_append, List.append_assoc, List.cons_append]
termination_by l.length
decreasing_by
  · exact Nat.lt_succ_self _
  · simp only [*, List.length_cons, List.length_append]
    omega

/-- A list is nested if no bracket is closed that is not open, and none is open at the end. -/
theorem isNested_iff {l : List Bracket} : IsNested l ↔ openBehind 0 l = some 0 := by
  constructor
  · intro h
    have hnil := h.openBehind_append 0 []
    rwa [List.append_nil] at hnil
  · intro h
    match l with
    | [] => exact .nil
    | .closing :: _ => cases h
    | .opening :: l =>
      obtain ⟨content, rest, rfl, hcontent, hrest⟩ := exists_of_openBehind_succ (l := l) h
      exact .pair hcontent (isNested_iff.mpr hrest)
termination_by l.length
decreasing_by all_goals simp [*]; omega

instance (l : List Bracket) : Decidable (IsNested l) := decidable_of_iff _ isNested_iff.symm

example : ¬ IsNested [.opening, .closing, .closing, .opening] := by decide

namespace Op

/-! ## Operations -/

variable {σ β τ γ : Type} {f : σ → Option Bracket} {ops more : List (Op σ β)}

/-- The bracket that an operation is. -/
def bracket? (f : σ → Option Bracket) : Op σ β → Option Bracket
  | .code statement => f statement
  | _ => none

/-- In each list of operations, at all depths, the brackets are nested. -/
def AreNested (f : σ → Option Bracket) (ops : List (Op σ β)) : Prop :=
  ∀ level ∈ levels ops, IsNested (level.filterMap (bracket? f))

instance (f : σ → Option Bracket) (ops : List (Op σ β)) : Decidable (AreNested f ops) :=
  inferInstanceAs (Decidable (∀ level ∈ levels ops, _))

theorem areNested_iff : AreNested f ops ↔ IsNested (ops.filterMap (bracket? f)) ∧
    ∀ level ∈ bodiesOf ops, IsNested (level.filterMap (bracket? f)) := by
  rw [AreNested, levels, List.forall_mem_cons]

theorem areNested_nil : AreNested f ([] : List (Op σ β)) :=
  areNested_iff.mpr ⟨.nil, fun _ h => (List.not_mem_nil h).elim⟩

theorem areNested_write (markup : String) : AreNested f [(.write markup : Op σ β)] :=
  areNested_iff.mpr ⟨.nil, fun _ h => (List.not_mem_nil h).elim⟩

theorem areNested_code {statement : σ} (h : f statement = none) :
    AreNested f [(.code statement : Op σ β)] := by
  refine areNested_iff.mpr ⟨?_, fun _ h => (List.not_mem_nil h).elim⟩
  rw [List.filterMap_cons_none (show bracket? f (.code statement : Op σ β) = none from h)]
  exact .nil

theorem AreNested.append (h : AreNested f ops) (hmore : AreNested f more) :
    AreNested f (ops ++ more) := by
  rw [areNested_iff] at h hmore ⊢
  rw [List.filterMap_append, bodiesOf_append, List.forall_mem_append]
  exact ⟨h.1.append hmore.1, h.2, hmore.2⟩

theorem AreNested.block (h : AreNested f ops) (scope : β) :
    AreNested f [.block scope ops] := by
  refine areNested_iff.mpr ⟨.nil, fun level hlevel => h level ?_⟩
  have hmem : level ∈ levels ops ++ [] := hlevel
  rwa [List.append_nil] at hmem

/-- Operations between an opening and a closing bracket. -/
theorem AreNested.enclose (h : AreNested f ops) {first last : σ} (hfirst : f first = some .opening)
    (hlast : f last = some .closing) : AreNested f (.code first :: (ops ++ [.code last])) := by
  have hopening : bracket? f (.code first : Op σ β) = some .opening := hfirst
  have hclosing : bracket? f (.code last : Op σ β) = some .closing := hlast
  rw [areNested_iff] at h ⊢
  constructor
  · rw [List.filterMap_cons_some hopening, List.filterMap_append, List.filterMap_cons_some hclosing]
    exact .pair h.1 .nil
  · intro level hlevel
    have hmem : level ∈ bodiesOf (ops ++ [.code last]) := hlevel
    rw [bodiesOf_append] at hmem
    exact h.2 level ((List.mem_append.mp hmem).resolve_right List.not_mem_nil)

/-- Statements may be replaced by others that are the same brackets. -/
theorem areNested_mapAll (g : σ → τ) (k : β → γ) (f : τ → Option Bracket) :
    AreNested f (mapAll g k ops) ↔ AreNested (fun statement => f (g statement)) ops := by
  have hlevel (level : List (Op σ β)) :
      (mapAll g k level).filterMap (bracket? f) = level.filterMap (bracket? fun s => f (g s)) := by
    rw [mapAll_eq_map, List.filterMap_map]
    congr 1
    funext op
    cases op <;> rfl
  rw [areNested_iff, areNested_iff, hlevel, (bodiesOf_mapAll g k).2, List.forall_mem_map]
  simp only [hlevel]

end Op

end TemplateCompiler.Render
