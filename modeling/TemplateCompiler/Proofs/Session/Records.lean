import TemplateCompiler.Proofs.Session.Capture

/-!
# Records of a session

What is recorded of a file after a record is put down or taken away, in any spelling of its path, and
the invariant of the records: those of analysed files are right, and files in progress are on the stack
of those that are being worked on.
-/

namespace TemplateCompiler

namespace Records

theorem get?_erase (r : Records) (p q : Path) :
    (r.erase p).get? q = if p.same q then none else r.get? q := by
  rw [get?, get?, erase, Path.find?, Path.find?, List.find?_filter]
  split
  · rename_i h
    rw [List.find?_eq_none.mpr]
    · rfl
    · intro e _ hfound
      rw [decide_eq_true_iff, Bool.not_eq_true'] at hfound
      have := Path.same_trans hfound.2 (Path.same_symm h)
      rw [hfound.1] at this
      exact Bool.noConfusion this
  · rename_i h
    congr 2
    funext e
    cases hsame : e.1.same q with
    | false => simp
    | true =>
      have hne : e.1.same p = false :=
        Bool.eq_false_iff.mpr fun hp => h (Path.same_trans (Path.same_symm hp) hsame)
      simp [hne]

theorem get?_insert (r : Records) (p q : Path) (record : Record) :
    (r.insert p record).get? q = if p.same q then some record else r.get? q := by
  have hinsert : (r.insert p record).get? q =
      if p.same q then some record else (r.erase p).get? q := Path.find?_cons q p record _
  rw [hinsert, get?_erase]
  split <;> rfl

theorem summary?_eq_some_iff {r : Records} {p : Path} {s : Summary} :
    r.summary? p = some s ↔ r.get? p = some (.analyzed s) := by
  unfold summary?
  split
  · rename_i h
    rw [h, Option.some.injEq, Option.some.injEq, Record.analyzed.injEq]
  · rename_i h
    constructor
    · intro hs
      cases hs
    · exact fun hs => absurd hs (h s)

end Records

namespace Workspace

/-- All summaries in the records are right, and all files in progress are on the stack. -/
structure Consistent (w : Workspace) (stack : List Path) (r : Records) : Prop where
  analyzed : ∀ q s, r.get? q = some (.analyzed s) → w.answer q = some s
  inProgress : ∀ q, r.get? q = some .inProgress → ∃ p ∈ stack, p.same q = true

section

variable {w : Workspace} {stack : List Path} {r : Records} {p : Path}

theorem consistent_nil (w : Workspace) : w.Consistent [] ⟨[]⟩ := by
  constructor
  · intro q s hq
    cases hq
  · intro q hq
    cases hq

theorem Consistent.start (h : w.Consistent stack r) (p : Path) :
    w.Consistent (p :: stack) (r.insert p .inProgress) := by
  constructor
  · intro q s hq
    rw [Records.get?_insert] at hq
    split at hq
    · cases hq
    · exact h.analyzed q s hq
  · intro q hq
    rw [Records.get?_insert] at hq
    split at hq
    · exact ⟨p, List.mem_cons_self, by assumption⟩
    · obtain ⟨f, hf, hsame⟩ := h.inProgress q hq
      exact ⟨f, List.mem_cons_of_mem _ hf, hsame⟩

-- A file in progress that is not the one on top is further down on the stack.
theorem Consistent.exists_other (h : w.Consistent (p :: stack) r) {q : Path} (hsame : ¬p.same q = true)
    (hq : r.get? q = some .inProgress) : ∃ f ∈ stack, f.same q = true := by
  obtain ⟨f, hf, hfq⟩ := h.inProgress q hq
  rcases List.mem_cons.mp hf with rfl | hf
  · exact absurd hfq hsame
  · exact ⟨f, hf, hfq⟩

-- A file leaves the stack with the right summary.
theorem Consistent.finish (hw : w.IsFixed) (h : w.Consistent (p :: stack) r) {s : Summary}
    (hs : w.answer p = some s) : w.Consistent stack (r.insert p (.analyzed s)) := by
  constructor
  · intro q s' hq
    rw [Records.get?_insert] at hq
    split at hq
    · rename_i hsame
      cases hq
      rw [← hw.answer_eq_of_same hsame, hs]
    · exact h.analyzed q s' hq
  · intro q hq
    rw [Records.get?_insert] at hq
    split at hq
    · cases hq
    · exact h.exists_other (by assumption) hq

-- A file leaves the stack without a summary.
theorem Consistent.abandon (h : w.Consistent (p :: stack) r) : w.Consistent stack (r.erase p) := by
  constructor
  · intro q s hq
    rw [Records.get?_erase] at hq
    split at hq
    · cases hq
    · exact h.analyzed q s hq
  · intro q hq
    rw [Records.get?_erase] at hq
    split at hq
    · cases hq
    · exact h.exists_other (by assumption) hq

theorem Consistent.weaken (h : w.Consistent stack r) (p : Path) : w.Consistent (p :: stack) r := by
  refine ⟨h.analyzed, fun q hq => ?_⟩
  obtain ⟨f, hf, hfq⟩ := h.inProgress q hq
  exact ⟨f, List.mem_cons_of_mem _ hf, hfq⟩

end

end Workspace

end TemplateCompiler
