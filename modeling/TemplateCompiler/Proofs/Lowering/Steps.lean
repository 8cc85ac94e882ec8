import TemplateCompiler.Render.Lowering

/-!
# Runs of lowering steps

How a step of lowering runs when it is made of others, and three ways to reason about runs from that:
what a run that succeeds comes to (`Yields`), what a run does to the state whether it succeeds or not
(`Moves`), and how the runs of two steps compare (`Related`). Each has one rule for each way to combine
steps.
-/

namespace TemplateCompiler

/-! ## Results -/

theorem exists_eq_ok_of_isSome {ε α : Type} {x : Except ε α} (h : x.toOption.isSome = true) :
    ∃ a, x = .ok a := by
  cases x with
  | ok a => exact ⟨a, rfl⟩
  | error e => exact Bool.noConfusion h

theorem exists_eq_ok_pair_of_isSome {ε α σ : Type} {r : Except ε α × σ}
    (h : r.1.toOption.isSome = true) : ∃ a, r = (.ok a, r.2) :=
  (exists_eq_ok_of_isSome h).imp fun _ ha => Prod.ext ha rfl

theorem exists_eq_ok_pair_of_map_eq_some {ε α β σ : Type} {r : Except ε α × σ} {f : α → β} {b : β}
    (h : r.1.toOption.map f = some b) : ∃ a, r = (.ok a, r.2) ∧ f a = b := by
  obtain ⟨x, t⟩ := r
  cases x with
  | ok a => exact ⟨a, rfl, Option.some.inj h⟩
  | error e => cases h

theorem exists_eq_error_of_isNone {ε α σ : Type} {r : Except ε α × σ}
    (h : r.1.toOption.isNone = true) : ∃ e, r = (.error e, r.2) := by
  obtain ⟨x, t⟩ := r
  cases x with
  | ok a => exact Bool.noConfusion h
  | error e => exact ⟨e, rfl⟩

namespace Render

variable {α β γ δ : Type}

/-! ## Runs -/

/-- The result of a step from a state, and the state that it leaves. -/
def outcome (x : Lower α) (s : State) : Except Error α × State := x.run s

theorem outcome_pure (a : α) (s : State) : outcome (pure a) s = (.ok a, s) := rfl

theorem outcome_throw (e : Error) (s : State) : outcome (throw e : Lower α) s = (.error e, s) := rfl

theorem outcome_bind (x : Lower α) (f : α → Lower β) (s : State) :
    outcome (x >>= f) s =
      match outcome x s with
      | (.ok a, t) => outcome (f a) t
      | (.error e, t) => (.error e, t) := by
  show (x.run s >>= fun r => ExceptT.bindCont f r.1 r.2) = _
  rcases hx : outcome x s with ⟨e | a, t⟩ <;> rw [show x.run s = _ from hx] <;> rfl

theorem outcome_pure_eq_ok {a b : α} {s t : State} :
    outcome (pure a) s = (.ok b, t) ↔ a = b ∧ s = t := by
  rw [outcome_pure, Prod.mk.injEq, Except.ok.injEq]

-- A combined step succeeds if both parts do, one after the other.
theorem outcome_bind_eq_ok {x : Lower α} {f : α → Lower β} {s t : State} {b : β} :
    outcome (x >>= f) s = (.ok b, t) ↔
      ∃ a u, outcome x s = (.ok a, u) ∧ outcome (f a) u = (.ok b, t) := by
  rw [outcome_bind]
  rcases outcome x s with ⟨e | a, u⟩
  · simp
  · constructor
    · exact fun h => ⟨a, u, rfl, h⟩
    · rintro ⟨_, _, heq, h⟩
      cases heq
      exact h

/-! ## What runs that succeed come to -/

/-- `Q` holds of the value of each run that succeeds. -/
def Yields (Q : α → Prop) (x : Lower α) : Prop := ∀ s a t, outcome x s = (.ok a, t) → Q a

theorem yields_pure {Q : α → Prop} {a : α} (h : Q a) : Yields Q (pure a) := by
  intro s b t hrun
  obtain ⟨rfl, -⟩ := outcome_pure_eq_ok.mp hrun
  exact h

theorem yields_bind {P : α → Prop} {Q : β → Prop} {x : Lower α} {f : α → Lower β}
    (hx : Yields P x) (hf : ∀ a, P a → Yields Q (f a)) : Yields Q (x >>= f) := by
  intro s b t hrun
  obtain ⟨a, u, ha, hb⟩ := outcome_bind_eq_ok.mp hrun
  exact hf a (hx s a u ha) u b t hb

theorem yields_bind_any {Q : β → Prop} {x : Lower α} {f : α → Lower β}
    (hf : ∀ a, Yields Q (f a)) : Yields Q (x >>= f) :=
  yields_bind (P := fun _ => True) (fun _ _ _ _ => trivial) fun a _ => hf a

-- A check that succeeds says that the text is an expression.
theorem yields_checkExpression (env : Env) (location : Location) (text : String) :
    Yields (fun _ => Script.acceptsExpression text = true) (checkExpression env location text) := by
  intro s u t hrun
  unfold checkExpression at hrun
  split at hrun
  · assumption
  · rw [outcome_throw] at hrun
    simp at hrun

/-! ## What runs do to the state -/

/-- Each run leaves the state as `R` says of the states before and after it. -/
def Moves (R : State → State → Prop) (x : Lower α) : Prop := ∀ s, R s (outcome x s).2

section

variable {R : State → State → Prop}

theorem Moves.rel {x : Lower α} (h : Moves R x) {s t : State} {r : Except Error α}
    (hrun : outcome x s = (r, t)) : R s t := by
  have hs := h s
  rwa [hrun] at hs

theorem moves_pure (hrefl : ∀ s, R s s) (a : α) : Moves R (pure a) := hrefl

theorem moves_throw (hrefl : ∀ s, R s s) (e : Error) : Moves R (throw e : Lower α) := hrefl

theorem moves_bind (htrans : ∀ s t u, R s t → R t u → R s u) {x : Lower α} {f : α → Lower β}
    (hx : Moves R x) (hf : ∀ a, Moves R (f a)) : Moves R (x >>= f) := by
  intro s
  have hs := hx s
  rw [outcome_bind]
  rcases hrun : outcome x s with ⟨e | a, t⟩
  · rwa [hrun] at hs
  · rw [hrun] at hs
    exact htrans _ _ _ hs (hf a t)

end

/-! ## Comparing two runs -/

/-- Two results are both values that `Q` relates, or both errors that `E` relates. -/
def Alike (E : Error → Error → Prop) (Q : α → β → Prop) : Except Error α → Except Error β → Prop
  | .ok a, .ok b => Q a b
  | .error e, .error f => E e f
  | _, _ => False

theorem Alike.imp {E : Error → Error → Prop} {Q Q' : α → β → Prop} {x : Except Error α}
    {y : Except Error β} (h : Alike E Q x y) (himp : ∀ a b, Q a b → Q' a b) : Alike E Q' x y := by
  cases x with
  | error e => cases y with
    | error f => exact h
    | ok b => exact h.elim
  | ok a => cases y with
    | error f => exact h.elim
    | ok b => exact himp a b h

theorem alike_eq_iff {x y : Except Error α} : Alike Eq Eq x y ↔ x = y := by
  constructor
  · intro h
    rcases x with e | a <;> rcases y with f | b
    · exact congrArg Except.error h
    · exact h.elim
    · exact h.elim
    · exact congrArg Except.ok h
  · rintro rfl
    cases x <;> rfl

/-- From states that `R` relates, both steps come to results that are alike and to states that `R`
relates. -/
def Related (R : State → State → Prop) (E : Error → Error → Prop) (Q : α → β → Prop)
    (x : Lower α) (y : Lower β) : Prop :=
  ∀ s t, R s t → Alike E Q (outcome x s).1 (outcome y t).1 ∧ R (outcome x s).2 (outcome y t).2

section

variable {R : State → State → Prop} {E : Error → Error → Prop}

theorem related_pure {Q : α → β → Prop} {a : α} {b : β} (h : Q a b) :
    Related R E Q (pure a) (pure b) := fun _ _ hst => ⟨h, hst⟩

theorem Related.imp {Q Q' : α → β → Prop} {x : Lower α} {y : Lower β} (h : Related R E Q x y)
    (himp : ∀ a b, Q a b → Q' a b) : Related R E Q' x y := by
  intro s t hst
  obtain ⟨halike, hstates⟩ := h s t hst
  exact ⟨halike.imp himp, hstates⟩

theorem related_bind {Q : α → β → Prop} {Q' : γ → δ → Prop} {x : Lower α} {y : Lower β}
    {f : α → Lower γ} {g : β → Lower δ} (hxy : Related R E Q x y)
    (hfg : ∀ a b, Q a b → Related R E Q' (f a) (g b)) : Related R E Q' (x >>= f) (y >>= g) := by
  intro s t hst
  obtain ⟨halike, hstates⟩ := hxy s t hst
  rw [outcome_bind, outcome_bind]
  rcases hx : outcome x s with ⟨e | a, s'⟩ <;> rcases hy : outcome y t with ⟨e' | b, t'⟩ <;>
    rw [hx, hy] at halike hstates
  · exact ⟨halike, hstates⟩
  · exact halike.elim
  · exact halike.elim
  · exact hfg a b halike s' t' hstates

theorem related_refl {Q : α → α → Prop} (hQ : ∀ a, Q a a) (x : Lower α) :
    Related Eq Eq Q x x := by
  rintro s _ rfl
  refine ⟨?_, rfl⟩
  rcases (outcome x s).1 with e | a
  · exact rfl
  · exact hQ a

-- The same step first leaves the rest to be compared.
theorem related_bind_left {Q : γ → δ → Prop} (x : Lower α) {f : α → Lower γ} {g : α → Lower δ}
    (hfg : ∀ a, Related Eq Eq Q (f a) (g a)) : Related Eq Eq Q (x >>= f) (x >>= g) :=
  related_bind (related_refl (fun _ => rfl) x) fun a _ hab => hab ▸ hfg a

/-- Steps that agree up to a function are equal behind it. -/
theorem map_eq_map_of_related {f : α → γ} {g : β → γ} {x : Lower α} {y : Lower β}
    (h : Related Eq Eq (fun a b => f a = g b) x y) : f <$> x = g <$> y := by
  funext s
  obtain ⟨halike, hstates⟩ := h s s rfl
  show outcome (x >>= fun a => pure (f a)) s = outcome (y >>= fun b => pure (g b)) s
  rw [outcome_bind, outcome_bind]
  rcases hx : outcome x s with ⟨e | a, s'⟩ <;> rcases hy : outcome y s with ⟨e' | b, t'⟩ <;>
    rw [hx, hy] at halike hstates
  · exact Prod.ext (congrArg Except.error halike) hstates
  · exact halike.elim
  · exact halike.elim
  · exact Prod.ext (congrArg Except.ok halike) hstates

end

/-! ## Elements of a tree -/

/-- The check of attributes that are copied as one object. There is none without attributes. -/
def checkAttributes (env : Env) (location : Location) (t : Tag) : Lower PUnit :=
  if t.attributes.isEmpty then pure ⟨⟩
  else checkExpression env location (objectText t.attributes)

theorem lowerTreeElement_eq (env : Env) (location : Location) (t : Tag) (name : String)
    (inner : Inner) :
    lowerTreeElement env location t name inner = (do
      checkAttributes env location t
      let key ← takeKey
      let content ← inner.content
      pure (.code (.beginElement name t.attributes key) :: (content ++ [.code .endElement]))) := by
  unfold lowerTreeElement checkAttributes
  cases t.attributes.isEmpty <;> rfl

end Render

end TemplateCompiler
