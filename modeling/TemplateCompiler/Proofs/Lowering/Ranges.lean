import TemplateCompiler.Compilation
import TemplateCompiler.Proofs.Lowering.Logic
import TemplateCompiler.Proofs.Script.Tests

/-!
# Loops over ranges

A loop over a range has a short test if its step is a constant, and otherwise a test that looks at the sign
of the step first. Which of the short tests is taken depends on whether the step is below zero, in the
general test on whether it is above zero. So the two agree for each step but zero
(`lower_range_agrees_iff`).
-/

namespace TemplateCompiler.Render

open Script (literal? testHolds test?)
open TemplateCompiler.Decimal (Binary64 Number Magnitude)

/-! ## Loops over numbers -/

/-- A loop over numbers: whether it goes on at a number, and what comes behind that number. -/
structure Counting where
  goesOn : Number → Bool
  next : Number → Number

namespace Counting

/-- The numbers that a loop visits from a start, not more than a given count of them. -/
def visited (l : Counting) : Nat → Number → List Number
  | 0, _ => []
  | count + 1, i => if l.goesOn i then i :: l.visited count (l.next i) else []

/-- The loop comes to an end from a start. -/
inductive Ends (l : Counting) : Number → Prop
  | stop {i : Number} (h : l.goesOn i = false) : l.Ends i
  | turn {i : Number} (h : l.goesOn i = true) (rest : l.Ends (l.next i)) : l.Ends i

variable {l : Counting} {i : Number}

-- A loop that stays where it is only ends where it does not go on.
theorem not_ends_of_next_eq (hnext : l.next i = i) (h : l.goesOn i = true) : ¬l.Ends i := by
  intro hends
  induction hends with
  | stop hstop => exact absurd h (by simp [hstop])
  | turn _ _ ih => exact ih (by rw [hnext, hnext]) (by rw [hnext]; exact h)

end Counting

/-! ## Tests of ranges -/

/-- The numbers of a counter `i`, a bound `to` and a step `step`. -/
def rangeNumbers (counter bound step : Number) (name : String) : Number :=
  if name == "i" then counter
  else if name == "to" then bound
  else if name == "step" then step
  else .nan

/-- The loop with a test over a counter `i`, a bound `to` and a step `step`. -/
def countingWith (test : String) (bound step : Number) : Counting where
  goesOn i := testHolds test (rangeNumbers i bound step)
  next i := i.add step

section

variable (i bound step : Number)

theorem testHolds_atMost (code : String) :
    testHolds (Bound.atMost.text "i" "to" code) (rangeNumbers i bound step) = i.atMost bound := by
  have htest : test? "i <= to" = some (.compare .atMost (.variable "i") (.variable "to")) := by
    decide +kernel
  have htext : Bound.atMost.text "i" "to" code = "i <= to" := rfl
  rw [htext, testHolds, htest]
  rfl

theorem testHolds_atLeast (code : String) :
    testHolds (Bound.atLeast.text "i" "to" code) (rangeNumbers i bound step) = bound.atMost i := by
  have htest : test? "i >= to" = some (.compare .atLeast (.variable "i") (.variable "to")) := by
    decide +kernel
  have htext : Bound.atLeast.text "i" "to" code = "i >= to" := rfl
  rw [htext, testHolds, htest]
  rfl

/-- The general test looks at the sign of the step. -/
theorem testHolds_bySign :
    testHolds "(step) > 0 ? i <= to : i >= to" (rangeNumbers i bound step) =
      if Number.zero.below step then i.atMost bound else bound.atMost i := by
  have htest : test? "(step) > 0 ? i <= to : i >= to" =
      some (.choose
        (.compare .above (.variable "step") (.constant ⟨false, .finite 0 Binary64.minExponent⟩))
        (.compare .atMost (.variable "i") (.variable "to"))
        (.compare .atLeast (.variable "i") (.variable "to"))) := by
    decide +kernel
  rw [testHolds, htest]
  rfl

end

example : (countingWith "(step) > 0 ? i <= to : i >= to" .one .one).visited 3 .zero = [.zero, .one] := by
  decide +kernel

/-! ## Constant steps -/

section

variable {x : Binary64} {step : String}

theorem isBelowZero_eq_not_isAboveZero (hx : x.magnitude.isZero = false) :
    x.isBelowZero = !x.isAboveZero := by
  rw [Binary64.isBelowZero, Binary64.isAboveZero, hx]
  cases x.negative <;> rfl

/-- The test of a constant step looks whether the step is below zero. -/
theorem testHolds_ofStep (hstep : literal? step = some (.number x)) (i bound : Number) :
    testHolds ((Bound.ofStep step).text "i" "to" step) (rangeNumbers i bound (.double x)) =
      if x.isBelowZero then bound.atMost i else i.atMost bound := by
  rw [Bound.ofStep, hstep]
  dsimp only
  split
  · exact testHolds_atLeast i bound (.double x) step
  · exact testHolds_atMost i bound (.double x) step

theorem testHolds_ofStep_eq_iff (hstep : literal? step = some (.number x)) (i bound : Number) :
    testHolds ((Bound.ofStep step).text "i" "to" step) (rangeNumbers i bound (.double x)) =
        testHolds "(step) > 0 ? i <= to : i >= to" (rangeNumbers i bound (.double x)) ↔
      x.magnitude.isZero = false ∨ i.atMost bound = bound.atMost i := by
  rw [testHolds_ofStep hstep, testHolds_bySign, Number.zero_below_double]
  cases hx : x.magnitude.isZero with
  | false =>
    rw [isBelowZero_eq_not_isAboveZero hx]
    cases x.isAboveZero <;> simp
  | true => simp [Binary64.isBelowZero, Binary64.isAboveZero, hx]

/-- The loop with the test that a step asks for, where the step is a given number. The step `"step"` is a
variable that holds the number. -/
def countingBy (step : String) (bound : Number) (x : Binary64) : Counting :=
  countingWith ((Bound.ofStep step).text "i" "to" step) bound (.double x)

-- A step that is a variable asks for the general test.
theorem countingBy_variable (bound : Number) :
    countingBy "step" bound x =
      countingWith "(step) > 0 ? i <= to : i >= to" bound (.double x) := by
  have hstep : Bound.ofStep "step" = .bySign := rfl
  have htext : Bound.bySign.text "i" "to" "step" = "(step) > 0 ? i <= to : i >= to" := rfl
  rw [countingBy, hstep, htext]

theorem countingBy_eq_variable (hstep : literal? step = some (.number x))
    (hx : x.magnitude.isZero = false) (bound : Number) :
    countingBy step bound x = countingBy "step" bound x := by
  rw [countingBy_variable, countingBy, countingWith, countingWith, Counting.mk.injEq]
  refine ⟨?_, rfl⟩
  funext i
  exact (testHolds_ofStep_eq_iff hstep i bound).mpr (.inl hx)

theorem zero_one_atMost : Number.zero.atMost .one = true ∧ Number.one.atMost .zero = false := by
  decide +kernel

-- A step of zero: the short test goes on below the bound, the general test above it.
theorem goesOn_of_isZero (hstep : literal? step = some (.number x))
    (hx : x.magnitude.isZero = true) (i bound : Number) :
    (countingBy step bound x).goesOn i = i.atMost bound ∧
      (countingBy "step" bound x).goesOn i = bound.atMost i := by
  have hbelow : x.isBelowZero = false := by simp [Binary64.isBelowZero, hx]
  have habove : x.isAboveZero = false := by simp [Binary64.isAboveZero, hx]
  have hgoes (code : String) : (countingWith code bound (.double x)).goesOn i =
      testHolds code (rangeNumbers i bound (.double x)) := rfl
  constructor
  · rw [countingBy, hgoes, testHolds_ofStep hstep, hbelow, if_neg Bool.false_ne_true]
  · rw [countingBy_variable, hgoes, testHolds_bySign, Number.zero_below_double, habove,
      if_neg Bool.false_ne_true]

/-- The two loops visit the same numbers, whatever the bound and the start, unless the step is zero. -/
theorem visited_countingBy_iff (hstep : literal? step = some (.number x)) :
    (∀ bound start count, (countingBy step bound x).visited count start =
        (countingBy "step" bound x).visited count start) ↔
      x.magnitude.isZero = false := by
  constructor
  · intro h
    by_contra hx
    rw [Bool.not_eq_false] at hx
    obtain ⟨hshort, hgeneral⟩ := goesOn_of_isZero hstep hx .zero .one
    have hvisited := h .one .zero 1
    simp [Counting.visited, hshort, hgeneral, zero_one_atMost] at hvisited
  · intro hx bound start count
    rw [countingBy_eq_variable hstep hx]

/-- The two loops come to an end from the same starts, whatever the bound, unless the step is zero. -/
theorem ends_countingBy_iff (hstep : literal? step = some (.number x)) :
    (∀ bound start, (countingBy step bound x).Ends start ↔ (countingBy "step" bound x).Ends start) ↔
      x.magnitude.isZero = false := by
  constructor
  · intro h
    by_contra hx
    rw [Bool.not_eq_false] at hx
    obtain ⟨hshort, hgeneral⟩ := goesOn_of_isZero hstep hx .one .zero
    have hends : (countingBy step .zero x).Ends .one := .stop (hshort.trans zero_one_atMost.2)
    exact Counting.not_ends_of_next_eq (Number.one_add_double hx) (hgeneral.trans zero_one_atMost.1)
      ((h .zero .one).mp hends)
  · intro hx bound start
    rw [countingBy_eq_variable hstep hx]

end

/-! ## The loop of a tag -/

section

variable {env : Env} {t : Tag} {start bound step : String}

theorem yields_loopScope_range (hlist : t.valueOf "of" = none) (hobject : t.valueOf "in" = none)
    (hstart : t.valueOf "from" = some start) (hbound : t.valueOf "to" = some bound)
    (hstep : t.valueOf "step" = some step) (location : Location) :
    Yields (fun scope => ∃ counter, scope = some (.range counter start bound step))
      (loopScope env location t) := by
  unfold loopScope
  rw [hlist, hobject, hstart, hbound, hstep]
  exact yields_bind_any fun _ => yields_bind_any fun _ => yields_bind_any fun _ =>
    yields_bind_any fun counter => yields_pure ⟨counter, rfl⟩

theorem yields_lower_range (hkind : env.kindOf t = .loop) (hlist : t.valueOf "of" = none)
    (hobject : t.valueOf "in" = none) (hstart : t.valueOf "from" = some start)
    (hbound : t.valueOf "to" = some bound) (hstep : t.valueOf "step" = some step) (m : Marks)
    (children : List Node) :
    Yields (fun ops => ∃ counter body, ops = [.block (.range counter start bound step) body])
      (lower env (.tag m t children)) := by
  rw [lower, lowerTag, hkind]
  refine yields_bind (yields_loopScope_range hlist hobject hstart hbound hstep m.location) ?_
  rintro _ ⟨counter, rfl⟩
  exact yields_bind_any fun body => yields_pure ⟨counter, body, rfl⟩

/-- A tag that loops over a range with a number for a step becomes a loop whose test agrees with the
general one for all numbers if the step is not zero. With a step of zero the tests agree only where the
counter equals the bound, or one of them is no number; some loop visits other numbers, and some loop ends
that does not end with the general test. -/
theorem lower_range_agrees_iff {x : Binary64} {m : Marks} {children : List Node} {s u : State}
    {ops : List LoweredOp} (hkind : env.kindOf t = .loop) (hlist : t.valueOf "of" = none)
    (hobject : t.valueOf "in" = none) (hstart : t.valueOf "from" = some start)
    (hbound : t.valueOf "to" = some bound) (hstep : t.valueOf "step" = some step)
    (hnumber : literal? step = some (.number x))
    (hrun : outcome (lower env (.tag m t children)) s = (.ok ops, u)) :
    (∃ counter body, ops = [.block (.range counter start bound step) body] ∧
      (Scope.range counter start bound step).opening =
        "for (let " ++ counter ++ " = " ++ start ++ "; " ++
          (Bound.ofStep step).text counter bound step ++ "; " ++ counter ++ " += " ++ step ++
          ") \x7b") ∧
    (∀ i last : Number,
      testHolds ((Bound.ofStep step).text "i" "to" step) (rangeNumbers i last (.double x)) =
          testHolds "(step) > 0 ? i <= to : i >= to" (rangeNumbers i last (.double x)) ↔
        x.magnitude.isZero = false ∨ i.atMost last = last.atMost i) ∧
    ((∀ last first count, (countingBy step last x).visited count first =
        (countingBy "step" last x).visited count first) ↔ x.magnitude.isZero = false) ∧
    ((∀ last first, (countingBy step last x).Ends first ↔ (countingBy "step" last x).Ends first) ↔
      x.magnitude.isZero = false) := by
  obtain ⟨counter, body, rfl⟩ :=
    yields_lower_range hkind hlist hobject hstart hbound hstep m children s ops u hrun
  exact ⟨⟨counter, body, rfl, rfl⟩, testHolds_ofStep_eq_iff hnumber,
    visited_countingBy_iff hnumber, ends_countingBy_iff hnumber⟩

/-- A range that is counted down by two. -/
theorem lower_range_agrees_iff_down :
    let env := (Setting.standard {} (TagRegistry.ofList [])).env ⟨"/app/page.marko"⟩ []
    let place : Marks := ⟨false, ⟨1, 1⟩⟩
    let loop : Tag :=
      ⟨.static "for", [⟨"from", "9"⟩, ⟨"to", "input.last"⟩, ⟨"step", "-2"⟩], none, ["row"]⟩
    let start := State.start ⟨[]⟩ (.ofPath ⟨"/app/page.marko"⟩) .empty
    ∃ x ops u, literal? "-2" = some (.number x) ∧
      outcome (lower env (.tag place loop [])) start = (.ok ops, u) ∧
      ((∃ counter body, ops = [.block (.range counter "9" "input.last" "-2") body] ∧
        (Scope.range counter "9" "input.last" "-2").opening =
          "for (let " ++ counter ++ " = " ++ "9" ++ "; " ++
            (Bound.ofStep "-2").text counter "input.last" "-2" ++ "; " ++ counter ++ " += " ++ "-2" ++
            ") \x7b") ∧
      (∀ i last : Number,
        testHolds ((Bound.ofStep "-2").text "i" "to" "-2") (rangeNumbers i last (.double x)) =
            testHolds "(step) > 0 ? i <= to : i >= to" (rangeNumbers i last (.double x)) ↔
          x.magnitude.isZero = false ∨ i.atMost last = last.atMost i) ∧
      ((∀ last first count, (countingBy "-2" last x).visited count first =
          (countingBy "step" last x).visited count first) ↔ x.magnitude.isZero = false) ∧
      ((∀ last first, (countingBy "-2" last x).Ends first ↔ (countingBy "step" last x).Ends first) ↔
        x.magnitude.isZero = false)) := by
  intro env place loop start
  have hok : (outcome (lower env (.tag place loop [])) start).1.toOption.isSome = true := by
    decide +kernel
  have hnumber : literal? "-2" = some (.number ⟨true, .finite (2 ^ 52) (-51)⟩) := by decide +kernel
  obtain ⟨ops, hrun⟩ := exists_eq_ok_pair_of_isSome hok
  have hkind : env.kindOf loop = .loop := rfl
  exact ⟨_, ops, _, hnumber, hrun, lower_range_agrees_iff hkind rfl rfl rfl rfl rfl hnumber hrun⟩

/-- With a step of zero the short test counts on below the bound, without an end, where the general test
does not hold at all. -/
theorem exists_step_of_zero :
    let env := (Setting.standard {} (TagRegistry.ofList [])).env ⟨"/app/page.marko"⟩ []
    let place : Marks := ⟨false, ⟨1, 1⟩⟩
    let loop : Node :=
      .tag place ⟨.static "for", [⟨"from", "0"⟩, ⟨"to", "1"⟩, ⟨"step", "0"⟩], none, ["i"]⟩ []
    let start := State.start ⟨[]⟩ (.ofPath ⟨"/app/page.marko"⟩) .empty
    (outcome (lower env loop) start).1.toOption.map Op.scopesOf = some [.range "i" "0" "1" "0"] ∧
      (Scope.range "i" "0" "1" "0").opening = "for (let i = 0; i <= 1; i += 0) \x7b" ∧
      testHolds "i <= 1" (rangeNumbers .zero .one .zero) = true ∧
      testHolds "(step) > 0 ? i <= 1 : i >= 1" (rangeNumbers .zero .one .zero) = false ∧
      (countingWith "i <= 1" .one .zero).visited 3 .zero = [.zero, .zero, .zero] ∧
      (countingWith "(step) > 0 ? i <= 1 : i >= 1" .one .zero).visited 3 .zero = [] := by
  decide +kernel

end

end TemplateCompiler.Render
