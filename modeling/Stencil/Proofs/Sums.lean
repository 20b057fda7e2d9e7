import Mathlib
import Stencil.Registry

/-!
# Sums of integers

Integers are added exactly as long as both are signed words and so is their sum. Every other sum of
integers is the sum of the nearest doubles: digits may be lost, and the sum is no integer any more.
-/

namespace Stencil

namespace Number

variable {a b n : Int} {ha : minInteger ≤ a ∧ a ≤ maxInteger} {hb : minInteger ≤ b ∧ b ≤ maxInteger}
  {hn : minInteger ≤ n ∧ n ≤ maxInteger}

/-- A signed word is in the range of integers. -/
theorem inRange_of_isSigned (h : isSigned n = true) : minInteger ≤ n ∧ n ≤ maxInteger := by
  have hsigned : minInteger ≤ n ∧ n ≤ maxSigned := by simpa [isSigned] using h
  unfold maxSigned at hsigned
  unfold maxInteger
  omega

/-- The number of a double is no integer. -/
theorem ofFloat?_ne_integer (x : Float) : ofFloat? x ≠ some (.integer n hn) := by
  unfold ofFloat?
  split <;> simp

/-- Signed words with a signed sum are added exactly. -/
theorem add_of_isSigned (h : isSigned a = true) (h' : isSigned b = true)
    (hsum : isSigned (a + b) = true) :
    add (.integer a ha) (.integer b hb) = some (.integer (a + b) (inRange_of_isSigned hsum)) := by
  simp [add, h, h', hsum, ofInt?, inRange_of_isSigned hsum]

/-- A sum of integers is an integer only if they and their sum are signed words. -/
theorem isSigned_of_add_eq_integer
    (h : add (.integer a ha) (.integer b hb) = some (.integer n hn)) :
    isSigned a = true ∧ isSigned b = true ∧ isSigned (a + b) = true := by
  by_contra hsigned
  simp only [add, Bool.and_eq_true, and_assoc, if_neg hsigned] at h
  exact ofFloat?_ne_integer _ h

/-- Zero is added to an integer without a loss exactly when the integer is a signed word. -/
theorem add_zero_eq_iff (hzero : minInteger ≤ 0 ∧ 0 ≤ maxInteger) :
    add (.integer a ha) (.integer 0 hzero) = some (.integer a ha) ↔ isSigned a = true := by
  constructor
  · intro h
    exact (isSigned_of_add_eq_integer h).1
  · intro h
    have hsum := @add_of_isSigned a 0 ha hzero h (by decide) (by simpa using h)
    simpa using hsum

end Number

namespace Filter

/-- The filter `add` answers a number for two numbers exactly when this is their sum. -/
theorem apply_add_eq_number_iff {x y n : Number} (others : List Value) :
    add.apply (.number x) (.number y :: others) = .ok (.number n) ↔ x.add y = some n := by
  change Except.ok (((x.add y).map Value.number).getD .null) = _ ↔ _
  cases x.add y <;> simp

variable {a b : Int}

/-- For two integers `add` answers their sum exactly when they and the sum are signed words. -/
theorem apply_add_eq_integer_iff {ha : minInteger ≤ a ∧ a ≤ maxInteger}
    {hb : minInteger ≤ b ∧ b ≤ maxInteger} {hsum : minInteger ≤ a + b ∧ a + b ≤ maxInteger}
    (others : List Value) :
    add.apply (.number (.integer a ha)) (.number (.integer b hb) :: others) =
        .ok (.number (.integer (a + b) hsum)) ↔
      Number.isSigned a = true ∧ Number.isSigned b = true ∧ Number.isSigned (a + b) = true := by
  rw [apply_add_eq_number_iff]
  constructor
  · exact Number.isSigned_of_add_eq_integer
  · rintro ⟨h, h', hsigned⟩
    exact Number.add_of_isSigned h h' hsigned

/-- The expression that adds zero to what `x` stands for. -/
private theorem parse_addZero : Expression.parse "x|add(0)" =
    .ok ⟨.named "x", [⟨"add", [.literal (.number (.integer 0 (by decide)))]⟩]⟩ := by
  cbv

/-- Integers are added exactly as far as signed words reach. Where `add` is the built-in filter, it
answers the sum of two integers exactly when both of them and their sum are signed words; so the
expression that adds zero to an integer compiles, and it has this integer as its value exactly when
the integer is a signed word. -/
theorem add_exact_iff {r : Registry} (hadd : r.filter? "add" = some add) (place : Place)
    (ha : minInteger ≤ a ∧ a ≤ maxInteger) (hb : minInteger ≤ b ∧ b ≤ maxInteger) :
    (∀ (hsum : minInteger ≤ a + b ∧ a + b ≤ maxInteger) (others : List Value),
      add.apply (.number (.integer a ha)) (.number (.integer b hb) :: others) =
          .ok (.number (.integer (a + b) hsum)) ↔
        Number.isSigned a = true ∧ Number.isSigned b = true ∧ Number.isSigned (a + b) = true) ∧
    ∃ e, BoundExpression.ofText r.filter? place "x|add(0)" = .ok e ∧
      ∀ scope, Fields.find? "x" scope = some (.number (.integer a ha)) →
        (e.evaluate scope = .ok (.number (.integer a ha)) ↔ Number.isSigned a = true) := by
  refine ⟨fun hsum others ↦ apply_add_eq_integer_iff others, ?_⟩
  have hbind : BoundExpression.ofText r.filter? place "x|add(0)" =
      .ok ⟨.named "x", [⟨"add", add, [.literal (.number (.integer 0 (by decide)))]⟩]⟩ := by
    simp [BoundExpression.ofText, parse_addZero, BoundExpression.bind, FilterChain.bind, hadd,
      Except.map]
  refine ⟨_, hbind, fun scope hx ↦ ?_⟩
  have hvalue : BoundExpression.evaluate scope
      ⟨.named "x", [⟨"add", add, [.literal (.number (.integer 0 (by decide)))]⟩]⟩ =
        add.apply (.number (.integer a ha)) [.number (.integer 0 (by decide))] := by
    rw [BoundExpression.evaluate, Expr.evaluate, hx]
    simp only [FilterChain.apply, Option.getD_some, List.map_cons, List.map_nil, Expr.evaluate]
    split <;> simp_all
  rw [hvalue, apply_add_eq_number_iff, Number.add_zero_eq_iff]

/-- The sum of the least and the greatest signed word is exact, and so is that of the least one and
zero. -/
theorem add_exact_iff_extremes :
    let r := Registry.ofOptions 0 ⟨"/"⟩ .default
    r.filter? "add" = some add ∧
    add.apply (.number (.integer minInteger (by decide)))
        [.number (.integer maxSigned (by decide))] =
      .ok (.number (.integer (minInteger + maxSigned) (by decide))) ∧
    ∃ e, BoundExpression.ofText r.filter? ⟨1, 1⟩ "x|add(0)" = .ok e ∧
      e.evaluate [("x", .number (.integer minInteger (by decide)))] =
        .ok (.number (.integer minInteger (by decide))) := by
  intro r
  have hadd : r.filter? "add" = some add := rfl
  obtain ⟨hsum, e, he, hzero⟩ :=
    @add_exact_iff minInteger maxSigned r hadd ⟨1, 1⟩ (by decide) (by decide)
  exact ⟨hadd, (hsum (by decide) []).mpr (by decide), e, he, (hzero _ rfl).mpr (by decide)⟩

/-- The greatest signed word and one have a sum in the range of integers that `add` does not answer;
nor does it leave a greater word as it is when it adds zero. -/
theorem apply_add_ne_integer :
    add.apply (.number (.integer maxSigned (by decide))) [.number (.integer 1 (by decide))] ≠
        .ok (.number (.integer (maxSigned + 1) (by decide))) ∧
      add.apply (.number (.integer maxInteger (by decide))) [.number (.integer 0 (by decide))] ≠
        .ok (.number (.integer (maxInteger + 0) (by decide))) := by
  rw [ne_eq, ne_eq, apply_add_eq_integer_iff, apply_add_eq_integer_iff]
  decide

end Filter

end Stencil
