import Mathlib.Algebra.Group.Nat.Defs
import Mathlib.Data.List.Induction
import ModelAudit.Text.Basic

/-!
# The numbers that digits denote

The last digit counts once and the digits before it count by the base, so a
number is less than the base to the power of the number of its digits.
-/

namespace ModelAudit

theorem CodePoint.hexValue?_lt (point : CodePoint) :
    point.hexValue?.getD 0 < 16 := by
  simp only [hexValue?, isDigit]
  grind

namespace Text

theorem baseValue_append (base : Nat) (left right : Text) :
    baseValue base (left ++ right) =
      right.foldl (fun value point => base * value + point.hexValue?.getD 0)
        (baseValue base left) := by
  simp [baseValue]

theorem baseValue_concat (base : Nat) (digits : Text) (last : CodePoint) :
    baseValue base (digits ++ [last]) =
      base * baseValue base digits + last.hexValue?.getD 0 := by
  rw [baseValue_append]
  rfl

theorem baseValue_lt {base : Nat} {digits : Text}
    (small : ∀ digit ∈ digits, digit.hexValue?.getD 0 < base) :
    baseValue base digits < base ^ digits.length := by
  induction digits using List.reverseRecOn with
  | nil => simp [baseValue]
  | append_singleton others last inductionHypothesis =>
      obtain ⟨smallOthers, smallLast⟩ := List.forall_mem_append.mp small
      have bound := inductionHypothesis smallOthers
      have digit := smallLast last (List.mem_singleton_self last)
      calc baseValue base (others ++ [last])
          = base * baseValue base others + last.hexValue?.getD 0 :=
            baseValue_concat _ _ _
        _ < base * (baseValue base others + 1) := by rw [Nat.mul_succ]; omega
        _ ≤ base * base ^ others.length := Nat.mul_le_mul_left base bound
        _ = base ^ (others ++ [last]).length := by
            rw [List.length_append, List.length_singleton, Nat.pow_succ,
              Nat.mul_comm]

end Text

end ModelAudit
