import Abacus.Value

/-!
# Operators and the kinds of their operands

Whether an operator has a result depends on the kinds of its operands, apart
from an integer division by zero.  The operand classes say which kinds fit:

* `UnaryOp.apply_ok` and `UnaryOp.apply_mismatch` for the unary operators;
* `BinaryOp.apply_ok_or_zeroDivisor` and `BinaryOp.apply_mismatch` for the
  binary ones.

Every walk over code that looks at kinds only is compared with the machine
through these four facts.
-/

namespace Abacus

/-! ## Unary operators -/

namespace UnaryOp

/-- An operand of the right class has a result, of the kind that the class
promises. -/
theorem apply_ok {op : UnaryOp} {v : Value} (hfit : op.operands.accepts v.kind = true) :
    ∃ r, op.apply v = .ok r ∧ r.kind = op.resultKind v.kind := by
  cases op <;> cases v <;> first | exact ⟨_, rfl, rfl⟩ | contradiction

/-- Any other operand is a mismatch. -/
theorem apply_mismatch {op : UnaryOp} {v : Value} (hfit : op.operands.accepts v.kind = false) :
    op.apply v = .error .mismatch := by
  cases op <;> cases v <;> first | rfl | contradiction

end UnaryOp

/-! ## Binary operators -/

namespace BinaryOp

/-- Operands of one kind that fits have a result of the promised kind, or the
operator is a division of integers whose divisor is zero. -/
theorem apply_ok_or_zeroDivisor {op : BinaryOp} {v w : Value} (hkind : v.kind = w.kind)
    (hfit : op.operands.accepts v.kind = true) :
    (∃ r, op.apply v w = .ok r ∧ r.kind = op.resultKind v.kind) ∨
      op.apply v w = .error .zeroDivisor ∧ op = .div ∧ v.kind = .int := by
  cases v <;> cases w <;> first | contradiction | skip
  case int.int i j =>
    by_cases hop : op = .div
    · subst hop
      by_cases hj : j = 0
      · exact .inr ⟨if_pos hj, rfl, rfl⟩
      · exact .inl ⟨.int (i / j), if_neg hj, rfl⟩
    · cases op <;> first | exact .inl ⟨_, rfl, rfl⟩ | contradiction
  all_goals
    cases op <;> first | exact .inl ⟨_, rfl, rfl⟩ | contradiction

/-- Operands of two kinds, or of one kind that does not fit, are a mismatch. -/
theorem apply_mismatch {op : BinaryOp} {v w : Value}
    (hfit : ¬(v.kind = w.kind ∧ op.operands.accepts v.kind = true)) :
    op.apply v w = .error .mismatch := by
  cases v <;> cases w <;> cases op <;> first | rfl | exact absurd ⟨rfl, rfl⟩ hfit

end BinaryOp

end Abacus
