import Abacus.Proofs.Typing.Soundness

/-!
# Where an evaluation stops

An expression that has a kind evaluates to a value of the kind or stops at a division
by zero (`eval_of_typeOf`).  Other evaluations stop for another reason at a node that
can be told from the kinds alone, unless a division by zero comes before it.
`Expr.EndsBy` says this of an outcome, for whatever reason.  It is carried from an
operand to the operator above it (`EndsBy.above`), and holds as soon as the left operand
divides by zero (`endsBy_of_left`).
-/

namespace Abacus

namespace Expr

/-- What an expression of the kind comes to: a value of the kind, or a division by zero
that stops the evaluation. -/
def Yields (k : Kind) : Except EvalFault Value → Prop
  | .ok v => v.kind = k
  | .error g => g.cause = .divisionByZero

theorem eval_of_typeOf {e : Expr} {k : Kind} (h : e.typeOf = .ok k) : Yields k e.eval := by
  have hfits : Fits k e.need (e.evalOn e.need 0) := evalOn_of_typeOf h
  rw [evalOn_eq_eval (by omega)] at hfits
  cases heval : e.eval with
  | ok v =>
    rw [heval] at hfits
    exact hfits
  | error g =>
    rw [heval] at hfits
    rcases hfits with hzero | hfull
    · exact hzero
    · -- Without a bound on the stack there is no overflow.
      have hcause := (stopsAt_of_eval heval).cause
      rw [hfull] at hcause
      simp [FaultCause.isMismatch] at hcause

/-- The outcome of an evaluation is that it ends at the node for the given reason, or
before it at a division by zero. -/
def EndsBy (e : Expr) (outcome : Except EvalFault Value) (reason : FaultCause → Prop)
    (path : NodePath) (n : Expr) : Prop :=
  ∃ g, outcome = .error g ∧
    (reason g.cause ∧ g.path = path ∧ g.node = n ∨
      g.cause = .divisionByZero ∧ e.offsetOf g.path < e.offsetOf path)

section EndsBy

variable {e l r n : Expr} {outcome outcome' : Except EvalFault Value}
  {reason : FaultCause → Prop} {g : EvalFault} {path : NodePath} {k : Kind}

/-- What ends an operand ends the expression above it, if the evaluation gets to the
operand.  The code of the operand starts at the offset `start`. -/
theorem EndsBy.above {above : Expr} {side : Side} (start : Nat)
    (h : e.EndsBy outcome reason path n)
    (houtcome : ∀ g, outcome = .error g → outcome' = .error (g.under side))
    (hoffset : ∀ path, above.offsetOf (side :: path) = start + e.offsetOf path) :
    above.EndsBy outcome' reason (side :: path) n := by
  obtain ⟨g, hstop, hg⟩ := h
  refine ⟨g.under side, houtcome g hstop, ?_⟩
  rcases hg with ⟨hcause, rfl, rfl⟩ | ⟨hcause, hbefore⟩
  · exact .inl ⟨hcause, rfl, rfl⟩
  · refine .inr ⟨hcause, ?_⟩
    show above.offsetOf (side :: g.path) < above.offsetOf (side :: path)
    rw [hoffset, hoffset]
    omega

/-- A left operand that has a kind and no value divides by zero, and that comes before
whatever stands behind its code. -/
theorem endsBy_of_left {op : BinaryOp} {span mark : Span} (hleft : l.typeOf = .ok k)
    (heval : l.eval = .error g) (houtcome : outcome = .error (g.under .left))
    (hbehind : l.codeSize ≤ (Expr.binary op span mark l r).offsetOf path) :
    (Expr.binary op span mark l r).EndsBy outcome reason path n := by
  have hzero := eval_of_typeOf hleft
  rw [heval] at hzero
  have hlt : l.offsetOf g.path < l.codeSize := offsetOf_lt (stopsAt_of_eval heval).node
  refine ⟨g.under .left, houtcome, .inr ⟨hzero, ?_⟩⟩
  show l.offsetOf g.path < _
  omega

end EndsBy

end Expr

end Abacus
