import Abacus.Expr.Parse
import Abacus.Proofs.Failing
import Abacus.Proofs.Grammar.Derivation
import Abacus.Proofs.Number.Decimal

/-!
# Literals

What a literal token denotes, and when: `leafOf` is the leaf of its exact value,
and `InRange` says that the calculator has that value.  `readLeaf?` is what the
parser makes of the token.  The two agree on tokens whose texts have the form of
numbers (`readLeaf?_eq_some_iff`).
-/

namespace Abacus

namespace Grammar

/-! ## The value of a literal -/

/-- The text of a number is one: digits, with a point between them if the token
is a floating-point number. -/
def HasNumberText (source : Bytes) (t : Token) : Prop :=
  match t.kind with
  | .integer => IsNumeral (t.text source)
  | .float => IsDecimal (t.text source)
  | _ => True

/-- An integer has 32 bits, and a floating-point number is nearest to a finite
one. -/
def InRange (source : Bytes) (t : Token) : Prop :=
  match t.kind with
  | .integer => Bytes.digitsValue (t.text source) ≤ maxInteger
  | .float => coefficient (t.text source) < floatLimit * denominator (t.text source)
  | _ => True

/-- The leaf of a literal. -/
def leafOf (source : Bytes) (t : Token) : Expr :=
  match t.kind with
  | .integer => .ofInt (Int32.ofInt (Bytes.digitsValue (t.text source))) t.span
  | .float =>
    .ofFloat (.ofMagnitude false (Binary32.nearest
      (coefficient (t.text source) * Binary32.oneSteps) (denominator (t.text source)))) t.span
  | k => .ofBool (k = .word .true) t.span

theorem inRange_of_not_isLiteral {source : Bytes} {t : Token} (h : ¬ isLiteral t.kind = true) :
    InRange source t := by
  unfold InRange
  split <;> simp_all [isLiteral]

/-! ## Reading a literal -/

/-- The leaf that the parser reads from a literal. -/
def readLeaf? (source : Bytes) (t : Token) : Option Expr :=
  match t.kind with
  | .integer => (readInt32? (t.text source)).map fun i => .ofInt i t.span
  | .float => (readFloat (t.text source)).toOption.map fun x => .ofFloat x t.span
  | .word .true => some (.ofBool true t.span)
  | .word .false => some (.ofBool false t.span)
  | _ => none

/-- The leaf that the parser reads from a literal, or any leaf. -/
def readLeaf (source : Bytes) (t : Token) : Expr :=
  (readLeaf? source t).getD (.ofBool false t.span)

section Literals

variable {input : Parse.Input} {t : Token} {ts rest : List Token} {e : Expr}

theorem literal_cons_ok_iff :
    Parse.literal input (t :: ts) = .ok (e, rest) ↔
      readLeaf? input.source t = some e ∧ ts = rest := by
  unfold Parse.literal readLeaf?
  simp only [Parse.Input.next, List.headD_cons, List.tail_cons]
  cases hkind : t.kind with
  | integer => cases readInt32? (t.text input.source) <;> simp
  | float => rcases readFloat (t.text input.source) with (_ | _) | _ <;> simp
  | word w => cases w <;> simp
  | _ => simp

theorem literal_nil_ne_ok (hfinal : input.final.kind = .endOfInput) :
    Parse.literal input [] ≠ .ok (e, rest) := by
  simp [Parse.literal, Parse.Input.next, hfinal]

theorem isLiteral_of_readLeaf? {source : Bytes} (h : readLeaf? source t = some e) :
    isLiteral t.kind = true := by
  unfold readLeaf? at h
  split at h <;> simp_all [isLiteral]

/-- On a text that has the form of a number, the parser reads what the literal
denotes, if the calculator has it. -/
theorem readLeaf?_eq_some_iff {source : Bytes} (htext : HasNumberText source t)
    (hkind : isLiteral t.kind = true) :
    readLeaf? source t = some e ↔ InRange source t ∧ leafOf source t = e := by
  unfold HasNumberText at htext
  unfold readLeaf? InRange leafOf
  cases hk : t.kind with
  | integer =>
    simp only [hk] at htext ⊢
    rw [readInt32?_numeral htext]
    split <;> simp_all
  | float =>
    simp only [hk] at htext ⊢
    rw [readFloat_decimal htext]
    split <;> simp_all
  | word w => cases w <;> simp_all [isLiteral]
  | _ => simp_all [isLiteral]

end Literals

end Grammar

end Abacus
