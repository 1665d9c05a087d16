import Abacus.Proofs.Emit.FaultAgreement
import Abacus.Proofs.Failing

/-!
# What a function body computes

The statements of a body are run by the rules of the language that they are
written in.  `Rhs.eval` evaluates a right-hand side over the locals declared so
far, and `runStatements` runs the statements up to a return.  The rules know an
operator by the symbol that is printed for it: `int32` results wrap, and an
`int32` division by zero is a trap, which ends the call with no result at all.

`runStatements_ofCode` compares this with the machine: from a state in which
every local on the symbolic stack holds the value on the machine's stack, the
statements return the value that the machine returns, or the text of its fault.
The guard in front of a division is what keeps the trap out of reach.
-/

namespace Abacus

/-! ## The rules of the statements -/

/-- Why a call of the function comes to no return. -/
inductive Trap where
  /-- An integer division by zero was evaluated. -/
  | zeroDivision
  /-- No rule applies: a local is unknown or declared twice, an operator does not
  have operands of these types, or the body ends without a return. -/
  | illFormed
  deriving DecidableEq

/-- How a call of the function ends. -/
inductive CallOutcome where
  | returned (v : Value)
  /-- It returns an error with this text. -/
  | failed (text : Bytes)
  | trapped (t : Trap)
  deriving DecidableEq

namespace Emit

/-- The truth value of a local of type `bool`.  An untagged constant is written
as `false`. -/
def truthOf? : Value → Option Bool
  | .bool b => some b
  | .untagged => some false
  | _ => none

def unaryValue (symbol : Bytes) (v : Value) : Except Trap Value :=
  if symbol = utf8 "-" then
    match v with
    | .int i => .ok (.int (.ofInt (-i.toInt)))
    | .float x => .ok (.float x.neg)
    | _ => .error .illFormed
  else if symbol = utf8 "!" then
    match truthOf? v with
    | some b => .ok (.bool !b)
    | none => .error .illFormed
  else .error .illFormed

/-- An operator between two integers, given by their values.  The result wraps to
32 bits; a quotient is rounded toward zero. -/
def onInts (symbol : Bytes) (i j : Int) : Except Trap Value :=
  if symbol = utf8 "+" then .ok (.int (.ofInt (i + j)))
  else if symbol = utf8 "-" then .ok (.int (.ofInt (i - j)))
  else if symbol = utf8 "*" then .ok (.int (.ofInt (i * j)))
  else if symbol = utf8 "/" then
    if j = 0 then .error .zeroDivision else .ok (.int (.ofInt (i.tdiv j)))
  else if symbol = utf8 "==" then .ok (.bool (i = j))
  else if symbol = utf8 "!=" then .ok (.bool (i ≠ j))
  else if symbol = utf8 "<" then .ok (.bool (i < j))
  else if symbol = utf8 "<=" then .ok (.bool (i ≤ j))
  else if symbol = utf8 ">" then .ok (.bool (j < i))
  else if symbol = utf8 ">=" then .ok (.bool (j ≤ i))
  else .error .illFormed

def onFloats (symbol : Bytes) (x y : Binary32) : Except Trap Value :=
  if symbol = utf8 "+" then .ok (.float (x.add y))
  else if symbol = utf8 "-" then .ok (.float (x.sub y))
  else if symbol = utf8 "*" then .ok (.float (x.mul y))
  else if symbol = utf8 "/" then .ok (.float (x.div y))
  else if symbol = utf8 "==" then .ok (.bool (x.eq y))
  else if symbol = utf8 "!=" then .ok (.bool !(x.eq y))
  else if symbol = utf8 "<" then .ok (.bool (x.lt y))
  else if symbol = utf8 "<=" then .ok (.bool (x.le y))
  else if symbol = utf8 ">" then .ok (.bool (y.lt x))
  else if symbol = utf8 ">=" then .ok (.bool (y.le x))
  else .error .illFormed

def onTruths (symbol : Bytes) (b c : Bool) : Except Trap Value :=
  if symbol = utf8 "==" then .ok (.bool (b = c))
  else if symbol = utf8 "!=" then .ok (.bool (b ≠ c))
  else if symbol = utf8 "&&" then .ok (.bool (b && c))
  else if symbol = utf8 "||" then .ok (.bool (b || c))
  else .error .illFormed

def binaryValue (symbol : Bytes) (v w : Value) : Except Trap Value :=
  match v, w with
  | .int i, .int j => onInts symbol i.toInt j.toInt
  | .float x, .float y => onFloats symbol x y
  | v, w =>
    match truthOf? v, truthOf? w with
    | some b, some c => onTruths symbol b c
    | _, _ => .error .illFormed

/-- Whether a local compares equal to the constant `0`, which a truth value does
not do at all. -/
def isZero? : Value → Option Bool
  | .int i => some (i.toInt = 0)
  | .float x => some (x.eq (.zero false))
  | _ => none

/-- The text of the error that the guard of a division returns. -/
def guardText : Bytes := utf8 "integer division by zero"

end Emit

/-- The locals declared so far, by number. -/
abbrev Locals := Nat → Option Value

namespace Locals

def empty : Locals := fun _ => none

def declare (locals : Locals) (slot : Nat) (v : Value) : Locals :=
  fun i => if i = slot then some v else locals i

def read (locals : Locals) (slot : Nat) : Except Trap Value :=
  match locals slot with
  | some v => .ok v
  | none => .error .illFormed

end Locals

/-- The value of a right-hand side. -/
def Rhs.eval (locals : Locals) : Rhs → Except Trap Value
  | .constant v => .ok v
  | .truth b => .ok (.bool b)
  | .unary op a => do
    let v ← locals.read a
    Emit.unaryValue op.symbol v
  | .binary op a b => do
    let v ← locals.read a
    let w ← locals.read b
    Emit.binaryValue op.symbol v w

/-- Runs the statements of a body. -/
def runStatements : Locals → List Statement → CallOutcome
  | _, [] => .trapped .illFormed
  | locals, .declare slot rhs :: rest =>
    match locals slot, rhs.eval locals with
    | some _, _ => .trapped .illFormed
    | none, .error t => .trapped t
    | none, .ok v => runStatements (locals.declare slot v) rest
  | locals, .guardZero slot :: rest =>
    match (locals slot).bind Emit.isZero? with
    | none => .trapped .illFormed
    | some true => .failed Emit.guardText
    | some false => runStatements locals rest
  | locals, .discard slot :: rest =>
    match locals slot with
    | none => .trapped .illFormed
    | some _ => runStatements locals rest
  | locals, .result slot :: _ =>
    match locals slot with
    | none => .trapped .illFormed
    | some v => .returned v

/-- A call of the function with the given body. -/
def Body.call (b : Body) : CallOutcome :=
  runStatements .empty b.statements

/-! ## Operators -/

section Operators

theorem ofInt_tdiv_toInt (i j : Int32) : Int32.ofInt (i.toInt.tdiv j.toInt) = i / j := by
  rw [Int32.ofInt_tdiv (Int32.minValue_le_toInt i) (Int32.toInt_le i)
    (Int32.minValue_le_toInt j) (Int32.toInt_le j), Int32.ofInt_toInt, Int32.ofInt_toInt]

/-- A unary operator means the same to the machine and to the statements. -/
theorem unaryValue_symbol {op : UnaryOp} {v r : Value} (happly : op.apply v = .ok r) :
    Emit.unaryValue op.symbol v = .ok r := by
  cases op <;> cases v <;> cases happly
  · rename_i i
    show Except.ok (Value.int (.ofInt (-i.toInt))) = _
    rw [Int32.ofInt_neg, Int32.ofInt_toInt]
  · rfl
  · rfl

/-- The trap that stands for the failure of an operator. -/
def OpFault.trap : OpFault → Trap
  | .mismatch => .illFormed
  | .zeroDivisor => .zeroDivision

theorem onInts_symbol (op : BinaryOp) (i j : Int32) :
    Emit.onInts op.symbol i.toInt j.toInt = (op.onInts i j).mapError OpFault.trap := by
  cases op with
  | add =>
    show Except.ok (Value.int (.ofInt (i.toInt + j.toInt))) = .ok (.int (i + j))
    rw [Int32.ofInt_add, Int32.ofInt_toInt, Int32.ofInt_toInt]
  | sub =>
    show Except.ok (Value.int (.ofInt (i.toInt - j.toInt))) = .ok (.int (i - j))
    rw [Int32.ofInt_sub, Int32.ofInt_toInt, Int32.ofInt_toInt]
  | mul =>
    show Except.ok (Value.int (.ofInt (i.toInt * j.toInt))) = .ok (.int (i * j))
    rw [Int32.ofInt_mul, Int32.ofInt_toInt, Int32.ofInt_toInt]
  | div =>
    show (if j.toInt = 0 then .error Trap.zeroDivision
      else Except.ok (Value.int (.ofInt (i.toInt.tdiv j.toInt)))) = _
    have hzero : j.toInt = 0 ↔ j = 0 := by
      rw [← Int32.toInt_inj, Int32.toInt_zero]
    rw [ofInt_tdiv_toInt]
    unfold BinaryOp.onInts
    by_cases hj : j = 0
    · rw [if_pos (hzero.mpr hj), if_pos hj]
      rfl
    · rw [if_neg (mt hzero.mp hj), if_neg hj]
      rfl
  | greater =>
    show Except.ok (Value.bool (j.toInt < i.toInt)) = .ok (.bool (j < i))
    simp only [Int32.lt_iff_toInt_lt]
  | less =>
    show Except.ok (Value.bool (i.toInt < j.toInt)) = .ok (.bool (i < j))
    simp only [Int32.lt_iff_toInt_lt]
  | greaterEqual =>
    show Except.ok (Value.bool (j.toInt ≤ i.toInt)) = .ok (.bool (j ≤ i))
    simp only [Int32.le_iff_toInt_le]
  | lessEqual =>
    show Except.ok (Value.bool (i.toInt ≤ j.toInt)) = .ok (.bool (i ≤ j))
    simp only [Int32.le_iff_toInt_le]
  | equal =>
    show Except.ok (Value.bool (i.toInt = j.toInt)) = .ok (.bool (i = j))
    simp only [Int32.toInt_inj]
  | notEqual =>
    show Except.ok (Value.bool (i.toInt ≠ j.toInt)) = .ok (.bool (i ≠ j))
    simp only [ne_eq, Int32.toInt_inj]
  | and => rfl
  | or => rfl

theorem onFloats_symbol (op : BinaryOp) (x y : Binary32) :
    Emit.onFloats op.symbol x y = (op.onFloats x y).mapError OpFault.trap := by
  cases op <;> rfl

theorem onTruths_symbol (op : BinaryOp) (b c : Bool) :
    Emit.onTruths op.symbol b c = (op.onBools b c).mapError OpFault.trap := by
  cases op <;> rfl

/-- Where the machine has a result, a binary operator means the same to the
statements. -/
theorem binaryValue_symbol {op : BinaryOp} {v w r : Value} (happly : op.apply v w = .ok r) :
    Emit.binaryValue op.symbol v w = .ok r := by
  cases v <;> cases w <;> first | contradiction | skip
  case int.int i j =>
    show Emit.onInts op.symbol i.toInt j.toInt = .ok r
    rw [onInts_symbol, show op.onInts i j = .ok r from happly]
    rfl
  case float.float x y =>
    show Emit.onFloats op.symbol x y = .ok r
    rw [onFloats_symbol, show op.onFloats x y = .ok r from happly]
    rfl
  case bool.bool b c =>
    show Emit.onTruths op.symbol b c = .ok r
    rw [onTruths_symbol, show op.onBools b c = .ok r from happly]
    rfl
  case untagged.untagged =>
    -- Both are written as `false`, so only a comparison can tell their result.
    cases op <;> first | contradiction | (cases happly; rfl)

/-- The guard of a division fails exactly on the divisors that the machine
refuses. -/
theorem apply_div_int {v w : Value} (hv : v.kind = .int) (hw : w.kind = .int) :
    ∃ z, Emit.isZero? w = some z ∧ (z = true ↔ BinaryOp.div.apply v w = .error .zeroDivisor) := by
  cases v <;> cases hv
  cases w <;> cases hw
  rename_i i j
  refine ⟨_, rfl, ?_⟩
  show decide (j.toInt = 0) = true ↔ (if j = 0 then _ else _) = _
  rw [decide_eq_true_iff, ← Int32.toInt_zero, Int32.toInt_inj]
  by_cases hj : j = 0 <;> simp [hj]

end Operators

/-! ## One statement -/

section Statements

variable {locals : Locals} {slot : Nat} {v : Value} {rest : List Statement}

theorem Locals.declare_self : locals.declare slot v slot = some v :=
  if_pos rfl

theorem Locals.declare_of_ne {i : Nat} (hi : i ≠ slot) : locals.declare slot v i = locals i :=
  if_neg hi

theorem runStatements_declare {rhs : Rhs} (hfresh : locals slot = none)
    (heval : rhs.eval locals = .ok v) :
    runStatements locals (.declare slot rhs :: rest) =
      runStatements (locals.declare slot v) rest := by
  rw [runStatements, hfresh, heval]

theorem runStatements_discards {slots : List Slot}
    (hslots : ∀ s ∈ slots, (locals s.index).isSome = true) :
    runStatements locals (slots.map (fun s => .discard s.index) ++ rest) =
      runStatements locals rest := by
  induction slots with
  | nil => rfl
  | cons s slots ih =>
    obtain ⟨v, hv⟩ := Option.isSome_iff_exists.mp (hslots s List.mem_cons_self)
    rw [List.map_cons, List.cons_append, runStatements, hv]
    exact ih fun s hs => hslots s (List.mem_cons_of_mem _ hs)

/-- A division that has a result passes its guard; other operators have none. -/
theorem runStatements_guard {op : BinaryOp} {w r : Value} (hkind : v.kind = w.kind)
    (hslot : locals slot = some w) (happly : op.apply v w = .ok r) :
    runStatements locals (Body.guard op v.kind slot ++ rest) = runStatements locals rest := by
  unfold Body.guard
  split
  · next hdiv =>
    obtain ⟨rfl, hint⟩ := hdiv
    obtain ⟨z, hz, hiff⟩ := apply_div_int hint (hkind ▸ hint)
    have hfalse : z = false := by
      rw [happly] at hiff
      simpa using hiff
    rw [List.singleton_append, runStatements, hslot, Option.bind_some, hz, hfalse]
  · rfl

/-- A division by zero ends the call at its guard. -/
theorem runStatements_guard_zero {w : Value} (hint : v.kind = .int) (hkind : v.kind = w.kind)
    (hslot : locals slot = some w) (happly : BinaryOp.div.apply v w = .error .zeroDivisor) :
    runStatements locals (Body.guard .div v.kind slot ++ rest) = .failed Emit.guardText := by
  obtain ⟨z, hz, hiff⟩ := apply_div_int hint (hkind ▸ hint)
  rw [Body.guard, if_pos ⟨rfl, hint⟩, List.singleton_append, runStatements, hslot,
    Option.bind_some, hz, hiff.mpr happly]

end Statements

/-! ## Bodies and runs -/

/-- Every local on the symbolic stack holds the value at its place on the
machine's stack, and the locals from `next` on are free. -/
structure Represents (locals : Locals) (next : Nat) (slots : List Slot) (s : Stack) : Prop where
  values : List.Forall₂ (fun slot v => slot.kind = v.kind ∧ locals slot.index = some v) slots s
  fresh : ∀ i, next ≤ i → locals i = none

namespace Represents

variable {locals : Locals} {next : Nat} {slots : List Slot} {s : Stack}

theorem abstracts (h : Represents locals next slots s) : Abstracts slots s :=
  h.values.imp fun _ _ hslot => hslot.1

theorem tail {slot : Slot} {v : Value} (h : Represents locals next (slot :: slots) (v :: s)) :
    Represents locals next slots s :=
  ⟨(List.forall₂_cons.mp h.values).2, h.fresh⟩

theorem head {slot : Slot} {v : Value} (h : Represents locals next (slot :: slots) (v :: s)) :
    slot.kind = v.kind ∧ locals slot.index = some v :=
  (List.forall₂_cons.mp h.values).1

/-- Declaring the next local puts its value on both stacks. -/
theorem push {k : Kind} {v : Value} (h : Represents locals next slots s) (hk : k = v.kind) :
    Represents (locals.declare next v) (next + 1) (⟨next, k⟩ :: slots) (v :: s) := by
  constructor
  · refine .cons ⟨hk, Locals.declare_self⟩ (h.values.imp ?_)
    rintro slot w ⟨hkind, hslot⟩
    refine ⟨hkind, ?_⟩
    rw [Locals.declare_of_ne, hslot]
    -- A slot that holds a value is not the fresh one.
    rintro hindex
    rw [h.fresh slot.index (by omega)] at hslot
    contradiction
  · intro i hi
    rw [Locals.declare_of_ne (by omega)]
    exact h.fresh i (by omega)

theorem isSome {slot : Slot} (h : Represents locals next slots s) (hslot : slot ∈ slots) :
    (locals slot.index).isSome = true := by
  obtain ⟨v, hv⟩ : ∃ v, locals slot.index = some v := by
    have hvalues := h.values
    induction hvalues with
    | nil => simp at hslot
    | cons hhead htail ih =>
      obtain rfl | hslot := List.mem_cons.mp hslot
      · exact ⟨_, hhead.2⟩
      · exact ih h.tail hslot
  rw [hv]
  rfl

end Represents

/-- The end of a call that does what a run of the machine does. -/
def callOutcome : Except RuntimeFault Value → CallOutcome
  | .ok v => .returned v
  | .error f => .failed f.cause.message

theorem Body.before_eq_ok {statements : List Statement} {walk : Except RuntimeFault Body}
    {body : Body} (h : Body.before statements walk = .ok body) :
    ∃ inner, walk = .ok inner ∧ body.statements = statements ++ inner.statements := by
  cases walk with
  | error f => contradiction
  | ok inner =>
    cases h
    exact ⟨inner, rfl, rfl⟩

/-- From related states on, the statements of a body do what the run does.  The
induction follows the walk that found the body. -/
theorem runStatements_ofCode {pool : List Value} {depth : Int} (hdepth : 0 < depth)
    (offset next : Nat) (slots : List Slot) (code : Bytes) (s : Stack) (locals : Locals)
    {body : Body} (hrep : Represents locals next slots s) (hroom : slots.length ≤ depth.toNat)
    (hbody : Body.ofCode pool depth offset next slots code = .ok body) :
    runStatements locals body.statements =
      callOutcome (runFrom pool depth.toNat offset s code).result := by
  fun_induction Body.ofCode pool depth offset next slots code generalizing s locals body with
  | case6 offset next slots b hop index rest v hindex hfull ih =>
    rw [isFull_iff hdepth hrep.abstracts] at hfull
    have hlength : slots.length = s.length := List.Forall₂.length_eq hrep.values
    obtain ⟨inner, hinner, hstatements⟩ := Body.before_eq_ok hbody
    rw [runFrom_const hop hindex (by omega), hstatements, List.singleton_append,
      runStatements_declare (hrep.fresh next (Nat.le_refl _)) rfl]
    exact ih _ _ (hrep.push rfl) (by simp; omega) hinner
  | case8 offset next slots b rest t hop hfull ih =>
    rw [isFull_iff hdepth hrep.abstracts] at hfull
    have hlength : slots.length = s.length := List.Forall₂.length_eq hrep.values
    obtain ⟨inner, hinner, hstatements⟩ := Body.before_eq_ok hbody
    rw [runFrom_truth hop (by omega), hstatements, List.singleton_append,
      runStatements_declare (hrep.fresh next (Nat.le_refl _)) rfl]
    exact ih _ _ (hrep.push rfl) (by simp; omega) hinner
  | case10 offset next b rest op hop a slots hfit hfull ih =>
    have hempty : Body.isFull depth slots = false := isFull_eq_false fun _ => hroom
    rw [hempty] at hfull
    cases hfull
  | case11 offset next b rest op hop a slots hfit hfull ih =>
    cases s with
    | nil => cases hrep.values
    | cons v s =>
      obtain ⟨hkind, hslot⟩ := hrep.head
      rw [hkind] at hfit
      obtain ⟨r, happly, hresult⟩ := UnaryOp.apply_ok hfit
      obtain ⟨inner, hinner, hstatements⟩ := Body.before_eq_ok hbody
      have heval : (Rhs.unary op a.index).eval locals = .ok r := by
        simp only [Rhs.eval, Locals.read, hslot, ok_bind]
        exact unaryValue_symbol happly
      rw [runFrom_unary hop happly, hstatements, List.singleton_append,
        runStatements_declare (hrep.fresh next (Nat.le_refl _)) heval]
      exact ih _ _ (hrep.tail.push (by rw [hresult, hkind])) hroom hinner
  | case13 offset next b rest op hop r l slots hfit _ ih =>
    rcases s with _ | ⟨w, _ | ⟨v, s⟩⟩
    · cases hrep.values
    · cases hrep.tail.values
    · obtain ⟨hright, hslotRight⟩ := hrep.head
      obtain ⟨hleft, hslotLeft⟩ := hrep.tail.head
      simp only [Body.operandsFit, hleft, hright, Bool.and_eq_true, decide_eq_true_eq] at hfit
      have hless : slots.length + 2 ≤ depth.toNat := hroom
      have hempty : Body.isFull depth slots = false := isFull_eq_false fun _ => by omega
      rw [hempty] at hbody
      obtain ⟨guarded, hguarded, hstatements⟩ := Body.before_eq_ok hbody
      obtain ⟨inner, hinner, hdeclared⟩ := Body.before_eq_ok hguarded
      rw [hstatements, hleft]
      obtain ⟨x, happly, hresult⟩ | ⟨happly, rfl, hint⟩ :=
        BinaryOp.apply_ok_or_zeroDivisor hfit.1 hfit.2
      · have heval : (Rhs.binary op l.index r.index).eval locals = .ok x := by
          simp only [Rhs.eval, Locals.read, hslotLeft, hslotRight, ok_bind]
          exact binaryValue_symbol happly
        rw [runFrom_binary hop happly, runStatements_guard hfit.1 hslotRight happly, hdeclared,
          List.singleton_append,
          runStatements_declare (hrep.fresh next (Nat.le_refl _)) heval]
        exact ih _ _ (hrep.tail.tail.push (by rw [hresult, hleft])) (by simp; omega) hinner
      · -- The machine faults at the division, and the call ends at the guard before it.
        rw [runFrom_binary_error hop happly, runStatements_guard_zero hint hfit.1 hslotRight happly]
        rfl
  | case17 offset next b rest hop a slots =>
    cases s with
    | nil => cases hrep.values
    | cons v s =>
      cases hbody
      rw [runFrom_return hop, runStatements_discards, runStatements, hrep.head.2]
      · rfl
      · intro slot hslot
        exact hrep.tail.isSome (List.mem_reverse.mp hslot)
  | _ => contradiction

/-! ## Chunks -/

/-- Calling the function of a chunk does what executing the chunk on a machine of
its depth does.  The call returns a value exactly when the machine does, and the
same one; it returns the error of the guard exactly when the machine faults with a
division by zero; and it evaluates no integer division by zero, nor does it run
into a local that is unknown or of the wrong type. -/
theorem call_eq_execute (c : Chunk) {depth : Int} (hdepth : 0 < depth) (m : Machine)
    (hcapacity : (m.capacity : Int) = depth) {body : Body} (hbody : c.body depth = .ok body) :
    (∀ v, body.call = .returned v ↔ (m.execute c).1.result = .ok v) ∧
    (body.call = .failed (utf8 "integer division by zero") ↔
      ∃ f, (m.execute c).1.result = .error f ∧ f.cause = .divisionByZero) ∧
    ∀ t, body.call ≠ .trapped t := by
  have hm : m.capacity = depth.toNat := by omega
  have hcall : body.call = callOutcome (m.execute c).1.result := by
    rw [Machine.execute_result, hm]
    exact runStatements_ofCode hdepth 0 0 [] c.code [] .empty ⟨.nil, fun _ _ => rfl⟩
      (Nat.zero_le _) hbody
  have htold : Foretells (.ok body) (m.execute c).1.result := by
    rw [Machine.execute_result, hm, ← hbody]
    exact ofCode_foretells_run hdepth 0 0 [] c.code [] .nil (Nat.zero_le _)
  rw [hcall]
  obtain ⟨v, hv, -⟩ | ⟨g, hg, hcause⟩ := htold
  · rw [hv]
    exact ⟨fun w => by simp [callOutcome], by simp [callOutcome], fun t => by simp [callOutcome]⟩
  · have htext : callOutcome (.error g) = .failed (utf8 "integer division by zero") := by
      rw [callOutcome, hcause]
      rfl
    rw [hg, htext]
    exact ⟨fun w => by simp, by simp [hcause], fun t => by simp⟩

/-- A chunk that leaves a value under its quotient, and has code behind the
return: its body discards the value and the call returns the quotient. -/
theorem call_eq_execute_quotient :
    let c : Chunk :=
      { Chunk.empty with
        code? := some [0x12, 0x10, 0x00, 0x10, 0x01, 0x53, 0xf0, 0x13]
        constants := [.int (-7), .int 2] }
    let m := Machine.withDepth 3
    let body : Body :=
      ⟨[.declare 0 (.truth true), .declare 1 (.constant (.int (-7))),
        .declare 2 (.constant (.int 2)), .guardZero 2, .declare 3 (.binary .div 1 2),
        .discard 0, .result 3], .int⟩
    (0 : Int) < 3 ∧ (m.capacity : Int) = 3 ∧ c.body 3 = .ok body ∧
      body.call = .returned (.int (-3)) ∧ (m.execute c).1.result = .ok (.int (-3)) := by
  intro c m body
  have hbody : c.body 3 = .ok body := by decide
  have hcall : body.call = .returned (.int (-3)) := by decide
  exact ⟨by decide, by decide, hbody, hcall,
    ((call_eq_execute c (by decide) m (by decide) hbody).1 _).mp hcall⟩

end Abacus
