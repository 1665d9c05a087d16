import Abacus.Emit.File
import Abacus.Proofs.Emit.Constants
import Abacus.Proofs.Emit.FaultAgreement

/-!
# Scopes and types of function bodies

`Body.WellFormed` says what the compiler of the emitted language asks of a body: its locals
are declared in order and each once, no local is read before its declaration, none is left
unused, every operator has operands of the types that it needs, and the one return without
an error stands last and returns the declared type.

The statements that the walk emits from some point on are described by `Body.Continues`.
They have to use every local that is still on the stack, and may read what has been
declared before.  Each step of the walk puts a declaration or a guard in front
(`Continues.declare`, `Continues.guard`), and a return ends them (`Continues.ofReturn`).
-/

namespace Abacus

/-! ## The rules -/

namespace Emit

/-- The types of the emitted language that a local may have. -/
inductive LocalType where
  | int32 | float32 | bool
  deriving DecidableEq

namespace LocalType

/-- The type in writing. -/
def name : LocalType → Bytes
  | .int32 => utf8 "int32"
  | .float32 => utf8 "float32"
  | .bool => utf8 "bool"

/-- The type of a local that holds values of the kind. -/
def ofKind : Kind → LocalType
  | .int => .int32
  | .float => .float32
  | .bool | .untagged => .bool

theorem name_ofKind (k : Kind) : (ofKind k).name = typeName k := by
  cases k <;> rfl

end LocalType

/-- The type of an operator's result, given the symbol of the operator and the type of its
operand. -/
def unaryType? (symbol : Bytes) (t : LocalType) : Option LocalType :=
  if symbol = utf8 "-" then if t = .bool then none else some t
  else if symbol = utf8 "!" then if t = .bool then some .bool else none
  else none

/-- The type of an operator's result, given the symbol of the operator and the types of its
operands.  Both must be the same. -/
def binaryType? (symbol : Bytes) (t u : LocalType) : Option LocalType :=
  if t ≠ u then none
  else if symbol = utf8 "+" ∨ symbol = utf8 "-" ∨ symbol = utf8 "*" ∨ symbol = utf8 "/" then
    if t = .bool then none else some t
  else if symbol = utf8 "<" ∨ symbol = utf8 "<=" ∨ symbol = utf8 ">" ∨ symbol = utf8 ">=" then
    if t = .bool then none else some .bool
  else if symbol = utf8 "==" ∨ symbol = utf8 "!=" then some .bool
  else if symbol = utf8 "&&" ∨ symbol = utf8 "||" then if t = .bool then some .bool else none
  else none

/-- The type of a constant in writing. -/
def constantType? (s : Bytes) : Option LocalType :=
  (Value.ofExpression? s).map fun v => .ofKind v.kind

end Emit

open Emit (LocalType)

namespace Rhs

/-- The locals that a right-hand side reads. -/
def reads : Rhs → List Nat
  | .constant _ | .truth _ => []
  | .unary _ a => [a]
  | .binary _ a b => [a, b]

/-- The type of a right-hand side, given those of the locals.  The type of a constant is
that of what its text denotes. -/
def type? (types : List LocalType) : Rhs → Option LocalType
  | .constant v => Emit.constantType? (Rhs.constant v).text
  | .truth b => Emit.constantType? (Rhs.truth b).text
  | .unary op a => do
    let t ← types[a]?
    Emit.unaryType? op.symbol t
  | .binary op a b => do
    let t ← types[a]?
    let u ← types[b]?
    Emit.binaryType? op.symbol t u

end Rhs

namespace Statement

/-- The local that a statement declares. -/
def declared? : Statement → Option Nat
  | .declare slot _ => some slot
  | _ => none

/-- The locals that a statement reads. -/
def reads : Statement → List Nat
  | .declare _ rhs => rhs.reads
  | .guardZero slot | .discard slot | .result slot => [slot]

/-- The locals that a statement reads in an operator, a discard or the return. -/
def uses : Statement → List Nat
  | .guardZero _ => []
  | s => s.reads

/-- Whether the types of the locals suit the statement.  Only an integer is compared with
zero. -/
def Typed (types : List LocalType) : Statement → Prop
  | .declare slot rhs => ∃ t, types[slot]? = some t ∧ rhs.type? types = some t
  | .guardZero slot => types[slot]? = some .int32
  | .discard slot | .result slot => slot < types.length

end Statement

/-- What the compiler of the emitted language asks of a body whose locals have the given
types. -/
structure Body.WellFormed (b : Body) (types : List LocalType) : Prop where
  declared : b.statements.filterMap Statement.declared? = List.range types.length
  distinct : ((b.statements.filterMap Statement.declared?).map slotName).Nodup
  inScope : ∀ {front s back}, b.statements = front ++ s :: back →
    ∀ i ∈ s.reads, i ∈ front.filterMap Statement.declared?
  used : ∀ i < types.length, ∃ s ∈ b.statements, i ∈ s.uses
  typed : ∀ s ∈ b.statements, s.Typed types
  returns : ∃ front i t, b.statements = front ++ [.result i] ∧ (∀ j, .result j ∉ front) ∧
    types[i]? = some t ∧ t.name = Emit.typeName b.kind

/-! ## Types of right-hand sides -/

theorem unaryType?_symbol {op : UnaryOp} {k : Kind} (hfit : op.operands.accepts k = true) :
    Emit.unaryType? op.symbol (.ofKind k) = some (.ofKind (op.resultKind k)) := by
  cases op <;> cases k <;> first | contradiction | decide

theorem binaryType?_symbol {op : BinaryOp} {k l : Kind} (hfit : Body.operandsFit op k l = true) :
    Emit.binaryType? op.symbol (.ofKind k) (.ofKind l) = some (.ofKind (op.resultKind k)) := by
  obtain ⟨rfl, haccepts⟩ : k = l ∧ op.operands.accepts k = true := by
    simpa [Body.operandsFit] using hfit
  cases op <;> cases k <;> first | contradiction | decide

theorem type?_constant (types : List LocalType) (v : Value) :
    (Rhs.constant v).type? types = some (.ofKind v.kind) := by
  have htext : (Rhs.constant v).text = v.expression := rfl
  rw [Rhs.type?, htext, Emit.constantType?, Value.ofExpression?_expression]
  cases v <;> rfl

theorem type?_truth (types : List LocalType) (b : Bool) :
    (Rhs.truth b).type? types = some (.ofKind .bool) :=
  type?_constant types (.bool b)

/-- Locals declared later do not change the type of a right-hand side. -/
theorem type?_append {types : List LocalType} {rhs : Rhs} {t : LocalType}
    (h : rhs.type? types = some t) (more : List LocalType) :
    rhs.type? (types ++ more) = some t := by
  have hget : ∀ {i : Nat} {u : LocalType}, types[i]? = some u → (types ++ more)[i]? = some u := by
    intro i u hu
    rw [List.getElem?_append_left (List.getElem?_eq_some_iff.mp hu).1, hu]
  cases rhs with
  | constant v => exact h
  | truth b => exact h
  | unary op a =>
    obtain ⟨u, hu, hop⟩ := Option.bind_eq_some_iff.mp h
    simp only [Rhs.type?, hget hu, Option.bind_eq_bind, Option.bind_some, hop]
  | binary op a b =>
    obtain ⟨u, hu, hrest⟩ := Option.bind_eq_some_iff.mp h
    obtain ⟨v, hv, hop⟩ := Option.bind_eq_some_iff.mp hrest
    simp only [Rhs.type?, hget hu, hget hv, Option.bind_eq_bind, Option.bind_some, hop]

theorem slotName_injective : Function.Injective slotName := by
  intro i j h
  have hdigits : Bytes.ofNat i = Bytes.ofNat j := (List.cons.inj h).2
  rw [← Bytes.digitsValue_ofNat i, hdigits, Bytes.digitsValue_ofNat]

/-! ## Steps of the walk -/

namespace Body

/-- The statements behind those that declare locals of the types `prior`, when `slots` are
on the stack: they declare locals of the types `later` and use these and all of `slots`. -/
structure Continues (prior later : List LocalType) (slots : List Slot) (b : Body) : Prop where
  declared : b.statements.filterMap Statement.declared? = List.range' prior.length later.length
  inScope : ∀ {front s back}, b.statements = front ++ s :: back →
    ∀ i ∈ s.reads, i < prior.length ∨ i ∈ front.filterMap Statement.declared?
  used : ∀ i, i ∈ slots.map Slot.index ∨ prior.length ≤ i ∧ i < prior.length + later.length →
    ∃ s ∈ b.statements, i ∈ s.uses
  typed : ∀ s ∈ b.statements, s.Typed (prior ++ later)
  returns : ∃ front i, b.statements = front ++ [.result i] ∧ (∀ j, .result j ∉ front) ∧
    (prior ++ later)[i]? = some (.ofKind b.kind)

/-- The locals on the stack have the types of their kinds. -/
def Holds (prior : List LocalType) (slots : List Slot) : Prop :=
  ∀ s ∈ slots, prior[s.index]? = some (.ofKind s.kind)

section Steps

variable {prior new later : List LocalType} {slots slots' : List Slot} {b : Body}

theorem Holds.lt {s : Slot} (h : Holds prior slots) (hs : s ∈ slots) : s.index < prior.length :=
  (List.getElem?_eq_some_iff.mp (h s hs)).1

theorem Holds.push (h : Holds prior slots) (k : Kind) :
    Holds (prior ++ [.ofKind k]) (⟨prior.length, k⟩ :: slots) := by
  intro s hs
  rcases List.mem_cons.mp hs with rfl | hs
  · exact List.getElem?_concat_length
  · rw [List.getElem?_append_left (h.lt hs), h s hs]

theorem Holds.tail {s : Slot} (h : Holds prior (s :: slots)) : Holds prior slots :=
  fun t ht => h t (List.mem_cons_of_mem _ ht)

theorem filterMap_declared?_cons (s : Statement) (ss : List Statement) :
    (s :: ss).filterMap Statement.declared? =
      s.declared?.toList ++ ss.filterMap Statement.declared? := by
  cases hs : s.declared? with
  | none => simp [hs]
  | some i => simp [hs]

/-- One more statement in front.  It declares the locals of the types `new`, which are then
on the stack, and uses what it takes from the stack. -/
theorem Continues.cons {s : Statement} (h : b.Continues (prior ++ new) later slots)
    (hdeclared : s.declared?.toList = List.range' prior.length new.length)
    (hnew : ∀ i, prior.length ≤ i → i < prior.length + new.length → i ∈ slots.map Slot.index)
    (hreads : ∀ i ∈ s.reads, i < prior.length)
    (hused : ∀ i ∈ slots'.map Slot.index, i ∈ s.uses ∨ i ∈ slots.map Slot.index)
    (htyped : s.Typed (prior ++ (new ++ later))) (hresult : ∀ j, s ≠ .result j) :
    Continues prior (new ++ later) slots' { b with statements := s :: b.statements } where
  declared := by
    rw [filterMap_declared?_cons, hdeclared, h.declared, List.length_append, List.length_append,
      List.range'_append_1]
  inScope := by
    intro front t back hsplit i hi
    rcases List.cons_eq_append_iff.mp hsplit with ⟨rfl, hhead⟩ | ⟨front, rfl, hrest⟩
    · obtain ⟨rfl, -⟩ := List.cons.inj hhead
      exact .inl (hreads i hi)
    · -- What the rest may read has been declared before, by this statement or behind it.
      rw [filterMap_declared?_cons, hdeclared, List.mem_append, List.mem_range'_1]
      rcases h.inScope hrest i hi with hlt | hmem
      · rw [List.length_append] at hlt
        omega
      · exact .inr (.inr hmem)
  used := by
    intro i hi
    have hrest : i ∈ s.uses ∨ i ∈ slots.map Slot.index ∨
        (prior ++ new).length ≤ i ∧ i < (prior ++ new).length + later.length := by
      simp only [List.length_append] at hi ⊢
      rcases hi with hslot | hrange
      · rcases hused i hslot with huses | hslot
        · exact .inl huses
        · exact .inr (.inl hslot)
      · by_cases hlt : i < prior.length + new.length
        · exact .inr (.inl (hnew i hrange.1 hlt))
        · exact .inr (.inr (by omega))
    rcases hrest with huses | hrest
    · exact ⟨s, List.mem_cons_self, huses⟩
    · obtain ⟨t, ht, huses⟩ := h.used i hrest
      exact ⟨t, List.mem_cons_of_mem _ ht, huses⟩
  typed := by
    intro t ht
    rcases List.mem_cons.mp ht with rfl | ht
    · exact htyped
    · rw [← List.append_assoc]
      exact h.typed t ht
  returns := by
    obtain ⟨front, i, hsplit, hfront, htype⟩ := h.returns
    refine ⟨s :: front, i, by simp [hsplit], ?_, by rwa [← List.append_assoc]⟩
    intro j hj
    rcases List.mem_cons.mp hj with hs | hj
    · exact hresult j hs.symm
    · exact hfront j hj

/-- A declaration in front of statements that go on with its local on the stack. -/
theorem Continues.declare {rhs : Rhs} {k : Kind}
    (h : b.Continues (prior ++ [.ofKind k]) later (⟨prior.length, k⟩ :: slots))
    (htype : rhs.type? prior = some (.ofKind k)) (hreads : ∀ i ∈ rhs.reads, i < prior.length)
    (hused : ∀ s ∈ slots', s.index ∈ rhs.reads ∨ s ∈ slots) :
    Continues prior (.ofKind k :: later) slots'
      { b with statements := .declare prior.length rhs :: b.statements } := by
  refine h.cons rfl ?_ hreads ?_ ?_ (fun j => by simp)
  · intro i hle hlt
    have hi : i = prior.length := by
      rw [List.length_singleton] at hlt
      omega
    exact hi ▸ List.mem_cons_self
  · intro i hi
    obtain ⟨s, hs, rfl⟩ := List.mem_map.mp hi
    rcases hused s hs with hread | hs
    · exact .inl hread
    · exact .inr (List.mem_cons_of_mem _ (List.mem_map_of_mem hs))
  · exact ⟨.ofKind k, by simp, type?_append htype _⟩

/-- The guard of a division in front of statements that use the divisor. -/
theorem Continues.guard {op : BinaryOp} {k : Kind} {divisor : Nat}
    (h : b.Continues prior later slots) (htype : prior[divisor]? = some (.ofKind k)) :
    Continues prior later slots
      { b with statements := Body.guard op k divisor ++ b.statements } := by
  unfold Body.guard
  split
  · next hdiv =>
    have hlt : divisor < prior.length := (List.getElem?_eq_some_iff.mp htype).1
    rw [hdiv.2] at htype
    have hnone : b.Continues (prior ++ []) later slots := by rwa [List.append_nil]
    refine hnone.cons rfl ?_ ?_ ?_ ?_ (fun j => by simp)
    · intro i hle hlt
      simp at hlt
      omega
    · simpa [Statement.reads] using hlt
    · exact fun i hi => .inr hi
    · show (prior ++ later)[divisor]? = some .int32
      rw [List.getElem?_append_left hlt, htype]
      rfl
  · exact h

/-- A return uses the top of the stack, after discards of what lies under it. -/
theorem Continues.ofReturn {a : Slot} (hslots : Holds prior (a :: slots)) :
    Continues prior [] (a :: slots)
      ⟨slots.reverse.map (fun s => .discard s.index) ++ [.result a.index], a.kind⟩ where
  declared := by simp [List.filterMap_append, Statement.declared?]
  inScope := by
    intro front t back hsplit i hi
    dsimp only at hsplit
    have ht : t ∈ slots.reverse.map (fun s => .discard s.index) ++ [Statement.result a.index] := by
      rw [hsplit]
      exact List.mem_append_right _ List.mem_cons_self
    rcases List.mem_append.mp ht with hdiscard | hresult
    · obtain ⟨s, hs, rfl⟩ := List.mem_map.mp hdiscard
      rw [List.mem_singleton.mp hi]
      exact .inl (hslots.tail.lt (List.mem_reverse.mp hs))
    · rw [List.mem_singleton.mp hresult] at hi
      rw [List.mem_singleton.mp hi]
      exact .inl (hslots.lt List.mem_cons_self)
  used := by
    rintro i (hi | hi)
    · obtain ⟨s, hs, rfl⟩ := List.mem_map.mp hi
      rcases List.mem_cons.mp hs with rfl | hs
      · exact ⟨.result s.index, by simp, List.mem_singleton_self _⟩
      · refine ⟨.discard s.index, ?_, List.mem_singleton_self _⟩
        exact List.mem_append_left _ (List.mem_map.mpr ⟨s, List.mem_reverse.mpr hs, rfl⟩)
    · simp only [List.length_nil] at hi
      omega
  typed := by
    intro t ht
    rw [List.append_nil]
    rcases List.mem_append.mp ht with hdiscard | hresult
    · obtain ⟨s, hs, rfl⟩ := List.mem_map.mp hdiscard
      exact hslots.tail.lt (List.mem_reverse.mp hs)
    · rw [List.mem_singleton.mp hresult]
      exact hslots.lt List.mem_cons_self
  returns := by
    refine ⟨_, a.index, rfl, by simp, ?_⟩
    rw [List.append_nil]
    exact hslots a List.mem_cons_self

end Steps

/-! ## The walk -/

theorem eq_of_before_eq_ok {statements : List Statement} {walk : Except RuntimeFault Body}
    {body : Body} (h : before statements walk = .ok body) :
    ∃ inner, walk = .ok inner ∧
      body = { inner with statements := statements ++ inner.statements } := by
  cases walk with
  | error f => contradiction
  | ok inner => exact ⟨inner, rfl, (Except.ok.inj h).symm⟩

theorem length_lt_of_not_isFull {depth : Int} {slots : List Slot}
    (h : ¬isFull depth slots = true) : 0 < depth → slots.length < depth.toNat := by
  simp only [isFull, Bool.and_eq_true, decide_eq_true_eq] at h
  omega

/-- The statements that the walk emits from some point on.  The induction follows the walk;
`prior` lists the types of the locals declared so far. -/
theorem exists_continues {pool : List Value} {depth : Int} {offset next : Nat}
    {slots : List Slot} {code : Bytes} {body : Body} {prior : List LocalType}
    (hnext : prior.length = next) (hslots : Holds prior slots)
    (hroom : 0 < depth → slots.length ≤ depth.toNat)
    (hbody : ofCode pool depth offset next slots code = .ok body) :
    ∃ later, body.Continues prior later slots := by
  fun_induction ofCode pool depth offset next slots code generalizing prior body with
  | case6 offset next slots b hop index rest v hindex hfull ih =>
    subst hnext
    obtain ⟨inner, hinner, rfl⟩ := eq_of_before_eq_ok hbody
    obtain ⟨later, hlater⟩ := ih (by simp) (hslots.push v.kind)
      (length_lt_of_not_isFull hfull) hinner
    exact ⟨_, hlater.declare (type?_constant _ v) (by simp [Rhs.reads]) (fun s hs => .inr hs)⟩
  | case8 offset next slots b rest t hop hfull ih =>
    subst hnext
    obtain ⟨inner, hinner, rfl⟩ := eq_of_before_eq_ok hbody
    obtain ⟨later, hlater⟩ := ih (by simp) (hslots.push .bool)
      (length_lt_of_not_isFull hfull) hinner
    exact ⟨_, hlater.declare (type?_truth _ t) (by simp [Rhs.reads]) (fun s hs => .inr hs)⟩
  | case10 offset next b rest op hop a slots hfit hfull ih =>
    rw [isFull_eq_false hroom] at hfull
    contradiction
  | case11 offset next b rest op hop a slots hfit hfull ih =>
    subst hnext
    obtain ⟨inner, hinner, rfl⟩ := eq_of_before_eq_ok hbody
    obtain ⟨later, hlater⟩ := ih (by simp) (hslots.tail.push _) hroom hinner
    have htype : (Rhs.unary op a.index).type? prior = some (.ofKind (op.resultKind a.kind)) := by
      simp only [Rhs.type?, hslots a List.mem_cons_self, Option.bind_eq_bind, Option.bind_some]
      exact unaryType?_symbol hfit
    refine ⟨_, hlater.declare htype ?_ ?_⟩
    · simpa [Rhs.reads] using hslots.lt List.mem_cons_self
    · intro s hs
      rcases List.mem_cons.mp hs with rfl | hs
      · exact .inl (by simp [Rhs.reads])
      · exact .inr hs
  | case13 offset next b rest op hop r l slots hfit _ ih =>
    subst hnext
    have htwo : 0 < depth → slots.length + 2 ≤ depth.toNat := hroom
    rw [isFull_eq_false fun h => by have := htwo h; omega] at hbody
    obtain ⟨guarded, hguarded, rfl⟩ := eq_of_before_eq_ok hbody
    obtain ⟨inner, hinner, rfl⟩ := eq_of_before_eq_ok hguarded
    obtain ⟨later, hlater⟩ := ih (by simp) (hslots.tail.tail.push _)
      (fun h => by have := htwo h; simp; omega) hinner
    have hright := hslots r List.mem_cons_self
    have hleft := hslots.tail l List.mem_cons_self
    have htype : (Rhs.binary op l.index r.index).type? prior =
        some (.ofKind (op.resultKind l.kind)) := by
      simp only [Rhs.type?, hleft, hright, Option.bind_eq_bind, Option.bind_some]
      exact binaryType?_symbol hfit
    have hsame : l.kind = r.kind := by
      simp only [operandsFit, Bool.and_eq_true, decide_eq_true_eq] at hfit
      exact hfit.1
    refine ⟨_, Continues.guard (hlater.declare htype ?_ ?_) (hsame ▸ hright)⟩
    · have hl := hslots.tail.lt List.mem_cons_self
      have hr := hslots.lt List.mem_cons_self
      simpa [Rhs.reads] using ⟨hl, hr⟩
    · intro s hs
      rcases List.mem_cons.mp hs with rfl | hs
      · exact .inl (by simp [Rhs.reads])
      · rcases List.mem_cons.mp hs with rfl | hs
        · exact .inl (by simp [Rhs.reads])
        · exact .inr hs
  | case17 offset next b rest hop a slots =>
    cases hbody
    exact ⟨[], .ofReturn hslots⟩
  | _ => contradiction

end Body

/-- The body of every chunk that has one is well formed. -/
theorem Chunk.exists_wellFormed_body (c : Chunk) (depth : Int) {body : Body}
    (hbody : c.body depth = .ok body) : ∃ types, body.WellFormed types := by
  obtain ⟨types, h⟩ := Body.exists_continues (rfl : ([] : List LocalType).length = 0)
    (by simp [Body.Holds]) (fun _ => Nat.zero_le _) hbody
  have hdeclared : body.statements.filterMap Statement.declared? = List.range types.length := by
    rw [h.declared, List.range_eq_range']
    rfl
  obtain ⟨front, i, hsplit, hfront, htype⟩ := h.returns
  refine ⟨types, hdeclared, ?_, ?_, ?_, h.typed, front, i, _, hsplit, hfront, htype, ?_⟩
  · rw [hdeclared]
    exact List.nodup_range.map slotName_injective
  · intro front s back hsplit i hi
    exact (h.inScope hsplit i hi).resolve_left (by simp)
  · exact fun i hi => h.used i (.inr (by simpa using hi))
  · exact Emit.LocalType.name_ofKind body.kind

/-- Two untagged constants are compared and the result is left under an integer quotient;
more code stands behind the return. -/
theorem Chunk.exists_wellFormed_body_leftover :
    let c : Chunk :=
      { Chunk.empty with
        code? := some [0x10, 0x00, 0x10, 0x00, 0x60, 0x10, 0x01, 0x10, 0x02, 0x53, 0xf0, 0x55]
        constants := [.untagged, .int 7, .int 2] }
    let body : Body :=
      ⟨[.declare 0 (.constant .untagged), .declare 1 (.constant .untagged),
        .declare 2 (.binary .equal 0 1), .declare 3 (.constant (.int 7)),
        .declare 4 (.constant (.int 2)), .guardZero 4, .declare 5 (.binary .div 3 4),
        .discard 2, .result 5], .int⟩
    c.body 0 = .ok body ∧ ∃ types, body.WellFormed types := by
  intro c body
  have hbody : c.body 0 = .ok body := by decide
  exact ⟨hbody, c.exists_wellFormed_body 0 hbody⟩

end Abacus
