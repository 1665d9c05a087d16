import Abacus.Proofs.Generate.Code

/-!
# Building a chunk

A chunk is built by calls that write into it one after another.  Here the calls change the
chunk in place (`Chunk.Writing`), so that what a call has written before it fails stays
written.  Each of them does what the operation on chunks does, or fails with it and leaves
the chunk as it was (`on_addConstant`, `on_emitConstant`).

`Chunk.Effect` lists what a call can do.  All of it is appending (`Effect.grows`), so a
chunk only grows through any sequence of calls (`grows_after`), and what one call gave back
holds of every chunk that is reached later (`lasting`): an index fits into its byte, because
the constants never exceed the limit, and still leads to the value it was given for.
-/

namespace Abacus

namespace Chunk

variable {c c' final : Chunk}

theorem addConstant_cases (c : Chunk) (v : Value) :
    c.limit ≤ c.constants.length ∧ c.addConstant v = .error ⟨c.limit⟩ ∨
      c.constants.length < c.limit ∧ c.addConstant v =
        .ok (UInt8.ofNat c.constants.length, { c with constants := c.constants ++ [v] }) := by
  unfold addConstant
  split
  · next hfull => exact .inl ⟨hfull, rfl⟩
  · next hroom => exact .inr ⟨Nat.lt_of_not_le hroom, rfl⟩

/-! ## Calls that write into a chunk -/

/-- A call that writes into a chunk.  What it has written stays when it fails. -/
abbrev Writing (α : Type) := ExceptT PoolFull (StateM Chunk) α

namespace Writing

variable {α : Type}

/-- What a call gives back, and the chunk behind it. -/
def on (x : Writing α) (c : Chunk) : Except PoolFull α × Chunk :=
  (x.run.run c).run

/-- Appends a value to the constants and gives its index. -/
def addConstant (v : Value) : Writing UInt8 := do
  let c ← get
  if c.limit ≤ c.constants.length then throw ⟨c.limit⟩
  else
    set { c with constants := c.constants ++ [v] }
    return UInt8.ofNat c.constants.length

/-- Appends bytes to the code and gives their offset. -/
def emitBytes (bytes : Bytes) : Writing Nat := do
  let c ← get
  set (c.emitBytes bytes)
  return c.code.length

/-- Appends a constant, and then the instruction that pushes it, and gives the offset of
the instruction. -/
def emitConstant (v : Value) : Writing Nat := do
  let index ← addConstant v
  emitBytes [Opcode.const.byte, index]

/-- Records the source span of the instruction at an offset. -/
def addLocation (offset : Int) (span : Span) : Writing Unit :=
  modify fun c => c.addLocation offset span

/-- The outcome of an operation that gives a new chunk, as a change of the old one. -/
def settled (c : Chunk) : Except PoolFull (α × Chunk) → Except PoolFull α × Chunk
  | .ok (a, c') => (.ok a, c')
  | .error f => (.error f, c)

/-- A call goes on with the chunk that the call before it has left, unless that failed. -/
theorem on_bind {β : Type} (x : Writing α) (f : α → Writing β) (c : Chunk) :
    (x >>= f).on c =
      match x.on c with
      | (.ok a, c') => (f a).on c'
      | (.error e, c') => (.error e, c') := by
  simp only [on, ExceptT.run_bind, StateT.run_bind, Id.run_bind]
  rcases (x.run.run c).run with ⟨_ | _, c'⟩ <;> rfl

theorem on_addConstant (v : Value) (c : Chunk) :
    (addConstant v).on c = settled c (c.addConstant v) := by
  have hon : (addConstant v).on c =
      if c.limit ≤ c.constants.length then (.error ⟨c.limit⟩, c)
      else (.ok (UInt8.ofNat c.constants.length), { c with constants := c.constants ++ [v] }) := by
    show on (if c.limit ≤ c.constants.length then _ else _) c = _
    split <;> rfl
  rw [hon, Chunk.addConstant]
  split <;> rfl

theorem on_emitConstant (v : Value) (c : Chunk) :
    (emitConstant v).on c = settled c ((c.emitConstant v).map fun c' => (c.code.length, c')) := by
  rw [emitConstant, on_bind, on_addConstant, Chunk.emitConstant]
  rcases addConstant_cases c v with ⟨-, hadd⟩ | ⟨-, hadd⟩
  · rw [hadd]
    rfl
  · rw [hadd]
    rfl

end Writing

/-- A call on a chunk. -/
inductive Call where
  | addConstant (v : Value)
  /-- An instruction with its operands, of which there may be none. -/
  | emit (op : UInt8) (operands : Bytes)
  | emitConstant (v : Value)
  | addLocation (offset : Int) (span : Span)
  deriving DecidableEq

/-- What a call gives back. -/
inductive Reply where
  | index (i : UInt8)
  | offset (n : Nat)
  | done
  deriving DecidableEq

namespace Call

/-- Calls an operation. -/
def perform : Call → Writing Reply
  | .addConstant v => return .index (← Writing.addConstant v)
  | .emit op operands => return .offset (← Writing.emitBytes (op :: operands))
  | .emitConstant v => return .offset (← Writing.emitConstant v)
  | .addLocation offset span => do
    Writing.addLocation offset span
    return .done

/-- What a call on a chunk gives back. -/
def reply (call : Call) (c : Chunk) : Except PoolFull Reply :=
  (call.perform.on c).1

/-- The chunk behind a call. -/
def next (call : Call) (c : Chunk) : Chunk :=
  (call.perform.on c).2

/-- The value that a call adds to the constants. -/
def value? : Call → Option Value
  | .addConstant v => some v
  | .emitConstant v => some v
  | _ => none

/-- The span that a call records for an offset. -/
def span? (offset : Int) : Call → Option Span
  | .addLocation o span => if o = offset then some span else none
  | _ => none

end Call

/-- What a call can do to a chunk. -/
inductive Effect (c : Chunk) : Call → Except PoolFull Reply → Chunk → Prop where
  | added (v : Value) (hroom : c.constants.length < c.limit) :
      Effect c (.addConstant v) (.ok (.index (UInt8.ofNat c.constants.length)))
        { c with constants := c.constants ++ [v] }
  | emitted (op : UInt8) (operands : Bytes) :
      Effect c (.emit op operands) (.ok (.offset c.code.length)) (c.emitBytes (op :: operands))
  | pushed (v : Value) (hroom : c.constants.length < c.limit) :
      Effect c (.emitConstant v) (.ok (.offset c.code.length))
        ({ c with constants := c.constants ++ [v] }.emitBytes
          [Opcode.const.byte, UInt8.ofNat c.constants.length])
  | recorded (offset : Int) (span : Span) :
      Effect c (.addLocation offset span) (.ok .done) (c.addLocation offset span)
  | refused (call : Call) (hvalue : call.value?.isSome) (hfull : c.limit ≤ c.constants.length) :
      Effect c call (.error ⟨c.limit⟩) c

theorem effect (c : Chunk) (call : Call) : c.Effect call (call.reply c) (call.next c) := by
  cases call with
  | addConstant v =>
    unfold Call.reply Call.next Call.perform
    rw [Writing.on_bind, Writing.on_addConstant]
    rcases addConstant_cases c v with ⟨hfull, hadd⟩ | ⟨hroom, hadd⟩
    · rw [hadd]
      exact .refused (.addConstant v) rfl hfull
    · rw [hadd]
      exact .added v hroom
  | emit op operands => exact .emitted op operands
  | emitConstant v =>
    unfold Call.reply Call.next Call.perform
    rw [Writing.on_bind, Writing.on_emitConstant, emitConstant]
    rcases addConstant_cases c v with ⟨hfull, hadd⟩ | ⟨hroom, hadd⟩
    · rw [hadd]
      exact .refused (.emitConstant v) rfl hfull
    · rw [hadd]
      exact .pushed v hroom
  | addLocation offset span => exact .recorded offset span

/-! ## Growing -/

/-- One chunk is another with something appended, and its constants stay within the limit. -/
structure Grows (c c' : Chunk) : Prop where
  code : c.code <+: c'.code
  constants : c.constants <+: c'.constants
  locations : c.locations <+: c'.locations
  limit : c'.limit = c.limit
  within : c.constants.length ≤ c.limit → c'.constants.length ≤ c'.limit

theorem Grows.refl (c : Chunk) : c.Grows c :=
  ⟨List.prefix_refl _, List.prefix_refl _, List.prefix_refl _, rfl, fun h => h⟩

theorem Grows.trans (h : c.Grows c') (h' : c'.Grows final) : c.Grows final where
  code := h.code.trans h'.code
  constants := h.constants.trans h'.constants
  locations := h.locations.trans h'.locations
  limit := h'.limit.trans h.limit
  within hc := h'.within (h.within hc)

theorem length_concat_le {v : Value} (hroom : c.constants.length < c.limit) :
    (c.constants ++ [v]).length ≤ c.limit := by
  rw [List.length_append, List.length_singleton]
  exact hroom

theorem Effect.grows {call : Call} {r : Except PoolFull Reply} (h : c.Effect call r c') :
    c.Grows c' := by
  cases h with
  | added v hroom =>
    exact ⟨List.prefix_refl _, List.prefix_append _ _, List.prefix_refl _, rfl,
      fun _ => length_concat_le hroom⟩
  | emitted op operands =>
    exact ⟨List.prefix_append _ _, List.prefix_refl _, List.prefix_refl _, rfl, fun h => h⟩
  | pushed v hroom =>
    exact ⟨List.prefix_append _ _, List.prefix_append _ _, List.prefix_refl _, rfl,
      fun _ => length_concat_le hroom⟩
  | recorded offset span =>
    exact ⟨List.prefix_refl _, List.prefix_refl _, List.prefix_append _ _, rfl, fun h => h⟩
  | refused hvalue hfull => exact .refl c

/-- The chunk behind a sequence of calls, of which some may have failed. -/
def after (c : Chunk) (calls : List Call) : Chunk :=
  calls.foldl (fun c call => call.next c) c

theorem after_append (c : Chunk) (calls more : List Call) :
    c.after (calls ++ more) = (c.after calls).after more :=
  List.foldl_append

/-- A chunk only grows, whatever is called. -/
theorem grows_after (c : Chunk) (calls : List Call) : c.Grows (c.after calls) := by
  induction calls generalizing c with
  | nil => exact .refl c
  | cons call calls ih => exact (effect c call).grows.trans (ih (call.next c))

/-! ## What lasts -/

/-- The index of the next constant fits into a byte. -/
theorem toNat_index (hroom : c.constants.length < c.limit) :
    (UInt8.ofNat c.constants.length).toNat = c.constants.length := by
  have hle : c.limit ≤ 256 := c.limit_le
  rw [UInt8.toNat_ofNat']
  omega

theorem constant?_of_isPrefix {v : Value} (h : c.constants ++ [v] <+: final.constants) :
    final.constant? c.constants.length = some v := by
  obtain ⟨rest, hrest⟩ := h
  rw [constant?, if_pos (Int.natCast_nonneg _), Int.toNat_natCast, ← hrest, List.append_assoc,
    List.getElem?_append_right (Nat.le_refl _), Nat.sub_self]
  rfl

theorem isPrefix_drop {α : Type} {front back s : List α} (h : front ++ back <+: s) :
    back <+: s.drop front.length := by
  obtain ⟨rest, rfl⟩ := h
  rw [List.append_assoc, List.drop_left]
  exact List.prefix_append back rest

/-- What a call on a chunk gave back, seen from a chunk that was reached later. -/
structure Lasting (c : Chunk) (call : Call) (final : Chunk) : Prop where
  /-- The index of a constant is the number of those before it, and leads to the value. -/
  added : ∀ v i, call = .addConstant v → call.reply c = .ok (.index i) →
    i.toNat = c.constants.length ∧ final.constant? i.toNat = some v
  emitted : ∀ op operands n, call = .emit op operands → call.reply c = .ok (.offset n) →
    n = c.code.length ∧ op :: operands <+: final.code.drop n
  /-- The instruction for a constant stands at its offset and names the constant. -/
  pushed : ∀ v n, call = .emitConstant v → call.reply c = .ok (.offset n) →
    n = c.code.length ∧ ∃ i : UInt8, i.toNat = c.constants.length ∧
      final.constant? i.toNat = some v ∧ [Opcode.const.byte, i] <+: final.code.drop n
  /-- A call that fails changes nothing. -/
  refused : ∀ f, call.reply c = .error f → call.next c = c
  refused_iff : (∃ f, call.reply c = .error f) ↔
    call.value?.isSome ∧ c.constants.length = c.limit

theorem lasting (call : Call) (hwithin : c.constants.length ≤ c.limit)
    (h : (call.next c).Grows final) : Lasting c call final := by
  have heffect := effect c call
  refine ⟨?added, ?emitted, ?pushed, ?refused, ?refused_iff⟩
  -- The chunk behind the call is made a variable, for the cases of the effect to give it.
  case added =>
    rintro v i rfl hreply
    rw [hreply] at heffect
    generalize (Call.addConstant v).next c = d at heffect h
    cases heffect with
    | added _ hroom =>
      rw [toNat_index hroom]
      exact ⟨rfl, constant?_of_isPrefix h.constants⟩
  case emitted =>
    rintro op operands n rfl hreply
    rw [hreply] at heffect
    generalize (Call.emit op operands).next c = d at heffect h
    cases heffect with
    | emitted => exact ⟨rfl, isPrefix_drop h.code⟩
  case pushed =>
    rintro v n rfl hreply
    rw [hreply] at heffect
    generalize (Call.emitConstant v).next c = d at heffect h
    cases heffect with
    | pushed _ hroom =>
      refine ⟨rfl, UInt8.ofNat c.constants.length, toNat_index hroom, ?_, isPrefix_drop h.code⟩
      rw [toNat_index hroom]
      exact constant?_of_isPrefix h.constants
  case refused =>
    intro f hreply
    rw [hreply] at heffect
    generalize call.next c = d at heffect
    cases heffect with
    | refused => rfl
  case refused_iff =>
    generalize call.reply c = r at heffect
    generalize call.next c = d at heffect
    cases heffect with
    | refused _ hvalue hfull =>
      exact iff_of_true ⟨_, rfl⟩ ⟨hvalue, Nat.le_antisymm hwithin hfull⟩
    | added v hroom => simp [Nat.ne_of_lt hroom]
    | pushed v hroom => simp [Nat.ne_of_lt hroom]
    | emitted op operands => simp [Call.value?]
    | recorded offset span => simp [Call.value?]

/-! ## Recorded spans -/

theorem spanAt?_next (c : Chunk) (call : Call) (offset : Int) :
    (call.next c).spanAt? offset = (call.span? offset).or (c.spanAt? offset) := by
  have heffect := effect c call
  generalize call.reply c = r at heffect
  generalize call.next c = d at heffect
  cases heffect with
  | added v hroom => rfl
  | emitted op operands => rfl
  | pushed v hroom => rfl
  | recorded o span =>
    show lastSpan? (c.locations ++ [⟨o, span⟩]) offset = _
    rw [lastSpan?_append, lastSpan?_singleton]
    rfl
  | refused _ hvalue hfull =>
    cases call with
    | addConstant v => rfl
    | emit op operands => cases hvalue
    | emitConstant v => rfl
    | addLocation o span => cases hvalue

/-- The span at an offset is that of the last call that recorded one for it. -/
theorem spanAt?_after (c : Chunk) (calls : List Call) (offset : Int) :
    (c.after calls).spanAt? offset =
      (calls.reverse.findSome? (Call.span? offset)).or (c.spanAt? offset) := by
  induction calls generalizing c with
  | nil => rfl
  | cons call calls ih =>
    show ((call.next c).after calls).spanAt? offset = _
    rw [ih, spanAt?_next, List.reverse_cons, List.findSome?_append, List.findSome?_singleton,
      Option.or_assoc]

/-! ## Chunks that calls have built -/

/-- An empty chunk to start from. -/
inductive Origin where
  | empty
  | withLimit (limit : Int)
  | blank
  deriving DecidableEq

namespace Origin

/-- The chunk to start from. -/
def chunk : Origin → Chunk
  | .empty => Chunk.empty
  | .withLimit limit => Chunk.withLimit limit
  | .blank => Chunk.blank

/-- The limit that was asked for. -/
def limit : Origin → Int
  | .withLimit limit => limit
  | _ => maxConstants

end Origin

/-- What holds of the chunk that calls have built. -/
structure Built (origin : Origin) (calls : List Call) : Prop where
  /-- The limit is the one that was asked for, if a byte can count so far. -/
  limit : ((origin.chunk.after calls).limit : Int) =
    if 1 ≤ origin.limit ∧ origin.limit ≤ 256 then origin.limit else 256
  limit_le : (origin.chunk.after calls).limit ≤ 256
  count_le : (origin.chunk.after calls).constants.length ≤ (origin.chunk.after calls).limit
  /-- What has been written stays. -/
  grows : ∀ earlier later, calls = earlier ++ later →
    (origin.chunk.after earlier).Grows (origin.chunk.after calls)
  lasting : ∀ earlier call later, calls = earlier ++ call :: later →
    Lasting (origin.chunk.after earlier) call (origin.chunk.after calls)
  spans : ∀ offset, (origin.chunk.after calls).spanAt? offset =
    calls.reverse.findSome? (Call.span? offset)

theorem Origin.limit_chunk (origin : Origin) : (origin.chunk.limit : Int) =
    if 1 ≤ origin.limit ∧ origin.limit ≤ 256 then origin.limit else 256 := by
  have heffective : ∀ limit : Int, (effectiveLimit limit : Int) =
      if 1 ≤ limit ∧ limit ≤ 256 then limit else 256 := by
    intro limit
    unfold effectiveLimit maxConstants
    split <;> omega
  cases origin with
  | empty => exact heffective maxConstants
  | withLimit limit => exact heffective limit
  | blank => exact heffective maxConstants

theorem Origin.count_le_after (origin : Origin) (calls : List Call) :
    (origin.chunk.after calls).constants.length ≤ (origin.chunk.after calls).limit := by
  have hstart : origin.chunk.constants = [] := by cases origin <;> rfl
  refine (grows_after origin.chunk calls).within ?_
  rw [hstart]
  exact Nat.zero_le _

/-- Any sequence of calls on an empty chunk only appends, and keeps what it has given
back. -/
theorem built_of_calls (origin : Origin) (calls : List Call) : Built origin calls where
  limit := by rw [(grows_after origin.chunk calls).limit, origin.limit_chunk]
  limit_le := (origin.chunk.after calls).limit_le
  count_le := origin.count_le_after calls
  grows := by
    rintro earlier later rfl
    rw [after_append]
    exact grows_after _ later
  lasting := by
    rintro earlier call later rfl
    rw [after_append]
    exact Chunk.lasting call (origin.count_le_after earlier) (grows_after _ later)
  spans := by
    intro offset
    have hstart : origin.chunk.spanAt? offset = none := by cases origin <;> rfl
    rw [spanAt?_after, hstart, Option.or_none]

end Chunk

end Abacus
