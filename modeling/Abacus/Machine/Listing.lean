import Abacus.Machine.Chunk

/-!
# Listings

A listing shows the constants of a chunk and its instructions, one per line
with its offset.  The walk over the code reads every byte once, also where the
bytes are no instructions.
-/

namespace Abacus

/-- One line of a listing. -/
structure ListedInstruction where
  offset : Nat
  text : Bytes
  deriving DecidableEq

namespace Listing

/-- The instruction at the head of the code, and its length.  No instruction
stands at the end of the code. -/
def instruction (pool : List Value) : Bytes → Bytes × Nat
  | [] => (utf8 "<end of code>", 0)
  | b :: rest =>
    match Opcode.ofByte? b with
    | none => (utf8 "INVALID 0x" ++ Bytes.hexUpper 2 b.toNat, 1)
    | some .const =>
      match rest with
      | [] => (utf8 "CONST <truncated>", 1)
      | index :: _ =>
        let head := utf8 "CONST " ++ Bytes.ofNat index.toNat ++ utf8 " ; "
        match pool[index.toNat]? with
        | some v => (head ++ v.describe, 2)
        | none => (head ++ utf8 "<out of range>", 2)
    | some op => (op.name, op.length)

/-- The instructions of the code from `offset` on, after `skip` bytes that
belong to the instruction before. -/
def walk (pool : List Value) : Nat → Nat → Bytes → List ListedInstruction
  | _, _, [] => []
  | offset, skip + 1, _ :: rest => walk pool (offset + 1) skip rest
  | offset, 0, b :: rest =>
    let (text, length) := instruction pool (b :: rest)
    ⟨offset, text⟩ :: walk pool (offset + 1) (length - 1) rest

end Listing

namespace Chunk

/-- The instructions of a chunk, in order. -/
def instructions (c : Chunk) : List ListedInstruction :=
  Listing.walk c.constants 0 0 c.code

/-- The instruction that starts at an offset. -/
def instructionAt (c : Chunk) (offset : Nat) : Bytes :=
  (Listing.instruction c.constants (c.code.drop offset)).1

/-- The instructions with their offsets, one line each. -/
def lines (c : Chunk) : List Bytes :=
  c.instructions.map fun i => Bytes.hexUpper 4 i.offset ++ utf8 "  " ++ i.text

/-- How many instructions the chunk has. -/
def instructionCount (c : Chunk) : Nat :=
  c.instructions.length

/-- The line of a constant in a listing. -/
def constantLine (index : Nat) (v : Value) : Bytes :=
  utf8 ";   [" ++ Bytes.padLeft 3 Bytes.blank (Bytes.ofNat index) ++ utf8 "] " ++ v.describe ++
    utf8 "\n"

/-- The line of an instruction in a listing, with its source span if it has one. -/
def instructionLine (c : Chunk) (i : ListedInstruction) : Bytes :=
  let head := Bytes.hexUpper 4 i.offset ++ utf8 "  "
  match c.spanAt? i.offset with
  | some span => head ++ Bytes.padRight 24 i.text ++ utf8 " ; src " ++ span.text ++ utf8 "\n"
  | none => head ++ i.text ++ utf8 "\n"

/-- The listing of a chunk under a title, which may be empty. -/
def listing (c : Chunk) (title : Bytes) : Bytes :=
  let heading := if title.isEmpty then [] else utf8 "; === " ++ title ++ utf8 " ===\n"
  let sizes :=
    utf8 "; " ++ Bytes.ofNat c.code.length ++ utf8 " bytes, " ++ Bytes.ofNat c.constants.length ++
      utf8 " constants\n\n"
  let constants :=
    if c.constants.isEmpty then []
    else
      utf8 "; Constants:\n" ++
        c.constants.zipIdx.flatMap (fun (v, index) => constantLine index v) ++ utf8 "\n"
  heading ++ sizes ++ constants ++ utf8 "; Code:\n" ++ c.instructions.flatMap c.instructionLine

end Chunk

end Abacus
