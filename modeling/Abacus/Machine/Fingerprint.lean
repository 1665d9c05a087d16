import Abacus.Digest.Cbor
import Abacus.Digest.Sha256
import Abacus.Machine.Chunk

/-!
# Fingerprints

The fingerprint of a chunk is the digest of its code and constants.  Source
spans and the limit on constants have no part in it, so chunks that execute
alike have one fingerprint.
-/

namespace Abacus

/-- A constant as a pair of its kind and its bits. -/
def Value.encoded (v : Value) : Bytes :=
  Cbor.array [Cbor.number v.kind.code, Cbor.number v.bits.toNat]

namespace Chunk

/-- The code and constants of a chunk as one object. -/
def encoded (c : Chunk) : Bytes :=
  let code :=
    match c.code? with
    | some code => Cbor.byteString code
    | none => Cbor.null
  Cbor.map [(Cbor.number 1, code),
    (Cbor.number 2, Cbor.array (c.constants.map Value.encoded))]

/-- The digest of the code and constants. -/
def fingerprint (c : Chunk) : Bytes :=
  Sha256.digest c.encoded

/-- The whole fingerprint in hexadecimal. -/
def fingerprintText (c : Chunk) : Bytes :=
  c.fingerprint.flatMap fun b => Bytes.hexLower 2 b.toNat

/-- The first twelve hexadecimal digits, enough to tell chunks apart. -/
def shortFingerprint (c : Chunk) : Bytes :=
  c.fingerprintText.take 12

end Chunk

end Abacus
