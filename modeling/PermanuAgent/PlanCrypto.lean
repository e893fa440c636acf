import PermanuAgent.Base64Text

/-!
# Digests, keys and signatures

The cryptographic primitives are parameters: the hash of a byte string, which
uncompressed points lie on P-256, which signature bytes verify over a digest
under such a point, and which compressed Edwards points decompress. All that
surrounds them, the domain prefixes, the encodings and the length checks, is
concrete.
-/

set_option autoImplicit false

namespace Permanu.PlanCrypto
open ByteText Base64Text

abbrev Digest := {bytes : Str // bytes.length = 32}

structure Primitives where
  sha256 : Str → Digest
  pointOnCurve : Str → Bool
  ecdsaVerifies : (point : Str) → (digest : Digest) → (signature : Str) → Bool
  edwardsDecompresses : Str → Bool

def digestOfNat (n : ℕ) : Digest := ⟨bigEndian 32 n, bigEndian_length⟩

def tablePrimitives (hashes : List (Str × Digest)) (points : List Str)
    (signatures : List (Str × Digest × Str)) : Primitives where
  sha256 bytes := (hashes.lookup bytes).getD (digestOfNat 0)
  pointOnCurve point := points.contains point
  ecdsaVerifies point digest signature := signatures.contains (point, digest, signature)
  edwardsDecompresses _ := false

def planPrefix : Str := str "permanu-plan-v1\n"
def rulePrefix : Str := str "permanu-rule-v1\n"
def specPrefix : Str := str "permanu-spec-v1\n"
def keyAddPrefix : Str := str "permanu-key-add-v1\n"
def keyRevokePrefix : Str := str "permanu-key-revoke-v1\n"

def spkiPrefix : Str :=
  [0x30, 0x59, 0x30, 0x13, 0x06, 0x07, 0x2a, 0x86, 0x48, 0xce, 0x3d, 0x02, 0x01, 0x06, 0x08, 0x2a,
    0x86, 0x48, 0xce, 0x3d, 0x03, 0x01, 0x07, 0x03, 0x42, 0x00]

def spkiLength : ℕ := 91

variable (prim : Primitives)

def prefixedDigest (pre : Str) (canonical : Str) : Digest := prim.sha256 (pre ++ canonical)

def digestHex (pre : Str) (canonical : Str) : Str := hex (prefixedDigest prim pre canonical).val

def b64urlDecode (value : Str) : Option Str := decodeUnpadded urlSafe value
def b64urlEncode (bytes : Str) : Str := encodeUnpadded urlSafe bytes

def derKeyId (der : Str) : Str := b64urlEncode ((prim.sha256 der).val.take 16)

structure PublicKey where
  point : Str
  keyId : Str
  deriving DecidableEq, Repr

def parseSpkiBase64 (value : Str) : Option PublicKey :=
  match decodeStandard value with
  | none => none
  | some der =>
    let point := der.drop spkiPrefix.length
    if der.length = spkiLength && der.take spkiPrefix.length = spkiPrefix
        && point.head? = some 0x04 && prim.pointOnCurve point
    then some ⟨point, derKeyId prim der⟩ else none

def PublicKey.verifyPrehash (key : PublicKey) (digest : Digest) (rawSignature : Str) : Bool :=
  rawSignature.length == 64 && prim.ecdsaVerifies key.point digest rawSignature

def ed25519SpkiPrefix : Str :=
  [0x30, 0x2a, 0x30, 0x05, 0x06, 0x03, 0x2b, 0x65, 0x70, 0x03, 0x21, 0x00]

def atOrAboveP (bytes : Str) : Bool :=
  (bytes.getD 31 0 &&& 0x7f) == 0x7f && (slice31 bytes).all (· == 0xff) && 0xed ≤ bytes.getD 0 0
where
  slice31 (bytes : Str) : Str := (bytes.drop 1).take 30

def releaseKeyId (spki : Str) : Option Str :=
  match decodeStandard spki with
  | none => none
  | some der =>
    let bytes := der.drop 12
    if der.length = 44 && der.take 12 = ed25519SpkiPrefix && encodeStandard der = spki
        && !atOrAboveP bytes && prim.edwardsDecompresses bytes
    then some (derKeyId prim der) else none

end Permanu.PlanCrypto
