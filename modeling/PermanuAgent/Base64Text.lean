import PermanuAgent.ByteText

/-!
# Base64

The standard alphabet is padded and the URL alphabet is not. Both decoders are
canonical: bits left over after the last byte must be zero, and padding is
exactly what the length requires.
-/

set_option autoImplicit false

namespace Permanu.Base64Text
open ByteText

structure Alphabet where
  plus : UInt8
  slash : UInt8

def standard : Alphabet := ⟨byte '+', byte '/'⟩
def urlSafe : Alphabet := ⟨byte '-', byte '_'⟩

def sextet (a : Alphabet) (b : UInt8) : Option ℕ :=
  if isUpper b then some (b.toNat - 65)
  else if isLower b then some (b.toNat - 71)
  else if isDigit b then some (b.toNat + 4)
  else if b = a.plus then some 62
  else if b = a.slash then some 63
  else none

def symbol (a : Alphabet) (n : ℕ) : UInt8 :=
  if n < 26 then (65 + n).toUInt8
  else if n < 52 then (71 + n).toUInt8
  else if n < 62 then (n - 4).toUInt8
  else if n = 62 then a.plus
  else a.slash

def decodeUnpadded (alphabet : Alphabet) : Str → Option Str
  | [] => some []
  | [_] => none
  | [a, b] => do
    let a ← sextet alphabet a
    let b ← sextet alphabet b
    if b % 16 = 0 then some [(a * 4 + b / 16).toUInt8] else none
  | [a, b, c] => do
    let a ← sextet alphabet a
    let b ← sextet alphabet b
    let c ← sextet alphabet c
    if c % 4 = 0 then some [(a * 4 + b / 16).toUInt8, (b % 16 * 16 + c / 4).toUInt8] else none
  | a::b::c::d::rest => do
    let a ← sextet alphabet a
    let b ← sextet alphabet b
    let c ← sextet alphabet c
    let d ← sextet alphabet d
    let rest ← decodeUnpadded alphabet rest
    return (a * 4 + b / 16).toUInt8 :: (b % 16 * 16 + c / 4).toUInt8 ::
      (c % 4 * 64 + d).toUInt8 :: rest

def encodeUnpadded (alphabet : Alphabet) : Str → Str
  | [] => []
  | [a] => [symbol alphabet (a.toNat / 4), symbol alphabet (a.toNat % 4 * 16)]
  | [a, b] => [symbol alphabet (a.toNat / 4), symbol alphabet (a.toNat % 4 * 16 + b.toNat / 16),
      symbol alphabet (b.toNat % 16 * 4)]
  | a::b::c::rest => symbol alphabet (a.toNat / 4) ::
      symbol alphabet (a.toNat % 4 * 16 + b.toNat / 16) ::
      symbol alphabet (b.toNat % 16 * 4 + c.toNat / 64) ::
      symbol alphabet (c.toNat % 64) :: encodeUnpadded alphabet rest

def stripPadding (s : Str) : Str :=
  (stripSuffix s "==").getD ((stripSuffix s "=").getD s)

def decodeStandard (s : Str) : Option Str :=
  if s.length % 4 = 0 then decodeUnpadded standard (stripPadding s) else none

def encodeStandard (bytes : Str) : Str :=
  encodeUnpadded standard bytes ++ List.replicate ((3 - bytes.length % 3) % 3) (byte '=')

end Permanu.Base64Text
