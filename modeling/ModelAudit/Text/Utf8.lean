import ModelAudit.Text.Basic

/-!
# UTF-8

Decoding accepts the well-formed byte sequences only: no overlong forms, no
surrogates, nothing above U+10FFFF. Encoding fails on surrogates.
-/

namespace ModelAudit.Text

/-- A continuation byte's six bits. -/
def tailBits? (byte : UInt8) : Option Nat :=
  if 0x80 ≤ byte.toNat && byte.toNat ≤ 0xBF then some (byte.toNat - 0x80)
    else none

/-- A code point outside the surrogates that is at least the given bound. -/
def scalarFrom? (least number : Nat) : Option CodePoint :=
  if number < least || (0xD800 ≤ number && number ≤ 0xDFFF) then none
  else CodePoint.ofNat? number

/-- The text that the bytes encode. -/
def decodeUtf8? : List UInt8 → Option Text
  | [] => some []
  | first :: rest =>
    if first.toNat < 0x80 then do
      let point ← CodePoint.ofNat? first.toNat
      let text ← decodeUtf8? rest
      return point :: text
    else
      match rest with
      | [] => none
      | second :: rest =>
        if 0xC0 ≤ first.toNat && first.toNat < 0xE0 then do
          let low ← tailBits? second
          let point ← scalarFrom? 0x80 ((first.toNat - 0xC0) * 64 + low)
          let text ← decodeUtf8? rest
          return point :: text
        else
          match rest with
          | [] => none
          | third :: rest =>
            if 0xE0 ≤ first.toNat && first.toNat < 0xF0 then do
              let middle ← tailBits? second
              let low ← tailBits? third
              let point ← scalarFrom? 0x800
                ((first.toNat - 0xE0) * 4096 + middle * 64 + low)
              let text ← decodeUtf8? rest
              return point :: text
            else
              match rest with
              | [] => none
              | fourth :: rest =>
                if 0xF0 ≤ first.toNat && first.toNat < 0xF8 then do
                  let high ← tailBits? second
                  let middle ← tailBits? third
                  let low ← tailBits? fourth
                  let point ← scalarFrom? 0x10000
                    ((first.toNat - 0xF0) * 262144 + high * 4096 + middle *
                      64 + low)
                  let text ← decodeUtf8? rest
                  return point :: text
                else none

/-- The bytes of one code point; none for a surrogate. -/
def encodePoint? (point : CodePoint) : Option (List UInt8) :=
  let number := point.toNat
  let tail (shifted : Nat) : UInt8 := .ofNat (0x80 + shifted % 64)
  if point.isSurrogate then none
  else if number < 0x80 then some [.ofNat number]
  else if number < 0x800 then some [.ofNat (0xC0 + number / 64), tail number]
  else if number < 0x10000 then
    some [.ofNat (0xE0 + number / 4096), tail (number / 64), tail number]
  else
    some [.ofNat (0xF0 + number / 262144), tail (number / 4096),
      tail (number / 64), tail number]

def encodeUtf8? (text : Text) : Option (List UInt8) :=
  (text.mapM encodePoint?).map List.flatten

end ModelAudit.Text
