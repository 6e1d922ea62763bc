/-!
# Base 64

Three bytes are written as four characters of an alphabet of sixty-four, with equals signs in place
of missing ones at the end.

## Main definitions

* `Text.encodeBase64`: the characters of a list of bytes.
* `Text.decodeBase64?`: the bytes of a text, in which foreign characters do not count.
-/

namespace StackScript.Text

/-- The characters in the order of their values. -/
def base64Alphabet : List Char :=
  "ABCDEFGHIJKLMNOPQRSTUVWXYZabcdefghijklmnopqrstuvwxyz0123456789+/".toList

/-- The character with a value. -/
def base64Char (n : Nat) : Char := base64Alphabet[n % 64]?.getD 'A'

/-- The value of a character. -/
def base64Digit? (c : Char) : Option Nat := base64Alphabet.findIdx? (· == c)

/-- The characters of a list of bytes. -/
def encodeBase64 : List UInt8 → List Char
  | [] => []
  | [a] =>
    let n := a.toNat * 16
    [base64Char (n / 64), base64Char n, '=', '=']
  | [a, b] =>
    let n := (a.toNat * 256 + b.toNat) * 4
    [base64Char (n / 4096), base64Char (n / 64), base64Char n, '=']
  | a :: b :: c :: rest =>
    let n := (a.toNat * 256 + b.toNat) * 256 + c.toNat
    base64Char (n / 262144) :: base64Char (n / 4096) :: base64Char (n / 64) :: base64Char n ::
      encodeBase64 rest

/-- The bytes of a text. `place` is the number of characters read since the last group of four,
`left` the bits of the last one that are not yet part of a byte, and `pads` the number of equals
signs since the last character. An equals sign that completes a group ends the text. -/
def decodeBase64From (place left pads : Nat) : List Char → Option (List UInt8)
  | [] => if place = 0 then some [] else none
  | c :: rest =>
    if c == '=' then
      if 2 ≤ place then
        if 4 ≤ place + pads + 1 then some [] else decodeBase64From place left (pads + 1) rest
      else decodeBase64From place left pads rest
    else
      match base64Digit? c with
      | none => decodeBase64From place left pads rest
      | some d =>
        match place with
        | 0 => decodeBase64From 1 d 0 rest
        | 1 => do return (left * 4 + d / 16).toUInt8 :: (← decodeBase64From 2 (d % 16) 0 rest)
        | 2 => do return (left * 16 + d / 4).toUInt8 :: (← decodeBase64From 3 (d % 4) 0 rest)
        | _ => do return (left * 64 + d).toUInt8 :: (← decodeBase64From 0 0 0 rest)

/-- The bytes of a text, if its characters make up whole bytes. -/
def decodeBase64? (text : List Char) : Option (List UInt8) := decodeBase64From 0 0 0 text

end StackScript.Text
