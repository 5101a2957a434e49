import BeaconDuties.Hex
import BeaconDuties.Primitives

/-!
# VersionText — fork versions as text

A fork version is written as `0x` and eight lower-case hexadecimal digits. It is read from eight
digits of either case behind at most one `0x` or `0X`.

* `VersionText.render` — the text of a version;
* `VersionText.parse?` — the version of a text.
-/

namespace BeaconDuties

namespace VersionText

def render (version : Version) : List Char :=
  '0' :: 'x' :: version.toList.flatMap Hex.byteDigits

/-- What follows the mark of hexadecimal digits, if a text has one. -/
def unmarked : List Char → List Char
  | '0' :: 'x' :: digits => digits
  | '0' :: 'X' :: digits => digits
  | digits => digits

/-- The bytes of pairs of hexadecimal digits. -/
def bytes? : List Char → Option (List UInt8)
  | [] => some []
  | [_] => none
  | high :: low :: rest =>
    match Hex.value? high, Hex.value? low with
    | some high, some low => (bytes? rest).map (UInt8.ofNat (16 * high + low) :: ·)
    | _, _ => none

def parse? (text : List Char) : Option Version :=
  (bytes? (unmarked text)).bind fun bytes => Bytes.ofArray? 4 bytes.toArray

end VersionText

end BeaconDuties
