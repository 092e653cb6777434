import Ahttpd.Bytes

/-!
# Base64

`Base64::encode`, three bytes at a time.
-/

namespace Ahttpd

namespace Base64

def base64Chars : Bytes :=
  str "ABCDEFGHIJKLMNOPQRSTUVWXYZabcdefghijklmnopqrstuvwxyz0123456789+/"

/-- `base64_chars[i]`. -/
def charFor (i : Byte) : Byte := base64Chars.getD i.toNat 0

/-- The four characters for three bytes. -/
def quad (a b c : Byte) : Bytes :=
  [charFor ((a &&& 0xfc) >>> 2),
    charFor (((a &&& 0x03) <<< 4) + ((b &&& 0xf0) >>> 4)),
    charFor (((b &&& 0x0f) <<< 2) + ((c &&& 0xc0) >>> 6)),
    charFor (c &&& 0x3f)]

/-- The bytes that are missing at the end are zero, and a `=` stands for each. -/
def encode : Bytes → Bytes
  | [] => []
  | [a] => (quad a 0 0).take 2 ++ str "=="
  | [a, b] => (quad a b 0).take 3 ++ str "="
  | a :: b :: c :: input => quad a b c ++ encode input

example : encode (str "ahttpd:pass") = str "YWh0dHBkOnBhc3M=" := by decide

end Base64

end Ahttpd
