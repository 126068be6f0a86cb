/-!
# JavaScript strings

A string is the sequence of its UTF-16 code units, lone surrogates included.
-/

namespace RerankerService.Console

abbrev JsString := List UInt16

/-- The code unit of a character below U+10000. -/
def unit (c : Char) : UInt16 :=
  UInt16.ofNat c.toNat

/-- A string of such characters. -/
def js (text : String) : JsString :=
  text.toList.map unit

def doubleQuote : UInt16 := unit '"'

def comma : UInt16 := unit ','

def lineFeed : UInt16 := unit '\n'

def carriageReturn : UInt16 := unit '\r'

/-- Template literals write a non-negative integer so. -/
def decimalUnits (value : Nat) : JsString :=
  (Nat.toDigits 10 value).map unit

end RerankerService.Console
