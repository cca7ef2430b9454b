import Bitonic.Numeral
import Bitonic.Text.Visible
/-!
# Quoted text

Text in double quotes, in which every character can be seen.
-/

namespace Bitonic.Text

/-- A character inside quotes.  One that cannot be seen and has no letter of its own is given by its
code point in hexadecimal. -/
def quoteChar (c : Char) : String :=
  match c with
  | '"' => "\\\""
  | '\\' => "\\\\"
  | '\n' => "\\n"
  | '\t' => "\\t"
  | '\r' => "\\r"
  | '\x00' => "\\0"
  | c =>
    if isVisible c then c.toString else "\\u\x7b" ++ Numeral.hex c.toNat ++ "\x7d"

def quote (s : String) : String := "\"" ++ String.join (s.toList.map quoteChar) ++ "\""

end Bitonic.Text
