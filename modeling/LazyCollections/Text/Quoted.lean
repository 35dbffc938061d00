import LazyCollections.Text.Hex
import LazyCollections.Text.Unprintable

/-!
# Quoted texts

A quoted text stands between double quotes. A quote, a backslash and the four usual control
characters are written with a backslash, every other character that cannot be shown as itself by
its code point, and all else stands for itself.
-/

namespace LazyCollections.Text

set_option autoImplicit false

def escapeChar (c : Char) : String :=
  match c with
  | '"' => "\\\""
  | '\\' => "\\\\"
  | '\n' => "\\n"
  | '\r' => "\\r"
  | '\t' => "\\t"
  | '\x00' => "\\0"
  | c => if isUnprintable c then "\\u\x7b" ++ hexOfNat c.toNat ++ "\x7d" else String.singleton c

def quoted (text : String) : String :=
  "\"" ++ String.join (text.toList.map escapeChar) ++ "\""

end LazyCollections.Text
