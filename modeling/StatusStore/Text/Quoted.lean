/-
  StatusStore/Text/Quoted.lean
  ============================
  **Quoted text for messages**: between double quotes, with every character that
  would be misread replaced by an escape.  Five characters have a short escape;
  whatever else cannot be shown is written by its number in hexadecimal.
-/
import StatusStore.Text.Unprintable

namespace StatusStore.Text

def hexDigits (n : Nat) : String := String.ofList (Nat.toDigits 16 n)

def quotedChar (c : Char) : String :=
  match c with
  | '\x00' => "\\0"
  | '\t' => "\\t"
  | '\n' => "\\n"
  | '\r' => "\\r"
  | '"' => "\\\""
  | '\\' => "\\\\"
  | c => if isUnprintable c then "\\u\x7b" ++ hexDigits c.toNat ++ "\x7d" else c.toString

def quoted (s : String) : String :=
  "\"" ++ String.join (s.toList.map quotedChar) ++ "\""

end StatusStore.Text
