import TreeMachine.Text.Shown

set_option autoImplicit false

namespace TreeMachine.Text

def hex (n : Nat) : String := String.ofList (Nat.toDigits 16 n)

/-- How one character is written between the quotes. A single quote needs no escape there. -/
def escape (c : Char) : String :=
  match c with
  | '\x00' => "\\0"
  | '\t' => "\\t"
  | '\r' => "\\r"
  | '\n' => "\\n"
  | '\\' => "\\\\"
  | '"' => "\\\""
  | c => if isShown c then String.singleton c else "\\u\x7b" ++ hex c.toNat ++ "\x7d"

def quoted (s : String) : String := "\"" ++ String.join (s.toList.map escape) ++ "\""

example : quoted "tab\there" = "\"tab\\there\"" := by decide +kernel

end TreeMachine.Text
