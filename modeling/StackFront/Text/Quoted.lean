/-!
# Quoted text

An inspected value shows text between double quotes, with an escape for each character that would
end the text early or could not be seen: the quote and the backslash, the line feed, the carriage
return, the tab and the null character have one of their own, and every other control character is
written by its number in hexadecimal. A single quote needs no escape.

The texts that are inspected are texts of ASCII. Beyond it there are more characters that cannot be
seen, or only together with the one before, and it takes a table of all characters to tell them from
the others. There is no such table here: other than control characters they stand for themselves.
-/

namespace StackFront.Text

/-- The hexadecimal numeral of a code point, without leading zeros. -/
def hexadecimal (n : Nat) : String := String.ofList (Nat.toDigits 16 n)

/-- The control characters: those before the blank, and a block that begins at the end of ASCII. -/
def isControl (c : Char) : Bool := c.toNat < 0x20 || (0x7f ≤ c.toNat && c.toNat < 0xa0)

/-- The form of a character between the quotes. -/
def escaped : Char → String
  | '"' => "\\\""
  | '\\' => "\\\\"
  | '\n' => "\\n"
  | '\r' => "\\r"
  | '\t' => "\\t"
  | c =>
    if c.toNat = 0 then "\\0"
    else if isControl c then "\\u\x7b" ++ hexadecimal c.toNat ++ "\x7d"
    else c.toString

/-- **A text between quotes.** -/
def quoted (s : String) : String := "\"" ++ String.join (s.toList.map escaped) ++ "\""

end StackFront.Text
