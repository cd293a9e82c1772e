/-!
# Reserved words

Words that no entity can be named: the keywords and operators of the language, and the words
`syscall0`, `syscall1`, … up to a number that the compilation is set up with. The numeral of such a
word is the plain decimal one; another spelling of the same number is an ordinary name.

A word is read as a number first, and then compared with the plain word of that number. The reader
is lenient: it lets a plus sign and leading zeros pass, and knows the numbers of 64 bits. That it
accepts every plain numeral of such a number is enough.
-/

namespace StackFront.Names

/-- **Keywords and operators.** -/
def keywords : List String :=
  ["if", "else", "end", "while", "proc", "bind", "+", "-", "*", "div", "dup", "drop", "swap",
    "rot", "<", ">", "<=", ">=", "==", "!=", "!", "!8", "@", "@8"]

/-- The system call words a compilation has when it does not say otherwise. -/
def defaultSyscalls : Nat := 7

/-- The word for a system call, in its plain spelling. -/
def syscallWord (n : Nat) : String := s!"syscall{n}"

/-- A numeral without the plus sign that may stand in front of it. -/
def unsigned : List Char → List Char
  | '+' :: digits => digits
  | digits => digits

/-- **The reader of numerals.** A number that does not fit into 64 bits is not read. -/
def numeral? (spelling : List Char) : Option Nat :=
  let digits := unsigned spelling
  let n := Nat.ofDigitChars 10 digits 0
  if digits.isEmpty || !digits.all Char.isDigit then none
  else if n < UInt64.size then some n
  else none

/-- The number that a word ends in, if it is spelt like a system call. -/
def syscallNumber? (word : String) : Option Nat :=
  ("syscall".toList.isPrefixOf? word.toList).bind numeral?

/-- Whether a word is one of the first `limit` system call words, in its plain spelling. -/
def isSyscall (limit : Nat) (word : String) : Bool :=
  (syscallNumber? word).any fun n => n < limit && word == syscallWord n

/-- Whether a word is a keyword, or a word for one of the first `syscalls` system calls. -/
def isReserved (syscalls : Nat) (word : String) : Bool :=
  keywords.contains word || isSyscall syscalls word

end StackFront.Names
