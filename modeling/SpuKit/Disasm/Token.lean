import Mathlib.Data.List.Basic
import Mathlib.Data.Char

/-!
# Tokens of the opcode table

The tokenizer of `meta/__main__.py`. Its regular expression is a list of
alternatives, of which the first one that matches is taken. The table is ASCII
text, and so are the character classes.

## Main definitions

- `Token` — registers, symbols and operands
- `alternatives` — the regular expression
- `tokenize` — `_tokenize`
-/

namespace SpuKit.Disasm

/-- `Reg`, `Sym` and `Adr`, with their text -/
inductive Token where
  | reg (reg : List Char)
  | sym (sym : List Char)
  | adr (adr : List Char)
  deriving DecidableEq

/-- The named groups of the regular expression. -/
inductive Group where
  | reg
  | number
  | operand
  | lparen
  | rparen
  | lsq
  | rsq
  | plus
  | symbol
  | comment
  | whitespace
  | newline
  deriving DecidableEq

/-- `\w` -/
def isWord (c : Char) : Bool := c.isAlphanum || c == '_'

/-- `[^\S\n]` -/
def isBlank (c : Char) : Bool := [' ', '\t', '\r', '\x0b', '\x0c'].contains c

/-- The number of characters that one alternative matches. It sees the character
    before, if there is one. -/
abbrev Alternative := Option Char → List Char → Option Nat

/-- One or more characters of a class. -/
def many1 (p : Char → Bool) (s : List Char) : Option Nat :=
  let n := (s.takeWhile p).length
  if n = 0 then none else some n

/-- `\b[A-Z]+\b` -/
def matchReg : Alternative := fun prev s => do
  let n ← many1 Char.isUpper s
  if prev.any isWord || (s.drop n).head?.any isWord then none else some n

/-- `([0-9]+|$[0-9a-fA-F]+)`, where nothing can follow the end of the string -/
def matchNumber : Alternative := fun _ s => many1 Char.isDigit s

/-- `(!a|#i|[a-z]+(\.[a-z]+)?)` -/
def matchOperand : Alternative := fun _ s =>
  if ['!', 'a'].isPrefixOf s || ['#', 'i'].isPrefixOf s then some 2
  else do
    let n ← many1 Char.isLower s
    match s.drop n with
    | '.' :: rest => some (n + ((many1 Char.isLower rest).map (1 + ·)).getD 0)
    | _ => some n

def matchOne (p : Char → Bool) : Alternative := fun _ s => if s.head?.any p then some 1 else none

/-- `#.*?(?=\n)` -/
def matchComment : Alternative := fun _ s =>
  if s.head? = some '#' ∧ '\n' ∈ s then some (s.takeWhile (· ≠ '\n')).length else none

/-- `_re` -/
def alternatives : List (Group × Alternative) :=
  [(.reg, matchReg),
    (.number, matchNumber),
    (.operand, matchOperand),
    (.lparen, matchOne (· == '(')),
    (.rparen, matchOne (· == ')')),
    (.lsq, matchOne (· == '[')),
    (.rsq, matchOne (· == ']')),
    (.plus, matchOne (· == '+')),
    (.symbol, matchOne ['.', ',', '/'].contains),
    (.comment, matchComment),
    (.whitespace, fun _ s => many1 isBlank s),
    (.newline, matchOne (· == '\n'))]

/-- `_re.match`: the group that matches and the length of the match. -/
def matchAt (prev : Option Char) (s : List Char) : Option (Group × Nat) :=
  alternatives.findSome? fun p => (p.2 prev s).map (p.1, ·)

/-- `_lookup` and `_ignore_toks` -/
def Group.token (grp : Group) (val : List Char) : Option Token :=
  match grp with
  | .reg => some (.reg val)
  | .operand => some (.adr val)
  | .number | .lparen | .rparen | .lsq | .rsq | .plus | .symbol => some (.sym val)
  | .comment | .whitespace | .newline => none

/-- `_tokenize` of what is left of the string. It fails where the source raises
    the error of the lexer. -/
def tokenizeFrom : Nat → Option Char → List Char → Option (List Token)
  | _, _, [] => some []
  | 0, _, _ :: _ => none
  | n + 1, prev, s@(_ :: _) => do
    let (grp, len) ← matchAt prev s
    let val := s.take len
    let toks ← tokenizeFrom n val.getLast? (s.drop len)
    pure ((grp.token val).toList ++ toks)

/-- `_tokenize`: every match takes a character at least, so that there are no more
    matches than characters. -/
def tokenize (s : List Char) : Option (List Token) := tokenizeFrom s.length none s

example : tokenize "[d+X]".toList =
    some [.sym ['['], .adr ['d'], .sym ['+'], .reg ['X'], .sym [']']] := by
  decide

end SpuKit.Disasm
