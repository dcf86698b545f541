import MarkdownVault.Text.Printable

/-!
# Quoted texts in messages

A message shows a text between single quotes; double quotes are taken when the text holds a
single quote and no double quote. Backslashes, the chosen quote and all characters that do not
print are escaped.
-/

namespace MarkdownVault.Text

/-- Lower-case hexadecimal digits, at least `width` of them. -/
def hex (width n : Nat) : List Char :=
  let digits := Nat.toDigits 16 n
  List.replicate (width - digits.length) '0' ++ digits

def escapeQuoted (quote c : Char) : List Char :=
  if c = quote || c = '\\' then ['\\', c]
  else if c = '\n' then ['\\', 'n']
  else if c = '\r' then ['\\', 'r']
  else if c = '\t' then ['\\', 't']
  else if isPrintable c then [c]
  else if c.toNat < 0x100 then ['\\', 'x'] ++ hex 2 c.toNat
  else if c.toNat < 0x10000 then ['\\', 'u'] ++ hex 4 c.toNat
  else ['\\', 'U'] ++ hex 8 c.toNat

def quoteFor (cs : List Char) : Char :=
  if cs.contains '\'' && !cs.contains '"' then '"' else '\''

def quoted (cs : List Char) : List Char :=
  let quote := quoteFor cs
  [quote] ++ cs.flatMap (escapeQuoted quote) ++ [quote]

end MarkdownVault.Text

namespace MarkdownVault

def quoted (s : String) : String := String.ofList (Text.quoted s.toList)

end MarkdownVault
