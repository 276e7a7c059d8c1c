/-!
# Text.Quoted — text between double quotes

Quotes, backslashes and control characters are written as escapes, everything else as it is.
-/

namespace FormulaGrid.Quoted

/-- A character as it stands between quotes. -/
def escape (c : Char) : List Char :=
  if c = '"' then ['\\', '"']
  else if c = '\\' then ['\\', '\\']
  else if c = '\t' then ['\\', 't']
  else if c = '\n' then ['\\', 'n']
  else if c = '\r' then ['\\', 'r']
  else if c.toNat = 0 then ['\\', '0']
  else if c.toNat < 0x20 ∨ 0x7F ≤ c.toNat ∧ c.toNat < 0xA0 then
    '\\' :: 'u' :: '\x7b' :: (Nat.toDigits 16 c.toNat ++ ['\x7d'])
  else [c]

/-- A text between quotes. -/
def ofString (s : String) : String :=
  String.ofList ('"' :: (s.toList.flatMap escape ++ ['"']))

end FormulaGrid.Quoted
