namespace Sluice.Text

/-- Characters that take no place of their own or have no agreed shape. -/
def isUnprintable (c : Char) : Bool :=
  let n := c.toNat
  n < 0x20 || (0x7f ≤ n && n < 0xa0) || n == 0xad || (0x300 ≤ n && n < 0x370)
    || (0x200b ≤ n && n < 0x2010) || (0x2028 ≤ n && n < 0x202f) || (0x205f ≤ n && n < 0x2070)
    || (0xe000 ≤ n && n < 0xf900) || n == 0xfeff || (0xfff0 ≤ n && n < 0xfffc) || 0xe0000 ≤ n

def escape (c : Char) : String :=
  if c = '\t' then "\\t"
  else if c = '\r' then "\\r"
  else if c = '\n' then "\\n"
  else if c = '\x00' then "\\0"
  else if c = '"' then "\\\""
  else if c = '\'' then "\\'"
  else if c = '\\' then "\\\\"
  else if isUnprintable c then
    "\\u\x7b" ++ String.ofList (Nat.toDigits 16 c.toNat) ++ "\x7d"
  else c.toString

def quoted (s : String) : String := "\"" ++ String.join (s.toList.map escape) ++ "\""

end Sluice.Text
