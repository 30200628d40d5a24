import TitleClasses.Text.Basic

/-!
# Capitals

The capitals of the letters that can stand for a letter of ASCII: a word of ASCII that is known in
capitals is recognised in small letters too.
-/

namespace TitleClasses

/-- The capital of a letter that stands for one of ASCII: of the small letters of ASCII, of the i without
a dot, and of the long s. -/
def CodePoint.capital (c : CodePoint) : CodePoint :=
  if 0x61 ≤ c.val && c.val ≤ 0x7a then ⟨c.val - 0x20, by have := c.isLt; omega⟩
  else if c.val = 0x131 then 'I'
  else if c.val = 0x17f then 'S'
  else c

/-- The capitals of a text. -/
def Text.capitals (t : Text) : Text := t.map CodePoint.capital

end TitleClasses
