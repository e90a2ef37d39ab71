/-!
# Upper — upper case that is written in ASCII

`upper` puts a text into upper case as far as the result can be compared with an ASCII word.  Ten characters outside
ASCII have an upper case of ASCII letters: the dotless i, the long and the sharp s, and the ligatures of f and of st.
Every other character outside ASCII has an upper case that no ASCII word contains, and is kept as it is.
-/
namespace Demarcate.Text

def upperChar (c : Char) : List Char :=
  if c.toNat < 128 then [c.toUpper]
  else match c.toNat with
    | 0x00DF => ['S', 'S']
    | 0x0131 => ['I']
    | 0x017F => ['S']
    | 0xFB00 => ['F', 'F']
    | 0xFB01 => ['F', 'I']
    | 0xFB02 => ['F', 'L']
    | 0xFB03 => ['F', 'F', 'I']
    | 0xFB04 => ['F', 'F', 'L']
    | 0xFB05 => ['S', 'T']
    | 0xFB06 => ['S', 'T']
    | _ => [c]

def upper (cs : List Char) : List Char := cs.flatMap upperChar

end Demarcate.Text
