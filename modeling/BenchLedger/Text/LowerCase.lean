/-!
# Lower case

The lower case of a text, as far as a search for an ASCII word can tell: ASCII letters fold, and of
the characters outside ASCII only U+0130 and U+212A have an ASCII letter in their lower case. Every
other character keeps itself, which no search for an ASCII word can notice.
-/

namespace BenchLedger.Text

/-- The lower case of one character: `i` and a combining dot for U+0130, `k` for the Kelvin sign. -/
def lowerChar (c : Char) : List Char :=
  if c = '\u0130' then ['i', '\u0307'] else if c = '\u212A' then ['k'] else [c.toLower]

def lowerCase (cs : List Char) : List Char := cs.flatMap lowerChar

theorem lowerCase_cons (c : Char) (cs : List Char) :
    lowerCase (c :: cs) = lowerChar c ++ lowerCase cs := rfl

end BenchLedger.Text
