/-!
# Lower case

Names are compared in lower case.  Only names made of ASCII characters are ever looked for, so the
fold need only be right about which characters have an ASCII lower-case form: the capital letters
and the Kelvin sign, whose lower-case form is the letter `k`.  All other characters stand for
themselves.
-/

namespace ChainRegistry.Text

def foldChar (c : Char) : Char :=
  if c = '\u212a' then 'k' else c.toLower

def fold (text : String) : String :=
  String.ofList (text.toList.map foldChar)

end ChainRegistry.Text
