/-!
# Keys

A key names a variable: a non-empty run of ASCII letters, digits and underscores.
-/

namespace VarSubst

/-- The characters a key is made of; letters and digits are the ASCII ones. -/
def isKeyChar (c : Char) : Bool := c.isAlphanum || c == '_'

def isKey (key : String) : Bool := !key.isEmpty && key.toList.all isKeyChar

end VarSubst
