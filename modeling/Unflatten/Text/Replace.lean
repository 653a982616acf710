/-! # Replacing a text within a text

`replaceAll` puts a new text in the place of every occurrence of an old one, from left
to right; what it has put in is not searched again. -/

set_option autoImplicit false

namespace Unflatten.Text

/-- Replaces the occurrences of `old`, after `skip` characters that belong to the
occurrence found last. -/
def replaceFrom (old new : List Char) : (skip : Nat) → List Char → List Char
  | _, [] => []
  | skip + 1, _ :: rest => replaceFrom old new skip rest
  | 0, c :: rest =>
    if old.isPrefixOf (c :: rest) then new ++ replaceFrom old new (old.length - 1) rest
    else c :: replaceFrom old new 0 rest

/-- Replaces every occurrence of `old`, which must not be empty. -/
def replaceAll (text old new : String) : String :=
  String.ofList (replaceFrom old.toList new.toList 0 text.toList)

end Unflatten.Text
