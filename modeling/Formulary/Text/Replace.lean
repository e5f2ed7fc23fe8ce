/-
  Finding and replacing a piece of text.

  Occurrences are taken from the left and do not overlap. The empty text occurs
  before every character and at the end.
-/

namespace Formulary.Text

def occursIn (part : List Char) : List Char → Bool
  | [] => part.isEmpty
  | c :: cs => part.isPrefixOf (c :: cs) || occursIn part cs

/-- Replaces the occurrences of the non-empty text `old`. The first `skip`
characters belong to an occurrence already replaced. -/
def replaceFrom (old new : List Char) (skip : Nat) : List Char → List Char
  | [] => []
  | c :: cs =>
    match skip with
    | k + 1 => replaceFrom old new k cs
    | 0 =>
      if old.isPrefixOf (c :: cs) then new ++ replaceFrom old new (old.length - 1) cs
      else c :: replaceFrom old new 0 cs

/-- Replaces every occurrence of `old` by `new`. -/
def replaceAll (old new cs : List Char) : List Char :=
  if old.isEmpty then new ++ cs.flatMap fun c => c :: new else replaceFrom old new 0 cs

end Formulary.Text
