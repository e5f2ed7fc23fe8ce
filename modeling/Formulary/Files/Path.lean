/-
  Paths.

  A path is its root and its components. Repeated slashes and components `.`
  vanish, `..` stays, and exactly two slashes at the start are a root of their
  own. The empty path is the current directory.
-/

namespace Formulary

structure Path where
  root : String
  parts : List String
  deriving DecidableEq, Repr

namespace Path

/-- The components between the slashes of a text, given the characters of the
component being read, last one first. -/
def splitFrom (part : List Char) : List Char → List (List Char)
  | [] => [part.reverse]
  | c :: cs => if c = '/' then part.reverse :: splitFrom [] cs else splitFrom (c :: part) cs

def ofText (s : String) : Path :=
  let cs := s.toList
  let root := match (cs.takeWhile fun c => c = '/').length with
    | 0 => ""
    | 2 => "//"
    | _ => "/"
  ⟨root, ((splitFrom [] cs).filter fun p => !(p.isEmpty || p = ['.'])).map String.ofList⟩

def text (p : Path) : String :=
  if p.root.isEmpty && p.parts.isEmpty then "." else p.root ++ "/".intercalate p.parts

def child (p : Path) (name : String) : Path := ⟨p.root, p.parts ++ [name]⟩

end Path

end Formulary
