import Rpm.Error

/-!
Paths of files in packages.

A path is known by its components. It is written with a slash in front of each; in an archive, a
point stands in front of that.
-/

namespace Rpm.Path

def splitSlashes : List Char → List (List Char)
  | [] => [[]]
  | c :: cs =>
    match splitSlashes cs with
    | [] => [[c]]
    | part :: parts => if c = '/' then [] :: part :: parts else (c :: part) :: parts

/-- A row of characters without a point and a slash at its front. -/
def withoutDotSlash : List Char → List Char
  | '.' :: '/' :: cs => cs
  | cs => cs

/-- The components of a path: what is not empty between its slashes. -/
def components (path : String) : List String :=
  ((splitSlashes (withoutDotSlash path.toList)).filter fun part => !part.isEmpty).map String.ofList

def join (components : List String) : String :=
  components.foldl (fun path component => path ++ "/" ++ component) ""

def isRelative (component : String) : Bool := component = "." || component = ".."

/-- The path in its one spelling. It needs at least one component, and none of them relative. -/
def normalize (path : String) : Except Error String :=
  let parts := components path
  if path.toList.contains '\x00' then .error (.invalidPath path)
  else if parts.isEmpty || parts.any isRelative then .error (.invalidPath path)
  else .ok (join parts)

def archiveName (path : String) : String := "." ++ path

end Rpm.Path
