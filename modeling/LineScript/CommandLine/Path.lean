/-
LineScript/CommandLine/Path.lean

The plain form of a file path.

Repeated and trailing slashes are dropped, and so is every part that is a
single dot.  An absolute path keeps its slash in front, or two of them if it
has exactly two.  What is left of nothing is a dot.
-/

namespace LineScript.CommandLine

/-- The parts of a path between its slashes. -/
def pathParts (path : String) : List String :=
  path.splitOn "/" |>.filter fun part => part != "" && part != "."

/-- The slashes that a path keeps in front. -/
def pathRoot (path : String) : String :=
  let slashes := (path.toList.takeWhile (· == '/')).length
  if slashes = 0 then "" else if slashes = 2 then "//" else "/"

/-- The plain form of a path. -/
def plainPath (path : String) : String :=
  let plain := pathRoot path ++ String.intercalate "/" (pathParts path)
  if plain = "" then "." else plain

end LineScript.CommandLine
