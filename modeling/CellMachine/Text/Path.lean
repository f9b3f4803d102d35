/-!
# File paths

Paths are texts with slashes. `clean` gives the shortest path that leads to the same place when
every folder on the way exists.
-/

namespace CellMachine.Text

/-- The steps of a path, between its slashes. -/
def pathSteps (path : String) : List String :=
  (path.splitOn "/").filter fun step => step != "" && step != "."

/-- Whether a path starts at the root. -/
def isAbsolute (path : String) : Bool := path.toList.head? == some '/'

/-- The steps without those that a step back takes back. `kept` are the steps before, last first;
from the root there is no step back. -/
def foldSteps (rooted : Bool) : (kept : List String) → List String → List String
  | kept, [] => kept.reverse
  | kept, ".." :: rest =>
    match kept with
    | [] => if rooted then foldSteps rooted [] rest else foldSteps rooted [".."] rest
    | ".." :: _ => foldSteps rooted (".." :: kept) rest
    | _ :: before => foldSteps rooted before rest
  | kept, step :: rest => foldSteps rooted (step :: kept) rest

/-- The shortest form of a path. -/
def cleanPath (path : String) : String :=
  let rooted := isAbsolute path
  let body := "/".intercalate (foldSteps rooted [] (pathSteps path))
  if rooted then "/" ++ body else if body.isEmpty then "." else body

/-- One path after the other. A path without characters is left out. -/
def joinPaths (first second : String) : String :=
  if first.isEmpty then if second.isEmpty then "" else cleanPath second
  else cleanPath (first ++ "/" ++ second)

/-- The path of the folder that a path lies in. -/
def folderOf (path : String) : String :=
  match (path.splitOn "/").dropLast with
  | [] => "."
  | steps => cleanPath ("/".intercalate steps ++ "/")

/-- The place of a path seen from a folder. -/
def placedIn (folder path : String) : String :=
  if isAbsolute path then path else joinPaths folder path

end CellMachine.Text
