/-!
# Paths

A path is a text of steps separated by strokes.
-/

namespace Seeing.Path

/-- The steps of a path, with an empty one for every stroke too many. -/
def steps (path : String) : List String := (path.toList.splitOn '/').map String.ofList

/-- Whether a step leads nowhere. -/
def isIdle (step : String) : Bool := step.isEmpty || step = "."

/-- A path without the idle steps at its end. A leading step is kept. -/
def trimEnd (steps : List String) : List String :=
  match steps with
  | [] => []
  | first :: rest => first :: (rest.reverse.dropWhile isIdle).reverse

/-- The directory that holds what a path names, if the path names it by more than one step. -/
def parent? (path : String) : Option String :=
  match trimEnd (steps path) with
  | [] => none
  | [_] => none
  | [root, _] => some (if root.isEmpty then "/" else root)
  | steps => some ("/".intercalate (trimEnd steps.dropLast))

/-- The last step of a path. -/
def name (path : String) : String := (trimEnd (steps path)).getLastD ""

/-- The part of the name after its last dot, in small letters. A name that starts with its only dot
has none. -/
def extension? (path : String) : Option String :=
  match (name path).toList.splitOn '.' with
  | [] => none
  | [_] => none
  | [[], _] => none
  | parts => parts.getLast?.map fun last => (String.ofList last).toLower

/-- The steps from the current directory to what a path names. -/
def resolve (path : String) : List String :=
  (steps path).foldl (fun place step =>
    if isIdle step then place
    else if step = ".." then place.dropLast
    else place ++ [step]) []

end Seeing.Path
