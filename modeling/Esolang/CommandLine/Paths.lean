/-
  Esolang.CommandLine.Paths
  ─────────────────────────
  **PATHS ON THE COMMAND LINE.**

  A path is a sequence of steps: into an entry, up, or nowhere.  The extension of
  the last name tells the language of a program:

      a.bf       has the extension bf
      a.bf/.     the same
      a.bf/..    has none
      .bf        has none
-/

namespace Esolang.CommandLine

/-- One step of a path. -/
inductive Step where
  /-- An empty name or a dot: stays where it is. -/
  | stay
  /-- Two dots: goes up. -/
  | up
  /-- Any other name: goes to the entry of that name. -/
  | enter (name : String)
  deriving DecidableEq, Repr

/-- The step that a name in a path stands for. -/
def Step.ofName (name : String) : Step :=
  if name = "" ∨ name = "." then .stay
  else if name = ".." then .up
  else .enter name

/-- The name that a step enters. -/
def Step.name? : Step → Option String
  | .enter name => some name
  | _ => none

/-- The steps of a path. -/
def pathSteps (path : String) : List Step :=
  (path.toList.splitOn '/').map fun letters => .ofName (String.ofList letters)

/-- The part of a name after its last dot, unless that dot is its first character. -/
def nameExtension? (name : String) : Option String :=
  let letters := name.toList.reverse
  let extension := letters.takeWhile (· != '.')
  match letters.drop extension.length with
  | _ :: _ :: _ => some (String.ofList extension.reverse)
  | _ => none

/-- The extension of a path's last name, if no step up comes after it. -/
def pathExtension? (path : String) : Option String :=
  (((pathSteps path).filter (· != .stay)).getLast?.bind Step.name?).bind nameExtension?

end Esolang.CommandLine
