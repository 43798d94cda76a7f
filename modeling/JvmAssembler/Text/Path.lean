import JvmAssembler.Text

/-!
# Slash-separated paths

Paths are cleaned lexically: empty and `.` segments disappear, and `..` takes back the segment
before it.
-/

set_option autoImplicit false

namespace JvmAssembler.Path

def slash : UInt8 := 0x2F

/-- The segment that means the directory itself. -/
def here : Text := [0x2E]

/-- The segment that means the directory above. -/
def above : Text := [0x2E, 0x2E]

def isRooted (path : Text) : Bool := path.head? == some slash

/-- One step of cleaning; the segments kept so far are newest first. Above the root there is only
the root. -/
def cleanStep (rooted : Bool) (kept : List Text) (segment : Text) : List Text :=
  if segment = [] ∨ segment = here then kept
  else if segment = above then
    match kept with
    | [] => if rooted then [] else [above]
    | last :: rest => if last = above then above :: kept else rest
  else segment :: kept

def cleanSegments (path : Text) : List Text :=
  ((Text.splitOn slash path).foldl (cleanStep (isRooted path)) []).reverse

/-- The shortest path that means the same; the empty path is the current directory. -/
def clean (path : Text) : Text :=
  let body := Text.join [slash] (cleanSegments path)
  if isRooted path then slash :: body else if body = [] then here else body

/-- A path below another, cleaned. An empty first part adds nothing. -/
def join (first second : Text) : Text :=
  if first = [] then (if second = [] then [] else clean second)
  else clean (first ++ slash :: second)

/-- The directory that holds a path: all before its last slash, cleaned. -/
def directory (path : Text) : Text :=
  clean (path.reverse.dropWhile (· ≠ slash)).reverse

/-- The last dot of a path's last segment starts its extension; without the dot. -/
def suffixAfterDot (path : Text) : Text :=
  let last := (path.reverse.takeWhile (· ≠ slash)).reverse
  if last.contains 0x2E then (last.reverse.takeWhile (· ≠ 0x2E)).reverse else []

end JvmAssembler.Path
