/-
**File names.**

A name is a way: segments that lead from one directory to the next.  Segments that lead nowhere are
left out wherever a name is told.  Where it matters which file is meant, two dots lead back over the
segment before them, so that every spelling of a place has one name.

Main definitions:

* `FileName.isPossible`: whether there can be a file of a name;
* `FileName.segments`: the segments that lead somewhere;
* `FileName.normal`: a name as it is told in messages;
* `FileName.way`, `FileName.resolved`: the place that a name leads to.
-/

import DocCatalog.Text.Split

set_option autoImplicit false

namespace DocCatalog.FileName

/-- Whether there can be a file of a name: none has the null character in it. -/
def isPossible (name : String) : Bool := !name.toList.contains (Char.ofNat 0)

/-- The segment that leads back. -/
def back : String := ".."

/-- The segments of a name that lead somewhere: neither empty nor the directory itself. -/
def segments (name : String) : List String :=
  ((Text.split ['/'] name.toList).map String.ofList).filter fun s => s ≠ "" && s ≠ "."

/-- Where a name starts: two slashes stay as they are, any other number of them is one. -/
def start (name : String) : String :=
  match name.toList with
  | '/' :: '/' :: '/' :: _ => "/"
  | '/' :: '/' :: _ => "//"
  | '/' :: _ => "/"
  | _ => ""

/-- The name of segments from a start; without either it is that of the directory itself. -/
def joined (start : String) (segments : List String) : String :=
  let text := start ++ "/".intercalate segments
  if text = "" then "." else text

/-- A name without the segments that lead nowhere. -/
def normal (name : String) : String := joined (start name) (segments name)

/-! ### Leading back -/

/-- One segment further on a way, which is listed last segment first.  Two dots take the last
segment away again, and stay if there is none to take. -/
def advance (walked : List String) (segment : String) : List String :=
  if segment ≠ back then segment :: walked
  else
    match walked with
    | [] => [back]
    | last :: rest => if last = back then back :: walked else rest

/-- The segments of the way to the place that a name leads to.  Nothing is above the place where
absolute names start. -/
def way (name : String) : List String :=
  let walked := ((segments name).foldl advance []).reverse
  if start name = "" then walked else walked.dropWhile (· = back)

/-- The name of the place that a name leads to, in its one spelling. -/
def resolved (name : String) : String := joined (start name) (way name)

end DocCatalog.FileName
