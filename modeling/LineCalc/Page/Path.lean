import LineCalc.Error

/-!
# Paths of pages

Where a page can be written to, seen from a directory that holds no other directories. A path is a
list of names with slashes between them; one and two dots name directories that are always there.
-/

namespace LineCalc.Page.Path

/-- The greatest number of bytes in a name. -/
def maxName : Nat := 255

/-- The least number of bytes that is too much for a path. -/
def pathBound : Nat := 4096

/-- The names in a path, in order. -/
def names (path : String) : List String :=
  ((path.toList.splitOnP (· == '/')).map String.ofList).filter (!·.isEmpty)

/-- Names of directories that are always there. -/
def isDots (name : String) : Bool := name == "." || name == ".."

/-- Follow the names of a path to the file at its end. After a slash at the end of the path, or
where there is no name, a directory is meant. -/
def follow (path : String) : List String → Except Defect Unit
  | [] => .error (.isDirectory path)
  | name :: rest =>
    if isDots name then follow path rest
    else if maxName < name.utf8ByteSize then .error (.nameTooLong path)
    else if !rest.isEmpty then .error (.noDirectory path)
    else if path.toList.getLast? = some '/' then .error (.isDirectory path)
    else .ok ()

/-- Whether a file can be written to a path, and why not. -/
def check (path : String) : Except Defect Unit :=
  if path.toList.contains '\x00' then .error .nulInName
  else if path.isEmpty then .error (.noDirectory path)
  else if pathBound ≤ path.utf8ByteSize then .error (.nameTooLong path)
  else follow path (names path)

end LineCalc.Page.Path
