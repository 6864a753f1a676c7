-- The paths of files and directories, written with slashes.
import WidgetSchema.Text.Search
namespace WidgetSchema.Place

def isAbsolute (path : String) : Bool := path.toList.head? = some '/'

/-- A path as seen from a directory. A path that starts with a slash stands for itself. -/
def join (base path : String) : String :=
  if isAbsolute path then path
  else if base = "" || base.toList.getLast? = some '/' then base ++ path
  else base ++ "/" ++ path

def parts (path : String) : List String := Text.split '/' path

/-- The parts without those at the end that name nothing. The first part always counts. -/
def dropIdle : List String → List String
  | [] => []
  | first :: rest =>
    first :: (rest.reverse.dropWhile fun part => part == "" || part == ".").reverse

/-- The directory that holds a file, as it is written in the path. There is none for the empty
path, and none for the root. -/
def parent? (path : String) : Option String :=
  match dropIdle (parts path) with
  | [] | [""] => none
  | [_] => some ""
  | part :: rest =>
    match dropIdle (part :: rest).dropLast with
    | [""] => some "/"
    | above => some (Text.join "/" above)

end WidgetSchema.Place
