/-! The folders that a path of the machine lies in, as the path itself names them. Slashes and single
dots at the end of a path name nothing; `..` counts as a name. -/
namespace RecordFs.Shell.Folder

/-- Takes slashes and single dots off the end of a path that is given from its end. -/
def trim : List Char → List Char
  | ['/'] => ['/']
  | '/' :: cs => trim cs
  | '.' :: '/' :: cs => trim ('/' :: cs)
  | cs => cs

/-- The folder of a path. It is nameless for a name alone; the top is in none. -/
def of? (path : String) : Option String :=
  match trim path.toList.reverse with
  | [] | ['/'] => none
  | cs => some (String.ofList (trim (cs.dropWhile (· ≠ '/'))).reverse)

private def chainUpTo : Nat → String → List String
  | 0, _ => []
  | fuel + 1, path =>
    match of? path with
    | some folder => path :: chainUpTo fuel folder
    | none => []

/-- The path and the folders that it lies in, innermost first, without the top and the nameless one. -/
def chain (path : String) : List String := chainUpTo (path.length + 1) path

end RecordFs.Shell.Folder
