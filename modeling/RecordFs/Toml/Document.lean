import RecordFs.Toml.Item

/-! A whole document: its items build one table from the top down, and the first fault is told. -/
namespace RecordFs.Toml

/-- Where entries go: under the last header, or into a table that joins its array once it is whole. -/
private inductive Target where
  | under (header : List Key)
  | element (path : List Key) (key : Key) (entries : Table)

private def Target.close (root : Table) : Target → Except Problem Table
  | .under _ => .ok root
  | .element path key entries => Table.addElement path key entries root

private def build (root : Table) (target : Target) : List Item → Except Problem Table
  | [] => target.close root
  | .header grows path :: rest => do
    let root ← target.close root
    let (path, key) ← path
    if grows then build root (.element path key []) rest
    else build (← root.start path key) (.under (path ++ [key])) rest
  | .entry entry :: rest => do
    match target with
    | .under header => build (← root.atHeader (Reading.enter · entry) header) target rest
    | .element path key entries => build root (.element path key (← Reading.enter entries entry)) rest

def parse (text : String) : Except Problem Table := do build [] (.under []) (← Item.read text)

/-- What is wrong, with the line of the document that it is in. What is wrong at the end is shown in
the line of the last character. -/
def Problem.describe (problem : Problem) (text : String) : String :=
  let cs := text.toList
  let passed := Text.pieces '\n' (cs.take (cs.length - max 1 problem.place))
  let column := (passed.getLastD []).length + (if problem.place = 0 then 1 else 0)
  let line := (Text.pieces '\n' cs).getD (passed.length - 1) []
  let margin := String.ofList (List.replicate (toString passed.length).length ' ')
  let indent := String.ofList (List.replicate column ' ')
  s!"TOML parse error at line {passed.length}, column {column + 1}\n{margin} |\n" ++
    s!"{passed.length} | {String.ofList line}\n{margin} | {indent}^\n{problem.message}\n"

end RecordFs.Toml
