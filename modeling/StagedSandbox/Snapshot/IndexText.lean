import StagedSandbox.Json.Value
import StagedSandbox.Snapshot.Index

/-!
# The written form of an index

An index is a JSON object. A directory is `null`, and a file the array of its offset and length,
which fit words of 64 bits. It is written without white space and in the order of the paths; when
it is read, the last of several entries for one path counts.
-/

namespace StagedSandbox

/-- A directory, or a file as an array of two numbers. -/
def Entry.render : Entry → List Char
  | .dir => ['n', 'u', 'l', 'l']
  | .file offset length =>
    '[' :: Json.renderNat offset ++ ',' :: Json.renderNat length ++ [']']

/-- The entry that a JSON value stands for. -/
def Entry.ofJson? : Json.Value → Option Entry
  | .null => some .dir
  | .array [.number (some offset), .number (some length)] =>
    if offset < UInt64.size ∧ length < UInt64.size then some (.file offset length) else none
  | _ => none

namespace Index

/-- A path and its entry. -/
def renderEntry (entry : String × Entry) : List Char :=
  Json.renderText entry.1.toList ++ ':' :: entry.2.render

/-- The written form of an index. -/
def render (index : Index) : String :=
  String.ofList ('{' :: [','].intercalate (index.map renderEntry) ++ ['}'])

/-- Add the entry of a JSON object to an index. -/
def addJson (index : Index) (entry : Json.Text × Json.Value) : Option Index := do
  return index.insert (String.ofList (← entry.1)) (← Entry.ofJson? entry.2)

/-- The index that a JSON value stands for. -/
def ofJson? : Json.Value → Option Index
  | .object entries => entries.foldlM addJson []
  | _ => none

/-- The index that bytes hold in its written form. -/
def parse? (bytes : Bytes) : Option Index := do
  ofJson? (← Json.Value.parse? (← bytes.text?).toList)

end Index

end StagedSandbox
