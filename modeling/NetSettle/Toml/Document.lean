import NetSettle.Toml.Line

/-!
# Reading TOML

The lines of a text build up one table. A header says where the entries below it belong. No table
has two headers, and no key has two values.
-/
namespace NetSettle.Toml

/-- Changes the entries of the table that a path of headers leads to. A table on the way is made if
it is missing; the way through an array of tables is through its last one. -/
def within (change : Entries → Option Entries) : (path : List String) → Entries → Option Entries
  | [], entries => change entries
  | name :: path, entries =>
    match entries.lookup name with
    | none => do
      let inner ← within change path []
      return entries.put name (.table .implied inner)
    | some (.table .braces _) => none
    | some (.table origin inner) => do
      let inner ← within change path inner
      return entries.put name (.table origin inner)
    | some (.tables items) => do
      let inner ← within change path (items.getLast?.getD [])
      return entries.put name (.tables (items.dropLast ++ [inner]))
    | some _ => none

def openTable (name : String) (entries : Entries) : Option Entries :=
  match entries.lookup name with
  | none => some (entries.put name (.table .header []))
  | some (.table .implied inner) => some (entries.put name (.table .header inner))
  | some _ => none

def openItem (name : String) (entries : Entries) : Option Entries :=
  match entries.lookup name with
  | none => some (entries.put name (.tables [[]]))
  | some (.tables items) => some (entries.put name (.tables (items ++ [[]])))
  | some _ => none

structure Draft where
  root : Entries
  path : List String

def Draft.openWith (d : Draft) (change : String → Entries → Option Entries) (key : List String) :
    Option Draft := do
  let name ← key.getLast?
  let root ← within (change name) key.dropLast d.root
  return ⟨root, key⟩

def Draft.add (d : Draft) : Line → Option Draft
  | .entry key value => do
    let root ← within (insert value key) d.path d.root
    return ⟨root, d.path⟩
  | .header key => d.openWith openTable key
  | .itemHeader key => d.openWith openItem key

def lineBreaks? : List Char → Option (List Char)
  | [] => some []
  | '\r' :: '\n' :: rest => (lineBreaks? rest).map ('\n' :: ·)
  | c :: rest => if c == '\r' then none else (lineBreaks? rest).map (c :: ·)

def dropMark : List Char → List Char
  | c :: rest => if c.toNat = 0xFEFF then rest else c :: rest
  | [] => []

def parse? (text : String) : Option Toml := do
  let s ← lineBreaks? (dropMark text.toList)
  let lines ← lines? (s.length + 1) s
  let draft ← lines.foldlM Draft.add ⟨[], []⟩
  return .table .header draft.root

end NetSettle.Toml
