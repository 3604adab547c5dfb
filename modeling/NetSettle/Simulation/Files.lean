/-!
# Files

What a command needs of a file system: reading and writing texts by path, and making the directory
of a file that is to be written.
-/
namespace NetSettle

class Files (m : Type → Type) where
  readText : String → m (Option String)
  isThere : String → m Bool
  writeText : String → String → m Bool
  makeDirectory : String → m Bool

namespace Path

def isUsable (path : String) : Bool :=
  !path.isEmpty && path.utf8ByteSize < 4096 && !path.toList.contains '\x00'

def isName (part : String) : Bool := part.utf8ByteSize < 256

def trimReversed : List Char → List Char
  | '/' :: rest => trimReversed rest
  | '.' :: '/' :: rest => trimReversed rest
  | s => s

/-- The directory of what a path names, empty if the path has a single part; none for the root and
the empty path. -/
def parent? (path : String) : Option String :=
  match trimReversed path.toList.reverse with
  | [] => none
  | reversed =>
    match reversed.dropWhile (· != '/') with
    | [] => some ""
    | above =>
      match trimReversed above with
      | [] => some "/"
      | above => some (String.ofList above.reverse)

def expandHome (home : Option String) (path : String) : String :=
  match home, path.toList with
  | some home, ['~'] => home
  | some home, '~' :: '/' :: rest => home ++ String.ofList ('/' :: rest)
  | _, _ => path

end Path

inductive FileEntry where
  | text (content : String)
  -- a device that is always empty: what is written to it is gone
  | sink
  | directory
  deriving DecidableEq, Repr

structure FileTree where
  current : List String
  entries : List (List String × FileEntry)
  deriving DecidableEq, Repr

namespace FileTree

def find? (t : FileTree) (place : List String) : Option FileEntry :=
  if place.isEmpty then some .directory else t.entries.lookup place

def put (t : FileTree) (place : List String) (entry : FileEntry) : FileTree :=
  { t with entries := (place, entry) :: t.entries.filter fun e => e.1 != place }

def parts : List Char → List String
  | [] => [""]
  | '/' :: rest => "" :: parts rest
  | c :: rest =>
    match parts rest with
    | [] => [String.singleton c]
    | part :: more => (String.singleton c ++ part) :: more

/-- Goes on from a place, part by part, through directories that are there. What the last part
names need not be there. Names have at most 255 bytes. -/
def walk (t : FileTree) : (place : List String) → List String → Option (List String)
  | place, [] => some place
  | place, part :: rest =>
    if t.find? place ≠ some .directory then none
    else if part = "" ∨ part = "." then walk t place rest
    else if part = ".." then walk t place.dropLast rest
    else if Path.isName part then walk t (place ++ [part]) rest
    else none

def start (t : FileTree) (path : String) : List String :=
  if path.toList.head? = some '/' then [] else t.current

def place? (t : FileTree) (path : String) : Option (List String) :=
  if Path.isUsable path then t.walk (t.start path) (parts path.toList) else none

def read? (t : FileTree) (path : String) : Option String :=
  match (t.place? path).bind t.find? with
  | some (.text content) => some content
  | some .sink => some ""
  | _ => none

def write (path content : String) (t : FileTree) : Bool × FileTree :=
  match t.place? path with
  | none => (false, t)
  | some place =>
    match t.find? place with
    | some .directory => (false, t)
    | some .sink => (true, t)
    | _ => (true, t.put place (.text content))

def makeAlong (t : FileTree) : (place : List String) → List String → Bool × FileTree
  | _, [] => (true, t)
  | place, part :: rest =>
    if part = "" ∨ part = "." then makeAlong t place rest
    else if part = ".." then makeAlong t place.dropLast rest
    else if !Path.isName part then (false, t)
    else
      let place := place ++ [part]
      match t.find? place with
      | some .directory => makeAlong t place rest
      | some _ => (false, t)
      | none => makeAlong (t.put place .directory) place rest

def makeDirectory (path : String) (t : FileTree) : Bool × FileTree :=
  if path.isEmpty then (true, t)
  else if Path.isUsable path then t.makeAlong (t.start path) (parts path.toList)
  else (false, t)

instance : Files (StateM FileTree) where
  readText path := do return (← get).read? path
  isThere path := do return (((← get).place? path).bind (← get).find?).isSome
  writeText path content := modifyGet (write path content)
  makeDirectory path := modifyGet (makeDirectory path)

end FileTree

end NetSettle
