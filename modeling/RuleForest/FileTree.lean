import RuleForest.Text.Occurrence

namespace RuleForest

/-- The names of a path as they are written, the innermost first. There may be empty names among
them, and one or two points in the place of a name. -/
abbrev Path := List String

namespace Path

def step (p : Path) (name : String) : Path :=
  if name = "" || name = "." then p else if name = ".." then p.tail else name :: p

def place : Path → Path
  | [] => []
  | name :: up => step (place up) name

def ofText (s : String) : Path :=
  if s.isEmpty then [] else ((Text.splitAt '/' s.toList).map String.ofList).reverse

def parent (p : Path) : Path := (p.dropWhile String.isEmpty).tail

def text (p : Path) : String := "/".intercalate p.reverse

def bytes (p : Path) : Nat := p.foldr (fun name n => name.utf8ByteSize + 1 + n) 0

end Path

inductive FileTree.Entry where
  | file (content : String)
  | directory
deriving DecidableEq, Repr

structure FileTree where
  entries : List (Path × FileTree.Entry) := []
deriving DecidableEq, Repr

inductive FileError where
  | missing
  | notDirectory
  | isDirectory
  | notEmpty
  | nameTooLong
  | invalid
deriving DecidableEq, Repr

/-- What file systems differ in. Lengths are in bytes, that of a path with the mark at its end. -/
class FileSystem where
  maxNameBytes : Nat
  maxPathBytes : Nat
  directorySize : FileTree → Path → Nat

namespace Path

variable [FileSystem]

def nameTooLong (name : String) : Bool := FileSystem.maxNameBytes < name.utf8ByteSize

def error? (p : Path) : Option FileError :=
  if p.any (·.contains '\x00') then some .invalid
  else if FileSystem.maxPathBytes < p.bytes then some .nameTooLong
  else none

end Path

namespace FileTree

def lookup (t : FileTree) (p : Path) : Option Entry :=
  if p.place = [] then some .directory
  else (t.entries.find? fun e => e.1 == p.place).map Prod.snd

def putEntry (p : Path) (entry : Entry) : List (Path × Entry) → List (Path × Entry)
  | [] => [(p, entry)]
  | e :: es => if e.1 = p then (p, entry) :: es else e :: putEntry p entry es

def put (t : FileTree) (p : Path) (entry : Entry) : FileTree := ⟨putEntry p entry t.entries⟩

def erase (t : FileTree) (p : Path) : FileTree := ⟨t.entries.filter fun e => e.1 != p⟩

def removeAll (t : FileTree) (p : Path) : FileTree :=
  ⟨t.entries.filter fun e => !p.place.isSuffixOf e.1⟩

def isEmptyAt (t : FileTree) (p : Path) : Bool :=
  t.entries.all fun e => e.1 == p || !p.isSuffixOf e.1

def relocate (source target q : Path) : Path :=
  if source.isSuffixOf q then q.take (q.length - source.length) ++ target else q

def move (t : FileTree) (source target : Path) : FileTree :=
  ⟨(t.erase target).entries.map fun e => (relocate source target e.1, e.2)⟩

/-- Moves what is at the place `source` with all that is inside it to the place `target`, if nothing
there is in the way: a file may take the place of a file and a directory that of an empty one. -/
def moveOver (t : FileTree) (entry : Entry) (source target : Path) : Except FileError FileTree :=
  if source = target then
    .ok t
  else if source.isSuffixOf target then
    .error .invalid
  else
    match entry, t.lookup target with
    | _, none => .ok (t.move source target)
    | .file _, some (.file _) => .ok (t.move source target)
    | .file _, some .directory => .error .isDirectory
    | .directory, some (.file _) => .error .notDirectory
    | .directory, some .directory =>
      if t.isEmptyAt target then .ok (t.move source target) else .error .notEmpty

variable [FileSystem]

def size (t : FileTree) (p : Path) : Entry → Nat
  | .file content => content.utf8ByteSize
  | .directory => FileSystem.directorySize t p.place

/-- Why nothing can be found inside `p`. All that the path goes through has to be there, also where
it goes back; the outermost fault counts. -/
def directoryError? (t : FileTree) : Path → Option FileError
  | [] => none
  | name :: up =>
    match t.directoryError? up with
    | some e => some e
    | none =>
      if Path.nameTooLong name then
        some .nameTooLong
      else
        match t.lookup (name :: up) with
        | some .directory => none
        | some (.file _) => some .notDirectory
        | none => some .missing

def pathError? (t : FileTree) (p : Path) : Option FileError :=
  p.error? <|> t.directoryError? p.tail <|>
    if p.head?.any Path.nameTooLong then some .nameTooLong else none

def stat (t : FileTree) (p : Path) : Except FileError Entry :=
  match t.pathError? p with
  | some e => .error e
  | none =>
    match t.lookup p with
    | some entry => .ok entry
    | none => .error .missing

/-- Makes the directories that the path goes through and that are missing, the outermost first, up
to one that cannot be made. -/
def makeInside (t : FileTree) : Path → FileTree × Option FileError
  | [] => (t, none)
  | name :: up =>
    match t.makeInside up with
    | (t, some e) => (t, some e)
    | (t, none) =>
      match t.directoryError? (name :: up) with
      | some .missing => (t.put (Path.place (name :: up)) .directory, none)
      | e => (t, e)

def makeDirectories (t : FileTree) (p : Path) : FileTree × Option FileError :=
  match p.error? with
  | some e => (t, some e)
  | none => t.makeInside p

def write (t : FileTree) (p : Path) (content : String) : Except FileError FileTree :=
  match t.pathError? p, t.lookup p with
  | some e, _ => .error e
  | none, some .directory => .error .isDirectory
  | none, _ => .ok (t.put p.place (.file content))

def append (t : FileTree) (p : Path) (content : String) : Except FileError FileTree :=
  match t.stat p with
  | .ok (.file old) => t.write p (old ++ content)
  | _ => t.write p content

def remove (t : FileTree) (p : Path) : Except FileError FileTree :=
  match t.stat p with
  | .ok (.file _) => .ok (t.erase p.place)
  | .ok .directory => .error .isDirectory
  | .error .missing => .ok t
  | .error e => .error e

def rename (t : FileTree) (source target : Path) : Except FileError FileTree :=
  match target.error?, t.stat source, t.pathError? target with
  | some e, _, _ => .error e
  | none, .error e, _ => .error e
  | none, .ok _, some e => .error e
  | none, .ok entry, none => t.moveOver entry source.place target.place

end FileTree

end RuleForest
