import RuleForest.FileTree
import RuleForest.Log.Logger

namespace RuleForest

inductive MirrorFailure where
  | write
  | rotation
deriving DecidableEq, Repr

def MirrorFailure.message : MirrorFailure → String
  | write => "log_file_write_failed"
  | rotation => "log_file_rotation_failed"

structure Mirror where
  path : Path
  maxBytes : Number
  keep : Number
  ready : Bool := false
  stuck : Bool := false
deriving DecidableEq, Repr

inductive Mirror.Halt where
  | error (e : FileError)
  | endless

namespace Mirror

def archive (p : Path) (x : Number) : Path :=
  match p with
  | [] => []
  | name :: up => (name ++ "." ++ x.text) :: up

variable [FileSystem]

def renameIfPresent (source target : Path) (t : FileTree) : Except FileError FileTree :=
  match t.rename source target with
  | .error .missing => .ok t
  | r => r

def orUnchanged (t : FileTree) : Except FileError FileTree → FileTree × Option Halt
  | .ok t => (t, none)
  | .error e => (t, some (.error e))

def andThen (next : FileTree → FileTree × Option Halt) :
    FileTree × Option Halt → FileTree × Option Halt
  | (t, none) => next t
  | (t, some halt) => (t, some halt)

/-- Moves the archives with the numbers `x`, `x - 1`, … one place on, the oldest first, and stops at
the first error. Where one less than a number is rounded to that number again, the same archive is
moved for ever. -/
def shiftArchives (p : Path) (x : Number) (t : FileTree) : FileTree × Option Halt :=
  if _h : x < .ofInt 1 then
    (t, none)
  else
    andThen
      (fun t =>
        if (x.plus (-1)).ceil < x.ceil then shiftArchives p (x.plus (-1)) t
        else (t, some .endless))
      (orUnchanged t (renameIfPresent (archive p x) (archive p (x.plus 1)) t))
termination_by x.ceil.toNat
decreasing_by
  have := Number.ceil_pos _h
  omega

def rotate (p : Path) (keep : Number) (t : FileTree) : FileTree × Option Halt :=
  if keep = .ofInt 1 then
    orUnchanged t (t.remove p)
  else
    andThen (fun t => orUnchanged t (renameIfPresent p (archive p (.ofInt 1)) t))
      (andThen (shiftArchives p (keep.plus (-2)))
        (orUnchanged t (t.remove (archive p (keep.plus (-1))))))

def afterRotation : Option Halt → Except Halt (List MirrorFailure)
  | none => .ok []
  | some (.error _) => .ok [.rotation]
  | some .endless => .error .endless

def rotateIfNeeded (m : Mirror) (pending : Nat) (t : FileTree) :
    FileTree × Except Halt (List MirrorFailure) :=
  match t.stat m.path with
  | .error .missing => (t, .ok [])
  | .error e => (t, .error (.error e))
  | .ok entry =>
    if .ofInt (t.size m.path entry + pending : Nat) ≤ m.maxBytes then
      (t, .ok [])
    else
      let (t, halt) := rotate m.path m.keep t
      (t, afterRotation halt)

def ensureDirectory (m : Mirror) (t : FileTree) : FileTree × Option FileError :=
  if m.ready then (t, none) else t.makeDirectories m.path.parent

/-- Adds a line to the file. After a failure the directory is made anew at the next line. A line
that comes after a rotation without an end waits for ever. -/
def write (m : Mirror) (line : String) (t : FileTree) : Mirror × FileTree × List MirrorFailure :=
  if m.stuck then
    (m, t, [])
  else
    match m.ensureDirectory t with
    | (t, some _) => ({ m with ready := false }, t, [.write])
    | (t, none) =>
      match m.rotateIfNeeded line.utf8ByteSize t with
      | (t, .error .endless) => ({ m with stuck := true }, t, [])
      | (t, .error (.error _)) => ({ m with ready := false }, t, [.write])
      | (t, .ok failures) =>
        match t.append m.path line with
        | .ok t => ({ m with ready := true }, t, failures)
        | .error _ => ({ m with ready := false }, t, failures ++ [.write])

def ofLogger? (l : Logger) : Option Mirror :=
  match l.file with
  | some file =>
    if file.isEmpty then none
    else some { path := .ofText file, maxBytes := l.maxFileBytes, keep := l.maxFiles }
  | none => none

/-- A logger at work: the line of every call that makes an entry is added to the mirror, unless the
listener throws at the entry. -/
def log (l : Logger) (timestamp : String) (m : Mirror) (t : FileTree) (call : LogCall) :
    Mirror × FileTree × List MirrorFailure :=
  match l.entry? timestamp call, l.objection? call with
  | some e, none => m.write e.line t
  | _, _ => (m, t, [])

end Mirror

end RuleForest
