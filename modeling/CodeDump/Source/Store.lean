/-!
# File stores

A store is what a program sees of a file system: files with their bytes, directories and
devices, each at its place below the root, and the directory that the program works in.
`Store.walk` follows a path component by component, from the root if the path begins with a
slash and from the working directory if not; every component but the last must lead to a
directory that may be searched. There are no links: a place has one path without dots.
-/

namespace CodeDump

/-- What a program may do with a file or a directory. -/
structure Access where
  read : Bool
  /-- For a directory: to make new files in it. -/
  write : Bool
  /-- For a directory: to reach what is in it. -/
  search : Bool
  deriving DecidableEq, Repr

def Access.full : Access := ⟨true, true, true⟩

/-- The device that drops all that is written to it, and the one that is standard output. -/
inductive Device
  | null | output
  deriving DecidableEq, Repr

inductive Entry
  | file (bytes : List UInt8) (access : Access := .full)
  | directory (access : Access := .full)
  | device (d : Device)
  deriving DecidableEq, Repr

/-- Why a path cannot be read or written. -/
inductive PathFault
  | missing | denied | notDirectory | isDirectory | full | zeroByte
  deriving DecidableEq, Repr

namespace PathFault

def reason : PathFault → String
  | missing => "No such file or directory (os error 2)"
  | denied => "Permission denied (os error 13)"
  | notDirectory => "Not a directory (os error 20)"
  | isDirectory => "Is a directory (os error 21)"
  | full => "No space left on device (os error 28)"
  | zeroByte => "file name contained an unexpected NUL byte"

end PathFault

/-- What is read from an entry. A device has no bytes. -/
def Entry.contents : Entry → Except PathFault (List UInt8)
  | .file bytes access => if access.read then .ok bytes else .error .denied
  | .directory access => .error (if access.read then .isDirectory else .denied)
  | .device _ => .ok []

/-- Components below the root, none of them empty, `.` or `..`. -/
abbrev Place := List String

structure Store where
  entries : List (Place × Entry)
  /-- The working directory. -/
  home : Place
  deriving DecidableEq, Repr

/-- What a path that is written to leads to. -/
inductive Target
  | file (place : Place)
  | device (d : Device)
  deriving DecidableEq, Repr

namespace Store

/-- The devices, and a working directory with nothing in it. -/
def empty : Store :=
  ⟨[(["dev", "null"], .device .null), (["dev", "stdout"], .device .output),
    (["work"], .directory)], ["work"]⟩

/-- The texts between the slashes, at least one. -/
def splitSlash : List Char → List (List Char)
  | [] => [[]]
  | c :: cs =>
      match c == '/', splitSlash cs with
      | true, parts => [] :: parts
      | false, part :: parts => (c :: part) :: parts
      | false, [] => [[c]]

def components (path : String) : List String :=
  (splitSlash path.toList).map String.ofList

/-- Everything in front of an entry is a directory, and so is the root. -/
def entry? (s : Store) (place : Place) : Option Entry :=
  match s.entries.find? fun e => e.1 == place with
  | some e => some e.2
  | none =>
      if place.isEmpty || s.entries.any (fun e => place.isPrefixOf e.1) then some .directory
      else none

def isDirectory (s : Store) (place : Place) : Bool :=
  match s.entry? place with
  | some (.directory _) => true
  | _ => false

/-- The place one component further. The root is its own parent. -/
def step (place : Place) (component : String) : Place :=
  if component = "" ∨ component = "." then place
  else if component = ".." then place.dropLast
  else place ++ [component]

/-- Nothing is looked up between two slashes, so the directory need not be searchable. -/
def enter (s : Store) (place : Place) (component : String) : Except PathFault Place :=
  match s.entry? place with
  | some (.directory access) =>
      if component = "" ∨ access.search = true then .ok (step place component) else .error .denied
  | some _ => .error .notDirectory
  | none => .error .missing

def walk (s : Store) (start : Place) (path : List String) : Except PathFault Place :=
  path.foldlM s.enter start

def isAbsolute (path : String) : Bool := path.toList.head? == some '/'

/-- Whether the working directory is still there. -/
def isHomed (s : Store) : Bool :=
  (List.range (s.home.length + 1)).all fun n => s.isDirectory (s.home.take n)

/-- Where a walk along a path begins. -/
def start (s : Store) (path : String) : Except PathFault Place :=
  if path = "" then .error .missing
  else if path.toList.contains '\x00' then .error .zeroByte
  else if isAbsolute path then .ok []
  else if s.isHomed then .ok s.home
  else .error .missing

/-- The place that a path leads to, which may be empty. -/
def locate (s : Store) (path : String) : Except PathFault Place := do
  s.walk (← s.start path) (components path)

def read (s : Store) (path : String) : Except PathFault (List UInt8) := do
  match s.entry? (← s.locate path) with
  | none => .error .missing
  | some e => e.contents

/-- Puts an entry at a place, in front of all others of that place. -/
def put (s : Store) (place : Place) (e : Entry) : Store :=
  { s with entries := (place, e) :: s.entries.filter fun old => old.1 != place }

/-- Whether a new file can be made in a directory. -/
def isOpenTo (s : Store) (place : Place) : Bool :=
  match s.entry? place with
  | some (.directory access) => access.write
  | _ => false

/-- What can be written under a name in a directory: a file that is there or that can be made,
or a device. -/
def targetIn (s : Store) (parent place : Place) : Except PathFault Target :=
  match s.entry? place with
  | some (.directory _) => .error .isDirectory
  | some (.device d) => .ok (.device d)
  | some (.file _ access) => if access.write then .ok (.file place) else .error .denied
  | none => if s.isOpenTo parent then .ok (.file place) else .error .denied

/-- What is written under a path: the directory must be there, and the name must not end in a
slash or a dot component. -/
def target (s : Store) (path : String) : Except PathFault Target := do
  let named := ((components path).reverse.dropWhile (· == "")).reverse
  let last := named.getLast?.getD ""
  let parent ← s.walk (← s.start path) (named.dropLast ++ ["."])
  if named.length < (components path).length ∨ last = "." ∨ last = ".." then
    .error .isDirectory
  else
    s.targetIn parent (← s.enter parent last)

/-- What may be done with a file once it is written. One that is there stays as it was. -/
def accessOf (s : Store) (place : Place) : Access :=
  match s.entry? place with
  | some (.file _ access) => access
  | _ => .full

/-- Writes a file as a whole. -/
def save (s : Store) (place : Place) (bytes : List UInt8) : Store :=
  s.put place (.file bytes (s.accessOf place))

/-- The place that a name means, whatever there is on the way. -/
def placeOf (s : Store) (name : String) : Place :=
  (components name).foldl step (if isAbsolute name then [] else s.home)

def insert (s : Store) (name : String) (e : Entry) : Store := s.put (s.placeOf name) e

def erase (s : Store) (name : String) : Store :=
  { s with entries := s.entries.filter fun e => !(s.placeOf name).isPrefixOf e.1 }

end Store

end CodeDump
