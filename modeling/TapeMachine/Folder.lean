import TapeMachine.Bytes

/-!
# Folders

A folder holds files by their locations. A path leads to a location part by part: a dot stays, two
dots go to the folder around, and every other part is the name of a file or a folder. Only the last
part may be missing, and only for a file that is to be written.

The folders around the given one hold nothing that is known, but files may be written there. Only
two files are always there, and they keep nothing: one takes whatever is written to it, and the
other has no room.
-/

namespace TapeMachine

/-- Why a file cannot be used. -/
inductive FileReason where
  /-- There is no such file, or no such folder to put it in. -/
  | missing
  /-- The path names a folder. -/
  | isFolder
  /-- The path leads through a file as if it were a folder. -/
  | notFolder
  /-- The path, or a name in it, is too long. -/
  | tooLong
  /-- The path holds a zero byte. -/
  | invalid
  /-- There is no room for what is to be written. -/
  | noRoom
deriving DecidableEq, Repr

/-- A file operation that failed. -/
structure FileFault where
  /-- What was tried. -/
  action : String
  /-- The path as it was given. -/
  path : Bytes
  /-- Why it failed. -/
  reason : FileReason
deriving DecidableEq, Repr

/-- The wording of a file fault. -/
def FileFault.message (fault : FileFault) : Bytes :=
  utf8 fault.action ++ utf8 " " ++ fault.path ++ utf8 ": " ++
    match fault.reason with
    | .missing => utf8 "no such file or directory"
    | .isFolder => utf8 "is a directory"
    | .notFolder => utf8 "not a directory"
    | .tooLong => utf8 "file name too long"
    | .invalid => utf8 "invalid argument"
    | .noRoom => utf8 "no space left on device"

/-- Where a file or a folder is. -/
structure Location where
  /-- Whether it is given from the outermost folder on. -/
  isAbsolute : Bool := false
  /-- How many folders up it starts. -/
  up : Nat := 0
  /-- The names that lead there, last one first. -/
  names : List Bytes := []
deriving DecidableEq, Repr

namespace Location

/-- The location of something in a folder. -/
def child (place : Location) (name : Bytes) : Location :=
  { place with names := name :: place.names }

/-- The location of the folder around. The outermost folder has none around it. -/
def parent (place : Location) : Location :=
  match place.names with
  | _ :: names => { place with names }
  | [] => if place.isAbsolute then place else { place with up := place.up + 1 }

/-- The parts of a path between its slashes. -/
def parts : Bytes → List Bytes
  | [] => [[]]
  | b :: rest =>
    if b = byte '/' then [] :: parts rest
    else match parts rest with
      | [] => [[b]]
      | part :: more => (b :: part) :: more

/-- The location of the file with a name. -/
def named (name : Bytes) : Location :=
  { names := (parts name).reverse }

/-- Where a path starts from. -/
def origin (path : Bytes) : Location :=
  { isAbsolute := path.head? == some (byte '/') }

/-- Whether a location is inside a folder, at any depth. -/
def isInside (place folder : Location) : Bool :=
  place.isAbsolute == folder.isAbsolute && place.up == folder.up &&
    folder.names.length < place.names.length && folder.names.isSuffixOf place.names

/-- Where the file is that takes whatever is written to it. -/
def void : Location :=
  { isAbsolute := true, names := [utf8 "null", utf8 "dev"] }

/-- Where the file is that has no room. -/
def full : Location :=
  { isAbsolute := true, names := [utf8 "full", utf8 "dev"] }

/-- Whether the file at a location is always there and keeps nothing. -/
def keepsNothing (place : Location) : Bool :=
  place == .void || place == .full

/-- A path that leads to a location. -/
def path (place : Location) : Bytes :=
  (if place.isAbsolute then utf8 "/" else (List.replicate place.up (utf8 "../")).flatten) ++
    Bytes.joinWith (utf8 "/") place.names.reverse

end Location

/-- A folder with what is known of its surroundings. -/
structure Folder where
  /-- The files with their contents, in the order of their creation. -/
  files : List (Location × Bytes) := []
  /-- Folders that are there, besides those with files in them. -/
  folders : List Location := []

namespace Folder

/-- The longest name of a file. -/
def longestName : Nat :=
  255

/-- The longest path. -/
def longestPath : Nat :=
  4095

/-- The contents of the file at a location. -/
def contents? (folder : Folder) (place : Location) : Option Bytes :=
  if place.keepsNothing then some [] else folder.files.lookup place

/-- Whether there is a folder at a location. -/
def hasFolder (folder : Folder) (place : Location) : Bool :=
  place.names.isEmpty || folder.folders.contains place || Location.void.isInside place ||
    folder.files.any fun file => file.1.isInside place

/-- Where the parts of a path lead from a folder. `writing` says whether a file is to be written
there, which rules out slashes at the end. -/
def follow (folder : Folder) (writing : Bool) : Location → List Bytes → Except FileReason Location
  | place, [] => .ok place
  | place, part :: rest =>
    if part.isEmpty ∨ part = utf8 "." then follow folder writing place rest
    else if part = utf8 ".." then follow folder writing place.parent rest
    else if writing ∧ rest ≠ [] ∧ rest.all List.isEmpty then .error .isFolder
    else if longestName < part.length then .error .tooLong
    else if rest = [] ∨ folder.hasFolder (place.child part) then
      follow folder writing (place.child part) rest
    else if (folder.contents? (place.child part)).isSome then .error .notFolder
    else .error .missing

/-- Where a path leads. -/
def locate (folder : Folder) (writing : Bool) (path : Bytes) : Except FileReason Location :=
  if path.contains 0 then .error .invalid
  else if path.isEmpty then .error .missing
  else if longestPath < path.length then .error .tooLong
  else folder.follow writing (.origin path) (Location.parts path)

/-- The contents of a file. -/
def read (folder : Folder) (path : Bytes) : Except FileFault Bytes :=
  match folder.locate false path with
  | .error reason => .error ⟨"open", path, reason⟩
  | .ok place =>
    if folder.hasFolder place then .error ⟨"read", path, .isFolder⟩
    else match folder.contents? place with
      | some contents => .ok contents
      | none => .error ⟨"open", path, .missing⟩

/-- Replaces the contents in a list of files, or adds a file at its end. -/
def putFile (place : Location) (contents : Bytes) :
    List (Location × Bytes) → List (Location × Bytes)
  | [] => [(place, contents)]
  | file :: rest =>
    if file.1 = place then (place, contents) :: rest else file :: putFile place contents rest

/-- Replaces a file or adds it at the end. -/
def put (folder : Folder) (place : Location) (contents : Bytes) : Folder :=
  if place.keepsNothing then folder
  else { folder with files := putFile place contents folder.files }

/-- The location at which a file may be written. -/
def locateForWriting (folder : Folder) (path : Bytes) : Except FileFault Location :=
  match folder.locate true path with
  | .error reason => .error ⟨"open", path, reason⟩
  | .ok place =>
    if folder.hasFolder place then .error ⟨"open", path, .isFolder⟩ else .ok place

/-- Writes a file, replacing what it held. -/
def write (folder : Folder) (path contents : Bytes) : Except FileFault Folder := do
  let place ← folder.locateForWriting path
  if place = .full ∧ contents ≠ [] then .error ⟨"write", path, .noRoom⟩
  else return folder.put place contents

/-- Writes into a file from a place in it on, filling up with zeros as far as needed. -/
def writeAt (folder : Folder) (place : Location) (offset : Nat) (bytes : Bytes) : Folder :=
  let before := (folder.contents? place).getD []
  folder.put place (before.take offset ++ List.replicate (offset - before.length) 0 ++ bytes ++
    before.drop (offset + bytes.length))

/-- A folder with the given files, each under its name. -/
def ofFiles (files : List (Bytes × Bytes)) : Folder :=
  { files := files.map fun (name, contents) => (.named name, contents) }

end Folder

end TapeMachine
