import Blockscript.Text.Lines

/-!
# Directories

A `Directory` stands for the files that a program works on: reading and writing go by paths relative
to it, and fail as they do on a file system. A path is followed name by name (`follow`); all names
but the last must lead to directories. A single point stays where it is and two points lead up, so
that both always end in a directory. The directories above are there, but nothing is known to be in
them.
-/

namespace Blockscript

/-- Why a file cannot be read or written. -/
inductive AccessError where
  | missing
  | notDirectory
  | isDirectory
  | nameTooLong
  /-- No file has a name with a null character in it. -/
  | nullInName
  | other (why : String)
  deriving DecidableEq, Repr

/-- The text of an error, with its system number if it comes from the system. -/
def AccessError.message : AccessError → String
  | .missing => "No such file or directory (os error 2)"
  | .notDirectory => "Not a directory (os error 20)"
  | .isDirectory => "Is a directory (os error 21)"
  | .nameTooLong => "File name too long (os error 36)"
  | .nullInName => "file name contained an unexpected NUL byte"
  | .other why => why

/-- A name on a path, without slashes. -/
abbrev FileName := List Char

/-- Where a location is counted from. -/
inductive Base where
  /-- The directory so many levels up. -/
  | above (levels : Nat)
  | root
  deriving DecidableEq, Repr

/-- The place of a file or a directory: the names that lead to it from its base. -/
structure Location where
  base : Base
  names : List FileName
  deriving DecidableEq, Repr

namespace Location

/-- The location that a path starts from. -/
def start (path : String) : Location :=
  ⟨if path.toList.head? = some '/' then .root else .above 0, []⟩

/-- The location of the directory that this one lies in. The root lies in itself. -/
def parent : Location → Location
  | ⟨.above n, []⟩ => ⟨.above (n + 1), []⟩
  | ⟨.root, []⟩ => ⟨.root, []⟩
  | ⟨base, names⟩ => ⟨base, names.dropLast⟩

/-- Whether a name is one that every directory has: a single point or two. -/
def isDots (name : FileName) : Bool := name == ['.'] || name == ['.', '.']

/-- The location that a name leads to. -/
def enter (l : Location) (name : FileName) : Location :=
  if name = ['.'] then l
  else if name = ['.', '.'] then l.parent
  else ⟨l.base, l.names ++ [name]⟩

/-- The names on a path. Slashes in a row count as one. -/
def namesOf (path : String) : List FileName := (Text.split '/' path.toList).filter (· ≠ [])

/-- The location that a path spells. -/
def ofPath (path : String) : Location := (namesOf path).foldl enter (start path)

end Location

/-- Whether a name takes more than the 255 bytes that a file system allows. -/
def isLongName (name : FileName) : Bool := 255 < (String.ofList name).utf8ByteSize

/-- Whether a path asks for a directory by its last character. -/
def endsInSlash (path : String) : Bool := path.toList.getLast? == some '/'

/-- Files with contents of some type, by their locations. -/
structure Directory (α : Type) where
  files : List (Location × α) := []
  deriving Repr

namespace Directory

variable {α : Type}

/-- The contents of a file. -/
def get? (d : Directory α) (l : Location) : Option α := (d.files.find? (·.1 = l)).map (·.2)

/-- The directory with the contents of a file set. -/
def put (d : Directory α) (l : Location) (content : α) : Directory α :=
  ⟨d.files.filter (·.1 ≠ l) ++ [(l, content)]⟩

/-- The directory of the files at the given paths. -/
def ofFiles (files : List (String × α)) : Directory α :=
  ⟨files.map fun f => (Location.ofPath f.1, f.2)⟩

/-- The files of the directory itself, by the paths that lead to them. -/
def toFiles (d : Directory α) : List (String × α) :=
  d.files.filterMap fun f =>
    if f.1.base = .above 0 then some (String.ofList (Text.join ['/'] f.1.names), f.2) else none

/-- Whether there is a directory at a location: a base, or a directory above a file. -/
def isDirectory (d : Directory α) (l : Location) : Bool :=
  l.names == [] ||
    d.files.any fun f => f.1.base == l.base && l.names.isPrefixOf f.1.names && l.names != f.1.names

/-! ## Following a path -/

/-- The directory that a name leads to from the directory at a location. -/
def follow (d : Directory α) (l : Location) (name : FileName) : Except AccessError Location :=
  if Location.isDots name then .ok (l.enter name)
  else if isLongName name then .error .nameTooLong
  else if d.isDirectory (l.enter name) then .ok (l.enter name)
  else if (d.get? (l.enter name)).isSome then .error .notDirectory
  else .error .missing

/-- The directory and the name in it that a path ends with; no name if the path ends in the
directory. -/
def followPath (d : Directory α) (path : String) :
    Except AccessError (Location × Option FileName) :=
  if '\x00' ∈ path.toList then .error .nullInName
  else if path.isEmpty then .error .missing
  else if 4096 ≤ path.utf8ByteSize then .error .nameTooLong
  else
    let names := Location.namesOf path
    (names.dropLast.foldlM d.follow (Location.start path)).map fun l =>
      (l, names.getLast?.filter fun name => !Location.isDots name)

/-- The contents of the file at a path. -/
def read (d : Directory α) (path : String) : Except AccessError α :=
  match d.followPath path with
  | .error why => .error why
  | .ok (_, none) => .error .isDirectory
  | .ok (l, some name) =>
    if isLongName name then .error .nameTooLong
    else if d.isDirectory (l.enter name) then .error .isDirectory
    else
      match d.get? (l.enter name) with
      | none => .error .missing
      | some content => if endsInSlash path then .error .notDirectory else .ok content

/-- The directory after the file at a path was written. -/
def write (d : Directory α) (path : String) (content : α) : Except AccessError (Directory α) :=
  match d.followPath path with
  | .error why => .error why
  | .ok (_, none) => .error .isDirectory
  | .ok (l, some name) =>
    if endsInSlash path then .error .isDirectory
    else if isLongName name then .error .nameTooLong
    else if d.isDirectory (l.enter name) then .error .isDirectory
    else .ok (d.put (l.enter name) content)

theorem get?_put_self (d : Directory α) (l : Location) (content : α) :
    (d.put l content).get? l = some content := by
  simp [get?, put, List.find?_append, List.find?_eq_none.2]

end Directory

end Blockscript
