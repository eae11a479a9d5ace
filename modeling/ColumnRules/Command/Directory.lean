/-!
# Reading files

Reading is a function from paths to contents, which may fail. A directory whose files are known is
such a function: a path is walked name by name and reads something only if it ends at a file.
-/

set_option autoImplicit false

namespace ColumnRules

/-- Why a file could not be read. -/
inductive FileFault where
  | missing
  | directory
  | notDirectory
  | nameTooLong
  | zeroCharacter
  | other (text : String)
  deriving DecidableEq

def FileFault.message : FileFault → String
  | missing => "No such file or directory (os error 2)"
  | directory => "Is a directory (os error 21)"
  | notDirectory => "Not a directory (os error 20)"
  | nameTooLong => "File name too long (os error 36)"
  | zeroCharacter => "file name contained an unexpected NUL byte"
  | other text => text

/-- What stands under a path, or why it cannot be read. -/
abbrev Files : Type := String → Except FileFault String

/-- A directory with its files, whose names may lead into folders. -/
structure Directory where
  files : List (String × String)

namespace Directory

/-- The names between the slashes of a path. -/
def segments (path : String) : List (List Char) := path.toList.splitOn '/'

/-- The names that lead to a file, without those that stay in place. -/
def names (path : String) : List (List Char) :=
  (segments path).filter fun name => !name.isEmpty && name != ['.']

def content? (d : Directory) (way : List (List Char)) : Option String :=
  (d.files.find? fun f => names f.1 == way).map (·.2)

def isFolder (d : Directory) (way : List (List Char)) : Bool :=
  d.files.any fun f => way.isPrefixOf (names f.1)

/-- Where a walk stands: above the directory, in a folder of it given by the names that lead there,
the last one first, or at a file. -/
inductive Place where
  | above
  | folder (up : List (List Char))
  | file (content : String)

/-- The longest name, in bytes. -/
def maxName : Nat := 255

/-- The longest path, in bytes. -/
def maxPath : Nat := 4095

/-- Goes to a name in a folder. Nothing is known by name above the directory. -/
def descend (d : Directory) (place : Place) (name : List Char) : Except FileFault Place :=
  if maxName < (String.ofList name).utf8ByteSize then .error .nameTooLong
  else
    match place with
    | .file _ => .error .notDirectory
    | .above => .error .missing
    | .folder up =>
      match d.content? (name :: up).reverse with
      | some content => .ok (.file content)
      | none =>
        if d.isFolder (name :: up).reverse then .ok (.folder (name :: up)) else .error .missing

/-- One name of a path: an empty one and a point stay, two points go up. -/
def step (d : Directory) : Place → List Char → Except FileFault Place
  | .file _, _ => .error .notDirectory
  | place, [] => .ok place
  | place, ['.'] => .ok place
  | .folder (_ :: up), ['.', '.'] => .ok (.folder up)
  | _, ['.', '.'] => .ok .above
  | place, name => d.descend place name

def walk (d : Directory) (place : Place) : List (List Char) → Except FileFault Place
  | [] => .ok place
  | name :: names =>
    match d.step place name with
    | .error e => .error e
    | .ok place => d.walk place names

/-- Where a path starts: with a slash above the directory. -/
def start (path : String) : Place :=
  if path.toList.head? = some '/' then .above else .folder []

def read (d : Directory) : Files := fun path =>
  if path.isEmpty then .error .missing
  else if path.toList.contains '\x00' then .error .zeroCharacter
  else if maxPath < path.utf8ByteSize then .error .nameTooLong
  else
    match d.walk (start path) (segments path) with
    | .error e => .error e
    | .ok (.file content) => .ok content
    | .ok _ => .error .directory

end Directory

end ColumnRules
