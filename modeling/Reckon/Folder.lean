import Reckon.Text.Lines

set_option autoImplicit false

/-!
# Folders

A folder holds files, and a path is followed through it name by name.
-/

namespace Reckon

inductive FileFault where
  | missing
  | denied
  | notFolder
  | isFolder
  | longName
  | notText
deriving DecidableEq, Repr

def FileFault.message : FileFault → String
  | missing => "No such file or directory (os error 2)"
  | denied => "Permission denied (os error 13)"
  | notFolder => "Not a directory (os error 20)"
  | isFolder => "Is a directory (os error 21)"
  | longName => "File name too long (os error 36)"
  | notText => "stream did not contain valid UTF-8"

def pathNames (path : String) : List String :=
  (Text.pieces '/' path.toList).map String.ofList

/-- A working folder; each file stands under the names on the way to it. -/
structure Folder where
  files : List (List String × ByteArray)

namespace Folder

def ofFiles (files : List (String × ByteArray)) : Folder :=
  -- Of two files on one path the later stays.
  ⟨(files.map fun (path, bytes) => ((pathNames path).filter fun name => name ∉ ["", "."], bytes)).reverse⟩

inductive Place where
  | file (bytes : ByteArray)
  | inside (names : List String)
  -- Around the working folder nothing can be found by name.
  | outside

def place (folder : Folder) (names : List String) : Except FileFault Place :=
  match folder.files.lookup names with
  | some bytes => return .file bytes
  | none =>
    if folder.files.any fun file => names.isPrefixOf file.1 then return .inside names else throw .missing

def enter (folder : Folder) : Place → String → Except FileFault Place
  | .file _, _ => throw .notFolder
  | .inside names, name =>
    if name = "" ∨ name = "." then return .inside names
    else if name = ".." then return if names = [] then .outside else .inside names.dropLast
    else if 255 < name.utf8ByteSize then throw .longName
    else folder.place (names ++ [name])
  | .outside, name =>
    if name ∈ ["", ".", ".."] then return .outside
    else if 255 < name.utf8ByteSize then throw .longName
    else throw .missing

def follow (folder : Folder) (start : Place) (names : List String) : Except FileFault Place :=
  names.foldlM folder.enter start

theorem follow_append (folder : Folder) (start : Place) (names more : List String) :
    folder.follow start (names ++ more) = folder.follow start names >>= fun reached => folder.follow reached more :=
  List.foldlM_append

theorem follow_dot (folder : Folder) (names more : List String) :
    folder.follow (.inside names) ("." :: more) = folder.follow (.inside names) more := rfl

def read (folder : Folder) (path : String) : Except FileFault ByteArray := do
  if path = "" then throw .missing
  if 4095 < path.utf8ByteSize then throw .longName
  let start := if path.toList.head? = some '/' then .outside else .inside []
  match ← folder.follow start (pathNames path) with
  | .file bytes => return bytes
  | .inside _ => throw .isFolder
  | .outside => throw .isFolder

end Folder

end Reckon
