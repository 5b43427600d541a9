import PeerCache.Bytes

/-!
# `PeerCache.Storage.Folder`: a folder of files

The part of a file system that a peers file needs: files are read, written,
renamed and removed by path. A path is a list of names below the folder. Writing
needs the parent to exist and does not touch a folder of that name.
-/

set_option autoImplicit false

namespace PeerCache

/-- The names that lead from a folder to an entry below it. -/
structure FolderPath where
  names : List String
  /-- Whether the path is written as that of a folder, with a slash at the end. -/
  endsInSlash : Bool
deriving DecidableEq

namespace FolderPath

/-- A path from text, with slashes between the names. -/
def ofText (text : String) : FolderPath :=
  ⟨(text.splitOn "/").filter fun name => name != "" && name != ".", text.endsWith "/"⟩

/-- The path of the enclosing folder. -/
def parent (p : FolderPath) : List String := p.names.dropLast

/-- The path with `suffix` added to its last name. -/
def withSuffix (p : FolderPath) (suffix : String) : FolderPath :=
  ⟨p.parent ++ [(p.names.getLast?).getD "peers" ++ suffix], false⟩

end FolderPath

/-- What stands below a folder: files with their bytes, and folders. -/
structure Folder where
  files : List (List String × Bytes)
  folders : List (List String)

namespace Folder

/-- The folder with nothing in it. -/
def empty : Folder := ⟨[], []⟩

instance : Inhabited Folder := ⟨empty⟩

/-- Whether a folder has this path. The empty path is the folder itself. -/
def hasFolder (f : Folder) (names : List String) : Bool := names.isEmpty || f.folders.contains names

/-- The bytes of a file. -/
def read? (f : Folder) (p : FolderPath) : Option Bytes :=
  if p.endsInSlash then none else f.files.lookup p.names

/-- Whether there is a file or folder with this path. -/
def contains (f : Folder) (p : FolderPath) : Bool := (f.read? p).isSome || f.hasFolder p.names

/-- Removes a file, if there is one. -/
def remove (f : Folder) (p : FolderPath) : Folder :=
  { f with files := f.files.filter fun (names, _) => names != p.names }

/-- Creates or overwrites a file. -/
def write? (f : Folder) (p : FolderPath) (data : Bytes) : Option Folder :=
  if p.endsInSlash || f.hasFolder p.names || !f.hasFolder p.parent then none
  else some { f.remove p with files := (p.names, data) :: (f.remove p).files }

/-- Gives a file another path. A file of that path is replaced, a folder is not. -/
def rename? (f : Folder) (source target : FolderPath) : Option Folder := do
  let data ← f.read? source
  (f.remove source).write? target data

/-- Creates a folder, and those that lead to it. -/
def createFolder? (f : Folder) (p : FolderPath) : Option Folder :=
  let above := (List.range p.names.length).map fun n => p.names.take (n + 1)
  if above.any fun names => (f.files.lookup names).isSome then none
  else some { f with folders := above.filter (!f.folders.contains ·) ++ f.folders }

/-- The names of the entries, in order. -/
def list (f : Folder) : List String :=
  let names := (f.files.map Prod.fst ++ f.folders).filterMap fun
    | [name] => some name
    | _ => none
  names.mergeSort fun a b => !(b < a)

end Folder

end PeerCache
