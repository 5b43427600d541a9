import PeerCache.Storage.Envelope
import PeerCache.Storage.Folder

/-!
# `PeerCache.Storage.PeersFile`: the file that outlives a run

A peers file holds one envelope. It is written under a temporary name first and
then renamed, so a crash leaves either the old content or the new one. When the
renaming fails, the temporary file is removed again.
-/

set_option autoImplicit false

namespace PeerCache

/-- Where the peers of a network are kept. -/
structure PeersFile where
  path : FolderPath
  magic : NetworkMagic

namespace PeersFile

/-- The content of the file. -/
def read (file : PeersFile) (folder : Folder) : Except StorageError Bytes :=
  match folder.read? file.path with
  | none => .error .unreadable
  | some data => Envelope.unwrap file.magic data

/-- The path that the file is written to before it is renamed. -/
def temporary (file : PeersFile) : FolderPath := file.path.withSuffix ".new"

/-- Replaces the content of the file. -/
def write (file : PeersFile) (content : Bytes) (folder : Folder) :
    Except StorageError Unit × Folder :=
  match folder.write? file.temporary (Envelope.wrap file.magic content) with
  | none => (.error .unreadable, folder)
  | some written =>
    match written.rename? file.temporary file.path with
    | none => (.error .unreadable, written.remove file.temporary)
    | some renamed => (.ok (), renamed)

/-- Whether there is an entry at the file's path. -/
def exists? (file : PeersFile) (folder : Folder) : Bool := folder.contains file.path

end PeersFile

end PeerCache
