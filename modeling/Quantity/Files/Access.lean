import Quantity.Files.Disk

/-!
# Access to files

A command reads and writes files through an interface, so that it runs in the same way on the
files of the system and on a disk that is given as a value.
-/

namespace Quantity.Files

/-- The operations on files that commands need. -/
structure Access (m : Type → Type) where
  read : (path : String) → m (Except SystemError String)
  createDirectory : (path : String) → m (Except SystemError Unit)
  write : (path text : String) → m (Except SystemError Unit)

def Disk.access : Access (StateM Disk) :=
  { read := fun path d => (d.read path, d)
    createDirectory := fun path d => d.createDirectory path
    write := fun path text d => d.change (·.write path text) }

end Quantity.Files
