/-!
# Dictionaries

Values under distinct names, kept in the order of the names.
-/

namespace Quantity.Text

/-- Values by name. -/
structure Dictionary (α : Type) where
  entries : List (String × α) := []
  deriving DecidableEq, Repr

namespace Dictionary

variable {α : Type}

def get? (d : Dictionary α) (name : String) : Option α :=
  (d.entries.find? fun e => e.1 = name).map (·.2)

def contains (d : Dictionary α) (name : String) : Bool := d.entries.any fun e => e.1 = name

/-- Put an entry in its place; one of the same name gives way. -/
def insertEntry (name : String) (value : α) : List (String × α) → List (String × α)
  | [] => [(name, value)]
  | e :: es =>
    if name < e.1 then (name, value) :: e :: es
    else if name = e.1 then (name, value) :: es
    else e :: insertEntry name value es

def insert (d : Dictionary α) (name : String) (value : α) : Dictionary α :=
  ⟨insertEntry name value d.entries⟩

def erase (d : Dictionary α) (name : String) : Dictionary α :=
  ⟨d.entries.filter fun e => e.1 ≠ name⟩

def names (d : Dictionary α) : List String := d.entries.map (·.1)

def size (d : Dictionary α) : Nat := d.entries.length

end Dictionary

end Quantity.Text
