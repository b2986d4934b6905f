/-!
# Tables that remember the order of their keys

A table gives values to keys.  Keys are compared by a Boolean equivalence that the type carries; a
key that is written again keeps its place and its first spelling, and takes the new value.
-/

namespace AnnealProver

/-- Keys with their values, in order of first arrival. -/
structure Table {κ : Type} (same : κ → κ → Bool) (υ : Type) where
  entries : List (κ × υ)

namespace Table

variable {κ υ : Type} {same : κ → κ → Bool}

/-- The table without entries. -/
def empty : Table same υ := ⟨[]⟩

instance : EmptyCollection (Table same υ) := ⟨empty⟩
instance : Inhabited (Table same υ) := ⟨empty⟩

/-- The value of a key. -/
def get? (t : Table same υ) (key : κ) : Option υ :=
  (t.entries.find? fun entry => same entry.1 key).map (·.2)

/-- The value of a key, or a given one. -/
def getD (t : Table same υ) (key : κ) (default : υ) : υ :=
  (t.get? key).getD default

/-- Whether the key has a value. -/
def contains (t : Table same υ) (key : κ) : Bool :=
  t.entries.any fun entry => same entry.1 key

/-- Gives a key a value. -/
def insert (t : Table same υ) (key : κ) (value : υ) : Table same υ :=
  if t.contains key then
    ⟨t.entries.map fun entry => if same entry.1 key then (entry.1, value) else entry⟩
  else ⟨t.entries ++ [(key, value)]⟩

/-- Writes entries one after the other. -/
def ofList (entries : List (κ × υ)) : Table same υ :=
  entries.foldl (fun t entry => t.insert entry.1 entry.2) ∅

/-- The keys in order. -/
def keys (t : Table same υ) : List κ :=
  t.entries.map (·.1)

/-- The values in the order of their keys. -/
def values (t : Table same υ) : List υ :=
  t.entries.map (·.2)

/-- The number of keys. -/
def size (t : Table same υ) : Nat :=
  t.entries.length

/-- Keeps the entries that pass the test. -/
def filter (p : κ → υ → Bool) (t : Table same υ) : Table same υ :=
  ⟨t.entries.filter fun entry => p entry.1 entry.2⟩

end Table

/-- A table keyed by names. -/
abbrev NameTable := Table (fun a b : String => a == b)

/-- Entries in the order of their names' code points. -/
def NameTable.sorted {υ : Type} (t : NameTable υ) : List (String × υ) :=
  t.entries.mergeSort fun a b => decide (a.1 ≤ b.1)

/-- Names in the order of their code points. -/
def sortNames (names : List String) : List String :=
  names.mergeSort fun a b => decide (a ≤ b)

end AnnealProver
