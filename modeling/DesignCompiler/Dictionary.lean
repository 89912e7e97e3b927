/-!
# Dictionaries

A dictionary maps keys to values. Its entries stay in the order in which their keys first arrived;
inserting under a known key replaces the value in place.
-/

namespace DesignCompiler

/-- Entries in the order of arrival. Where a key is repeated, the first entry counts. -/
structure Dictionary (κ α : Type) where
  entries : List (κ × α) := []

namespace Dictionary

variable {κ α : Type} [BEq κ]

/-- The dictionary without entries. -/
def empty : Dictionary κ α := ⟨[]⟩

/-- The value of the first entry under a key. -/
def lookup (key : κ) : List (κ × α) → Option α
  | [] => none
  | (k, value) :: rest => if k == key then some value else lookup key rest

/-- The entries with `value` under `key`, in place of the first entry there or at the end. -/
def put (key : κ) (value : α) : List (κ × α) → List (κ × α)
  | [] => [(key, value)]
  | (k, old) :: rest => if k == key then (k, value) :: rest else (k, old) :: put key value rest

/-- The value under a key. -/
def get? (d : Dictionary κ α) (key : κ) : Option α := lookup key d.entries

/-- Whether there is a value under a key. -/
def contains (d : Dictionary κ α) (key : κ) : Bool := (d.get? key).isSome

/-- The dictionary with `value` under `key`. -/
def insert (d : Dictionary κ α) (key : κ) (value : α) : Dictionary κ α := ⟨put key value d.entries⟩

/-- The dictionary of a list of pairs; a later pair replaces an earlier one with its key. -/
def ofList (pairs : List (κ × α)) : Dictionary κ α :=
  pairs.foldl (fun d pair => d.insert pair.1 pair.2) empty

/-- The keys in the order of their arrival. -/
def keys (d : Dictionary κ α) : List κ := d.entries.map Prod.fst

/-- The values in the order of arrival of their keys. -/
def values (d : Dictionary κ α) : List α := d.entries.map Prod.snd

/-- The number of keys. -/
def size (d : Dictionary κ α) : Nat := d.entries.length

/-- Whether there is no entry. -/
def isEmpty (d : Dictionary κ α) : Bool := d.entries.isEmpty

end Dictionary

end DesignCompiler
