/-! # Dictionaries in order of insertion

A dictionary keeps its keys in the order in which they first came. A key that comes again keeps its place
and takes the new value.
-/

namespace ShellAwait

structure Dictionary (α : Type) where
  entries : List (String × α)
deriving Repr, DecidableEq

namespace Dictionary

variable {α β : Type}

def empty : Dictionary α := ⟨[]⟩

instance : Inhabited (Dictionary α) := ⟨empty⟩

def lookup (key : String) : List (String × α) → Option α
  | [] => none
  | (k, value) :: rest => if k = key then some value else lookup key rest

def replace (key : String) (value : α) : List (String × α) → List (String × α)
  | [] => [(key, value)]
  | (k, old) :: rest =>
      if k = key then (k, value) :: rest else (k, old) :: replace key value rest

def get? (d : Dictionary α) (key : String) : Option α := lookup key d.entries

def contains (d : Dictionary α) (key : String) : Bool := (d.get? key).isSome

def insert (d : Dictionary α) (key : String) (value : α) : Dictionary α :=
  ⟨replace key value d.entries⟩

/-- Change the value of a key, or put in the changed default. -/
def adjust (d : Dictionary α) (key : String) (default : α) (f : α → α) : Dictionary α :=
  d.insert key (f ((d.get? key).getD default))

def keys (d : Dictionary α) : List String := d.entries.map Prod.fst

def values (d : Dictionary α) : List α := d.entries.map Prod.snd

def ofEntries (entries : List (String × α)) : Dictionary α :=
  entries.foldl (fun d entry => d.insert entry.1 entry.2) empty

def map (f : α → β) (d : Dictionary α) : Dictionary β :=
  ⟨d.entries.map fun entry => (entry.1, f entry.2)⟩

/-- Both bind the same keys to the same values, in whatever order. -/
def agrees [DecidableEq α] (a b : Dictionary α) : Bool :=
  a.keys.all (fun key => b.get? key = a.get? key) && b.keys.all (fun key => a.get? key = b.get? key)

theorem lookup_replace_self (key : String) (value : α) (entries : List (String × α)) :
    lookup key (replace key value entries) = some value := by
  induction entries with
  | nil => simp [replace, lookup]
  | cons entry rest ih =>
      obtain ⟨k, old⟩ := entry
      by_cases h : k = key <;> simp [replace, lookup, h, ih]

theorem lookup_replace_of_ne {key other : String} (value : α) (entries : List (String × α))
    (h : key ≠ other) : lookup other (replace key value entries) = lookup other entries := by
  induction entries with
  | nil => simp [replace, lookup, h]
  | cons entry rest ih =>
      obtain ⟨k, old⟩ := entry
      by_cases hk : k = key
      · subst hk
        simp [replace, lookup, h]
      · simp [replace, lookup, hk, ih]

@[simp] theorem get?_insert_self (d : Dictionary α) (key : String) (value : α) :
    (d.insert key value).get? key = some value := lookup_replace_self key value d.entries

theorem get?_insert_of_ne (d : Dictionary α) {key other : String} (value : α) (h : key ≠ other) :
    (d.insert key value).get? other = d.get? other := lookup_replace_of_ne value d.entries h

end Dictionary

end ShellAwait
