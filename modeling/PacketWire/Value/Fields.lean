/-!
# Named entries in insertion order

`Fields α` holds values under names, in the order in which the names came in. Setting a name that
is present replaces its value in place; taking a name removes it. Seen as a map it is `get?`.

* `get?_set`: after setting a name, that name has the new value and every other name its old one.
* `names_set`: a new name goes to the end, and a known one stays where it is.
* `nodup_names_set`, `nodup_names_erase`: names stay pairwise different.
-/

namespace PacketWire

/-- Values under names, oldest name first. -/
structure Fields (α : Type) where
  entries : List (String × α) := []

namespace Fields

variable {α : Type}

def empty : Fields α := ⟨[]⟩

/-- The number of entries (`len`). -/
def size (fields : Fields α) : Nat := fields.entries.length

def isEmpty (fields : Fields α) : Bool := fields.entries.isEmpty

/-- The names, oldest first (`names`). -/
def names (fields : Fields α) : List String := fields.entries.map (·.1)

/-- The value under a name (`get`). -/
def get? (fields : Fields α) (name : String) : Option α := fields.entries.lookup name

/-- Puts a value in the place of the first entry of that name, or at the end. -/
def setEntry (name : String) (value : α) : List (String × α) → List (String × α)
  | [] => [(name, value)]
  | entry :: rest =>
    if entry.1 = name then (name, value) :: rest else entry :: setEntry name value rest

/-- Puts a value under a name, in the place of the one it had if it had one (`set`). -/
def set (fields : Fields α) (name : String) (value : α) : Fields α :=
  ⟨setEntry name value fields.entries⟩

/-- Removes the entry of a name. -/
def erase (fields : Fields α) (name : String) : Fields α :=
  ⟨fields.entries.eraseP (·.1 == name)⟩

/-- The value under a name, and the entries without it (`take`). -/
def take (fields : Fields α) (name : String) : Option α × Fields α :=
  (fields.get? name, fields.erase name)

/-- The entries set one after another. -/
def ofList (entries : List (String × α)) : Fields α :=
  entries.foldl (fun fields entry => fields.set entry.1 entry.2) empty

/-! ## As a map -/

theorem lookup_setEntry (name other : String) (value : α) (entries : List (String × α)) :
    (setEntry name value entries).lookup other =
      if other = name then some value else entries.lookup other := by
  have hbeq : ∀ key : String, ¬other = key → (other == key) = false := fun key h => by simpa using h
  induction entries with
  | nil =>
    by_cases h : other = name
    · simp [setEntry, h]
    · simp [setEntry, List.lookup_cons, h, hbeq]
  | cons entry rest ih =>
    obtain ⟨key, old⟩ := entry
    by_cases hkey : key = name
    · subst hkey
      by_cases h : other = key
      · simp [setEntry, h]
      · simp [setEntry, List.lookup_cons, h, hbeq]
    · by_cases h : other = key
      · subst h
        simp [setEntry, hkey]
      · simp [setEntry, hkey, List.lookup_cons, hbeq, h, ih]

theorem get?_set (fields : Fields α) (name other : String) (value : α) :
    (fields.set name value).get? other = if other = name then some value else fields.get? other :=
  lookup_setEntry name other value fields.entries

/-! ## Names -/

theorem names_setEntry (name : String) (value : α) (entries : List (String × α)) :
    (setEntry name value entries).map (·.1) =
      if name ∈ entries.map (·.1) then entries.map (·.1) else entries.map (·.1) ++ [name] := by
  induction entries with
  | nil => simp [setEntry]
  | cons entry rest ih =>
    obtain ⟨key, old⟩ := entry
    by_cases hkey : key = name
    · subst hkey
      simp [setEntry]
    · have hne : name ≠ key := fun h => hkey h.symm
      by_cases hmem : name ∈ rest.map (·.1)
      · simp_all [setEntry]
      · simp_all [setEntry]

theorem names_set (fields : Fields α) (name : String) (value : α) :
    (fields.set name value).names =
      if name ∈ fields.names then fields.names else fields.names ++ [name] :=
  names_setEntry name value fields.entries

theorem nodup_names_set {fields : Fields α} (h : fields.names.Nodup) (name : String) (value : α) :
    (fields.set name value).names.Nodup := by
  rw [names_set]
  split
  · exact h
  · next hmem =>
    refine List.nodup_append.mpr ⟨h, by simp, ?_⟩
    intro a ha b hb hab
    simp only [List.mem_singleton] at hb
    exact hmem (hb ▸ hab ▸ ha)

theorem nodup_names_erase {fields : Fields α} (h : fields.names.Nodup) (name : String) :
    (fields.erase name).names.Nodup :=
  h.sublist (List.Sublist.map _ List.eraseP_sublist)

end Fields

end PacketWire
