/-!
# TOML values

The values of a TOML text. A table remembers how it was introduced, because that decides what later
lines may add to it.
-/
namespace NetSettle

inductive TableOrigin where
  | braces
  | header
  -- by the header of a table inside it
  | implied
  -- by a key with dots
  | dotted
  deriving DecidableEq, Repr

inductive Toml where
  | str (text : String)
  | int (n : Int)
  | bool (b : Bool)
  | other
  | arr (items : List Toml)
  | tables (items : List (List (String × Toml)))
  | table (origin : TableOrigin) (entries : List (String × Toml))

namespace Toml

abbrev Entries := List (String × Toml)

def Entries.put (key : String) (value : Toml) : Entries → Entries
  | [] => [(key, value)]
  | (k, v) :: rest => if k = key then (k, value) :: rest else (k, v) :: Entries.put key value rest

theorem Entries.lookup_put_self (key : String) (value : Toml) (entries : Entries) :
    (Entries.put key value entries).lookup key = some value := by
  induction entries with
  | nil => simp [Entries.put]
  | cons entry rest ih =>
    obtain ⟨k, v⟩ := entry
    by_cases h : k = key
    · simp [Entries.put, h]
    · have h' : (key == k) = false := by simpa using fun e => h e.symm
      simp [Entries.put, h, List.lookup_cons, h', ih]

theorem Entries.lookup_put_ne {key other : String} (h : other ≠ key) (value : Toml)
    (entries : Entries) : (Entries.put key value entries).lookup other = entries.lookup other := by
  induction entries with
  | nil =>
    have h' : (other == key) = false := by simpa using h
    simp [Entries.put, List.lookup_cons, h']
  | cons entry rest ih =>
    obtain ⟨k, v⟩ := entry
    by_cases hk : k = key
    · subst hk
      have h' : (other == k) = false := by simpa using h
      simp [Entries.put, List.lookup_cons, h']
    · simp only [Entries.put, hk, if_false, List.lookup_cons]
      split
      · rfl
      · exact ih

end Toml

end NetSettle
