/-!
# Maps in key order

A map is a list of entries whose keys ascend, so two maps with the same look-ups are equal and
the entries are read back in key order. Keys are ordered by a rank, a number that tells any two
of them apart. The main statements give the look-ups after an insertion and after a removal.
-/
namespace NetSettle

class Ranked (κ : Type) where
  rank : κ → Nat
  rank_inj : ∀ {a b : κ}, rank a = rank b → a = b

open Ranked (rank rank_inj)

instance {w : Nat} : Ranked (BitVec w) := ⟨BitVec.toNat, BitVec.eq_of_toNat_eq⟩

structure SortedMap (κ β : Type) [Ranked κ] where
  entries : List (κ × β)
  sorted : entries.Pairwise (fun a b => rank a.1 < rank b.1)

namespace SortedMap

variable {κ β γ : Type} [Ranked κ]

theorem ext_entries {m n : SortedMap κ β} (h : m.entries = n.entries) : m = n := by
  cases m
  cases n
  cases h
  rfl

instance [DecidableEq κ] [DecidableEq β] : DecidableEq (SortedMap κ β) := fun m n =>
  if h : m.entries = n.entries then isTrue (ext_entries h)
  else isFalse fun e => h (congrArg entries e)

def empty : SortedMap κ β := ⟨[], List.Pairwise.nil⟩

instance : Inhabited (SortedMap κ β) := ⟨empty⟩

def toList (m : SortedMap κ β) : List (κ × β) := m.entries

def values (m : SortedMap κ β) : List β := m.entries.map (·.2)

def size (m : SortedMap κ β) : Nat := m.entries.length

def isEmpty (m : SortedMap κ β) : Bool := m.entries.isEmpty

def lookup (k : κ) : List (κ × β) → Option β
  | [] => none
  | e :: rest => if rank k = rank e.1 then some e.2 else lookup k rest

def find? (m : SortedMap κ β) (k : κ) : Option β := lookup k m.entries

def contains (m : SortedMap κ β) (k : κ) : Bool := (m.find? k).isSome

def insertEntry (k : κ) (v : β) : List (κ × β) → List (κ × β)
  | [] => [(k, v)]
  | e :: rest =>
    if rank k < rank e.1 then (k, v) :: e :: rest
    else if rank k = rank e.1 then (k, v) :: rest
    else e :: insertEntry k v rest

theorem mem_insertEntry {k : κ} {v : β} {e : κ × β} {l : List (κ × β)}
    (h : e ∈ insertEntry k v l) : e = (k, v) ∨ e ∈ l := by
  induction l with
  | nil => simpa [insertEntry] using h
  | cons a rest ih =>
    rw [insertEntry] at h
    split at h
    · simpa using h
    · split at h
      · simp only [List.mem_cons] at h ⊢
        exact h.imp_right Or.inr
      · simp only [List.mem_cons] at h ⊢
        rcases h with h | h
        · exact Or.inr (Or.inl h)
        · exact (ih h).imp_right Or.inr

theorem insertEntry_sorted (k : κ) (v : β) {l : List (κ × β)}
    (h : l.Pairwise (fun a b => rank a.1 < rank b.1)) :
    (insertEntry k v l).Pairwise (fun a b => rank a.1 < rank b.1) := by
  induction l with
  | nil => simp [insertEntry]
  | cons e rest ih =>
    rw [insertEntry]
    rw [List.pairwise_cons] at h
    split
    · rename_i hlt
      refine List.pairwise_cons.2 ⟨fun a ha => ?_, List.pairwise_cons.2 h⟩
      rcases List.mem_cons.1 ha with ha | ha
      · exact ha ▸ hlt
      · exact Nat.lt_trans hlt (h.1 a ha)
    · rename_i hge
      split
      · rename_i heq
        exact List.pairwise_cons.2 ⟨fun a ha => heq ▸ h.1 a ha, h.2⟩
      · rename_i hne
        refine List.pairwise_cons.2 ⟨fun a ha => ?_, ih h.2⟩
        rcases mem_insertEntry ha with ha | ha
        · subst ha
          show rank e.1 < rank k
          omega
        · exact h.1 a ha

def insert (m : SortedMap κ β) (k : κ) (v : β) : SortedMap κ β :=
  ⟨insertEntry k v m.entries, insertEntry_sorted k v m.sorted⟩

def erase (m : SortedMap κ β) (k : κ) : SortedMap κ β :=
  ⟨m.entries.filter (fun e => rank e.1 ≠ rank k), m.sorted.filter _⟩

def ofList (l : List (κ × β)) : SortedMap κ β :=
  l.foldl (fun m e => m.insert e.1 e.2) empty

theorem lookup_insertEntry_self (k : κ) (v : β) (l : List (κ × β)) :
    lookup k (insertEntry k v l) = some v := by
  induction l with
  | nil => simp [insertEntry, lookup]
  | cons e rest ih =>
    rw [insertEntry]
    split
    · simp [lookup]
    · split
      · simp [lookup]
      · rename_i hne
        rw [lookup, if_neg hne, ih]

theorem lookup_insertEntry_ne {k k' : κ} (h : k' ≠ k) (v : β) (l : List (κ × β)) :
    lookup k' (insertEntry k v l) = lookup k' l := by
  have hr : rank k' ≠ rank k := fun e => h (rank_inj e)
  induction l with
  | nil => simp [insertEntry, lookup, hr]
  | cons e rest ih =>
    rw [insertEntry]
    split
    · rw [lookup, if_neg hr]
    · split
      · rename_i heq
        rw [lookup, lookup, if_neg hr, if_neg (heq ▸ hr)]
      · rw [lookup, lookup, ih]

@[simp] theorem find?_empty (k : κ) : (empty : SortedMap κ β).find? k = none := rfl

@[simp] theorem find?_insert_self (m : SortedMap κ β) (k : κ) (v : β) :
    (m.insert k v).find? k = some v :=
  lookup_insertEntry_self k v m.entries

theorem find?_insert_ne (m : SortedMap κ β) {k k' : κ} (h : k' ≠ k) (v : β) :
    (m.insert k v).find? k' = m.find? k' :=
  lookup_insertEntry_ne h v m.entries

theorem lookup_filter_self (k : κ) (l : List (κ × β)) :
    lookup k (l.filter (fun e => rank e.1 ≠ rank k)) = none := by
  induction l with
  | nil => rfl
  | cons e rest ih =>
    rw [List.filter_cons]
    split
    · rename_i h
      have h' : rank e.1 ≠ rank k := by simpa using h
      rw [lookup, if_neg (fun c => h' c.symm), ih]
    · exact ih

theorem lookup_filter_ne {k k' : κ} (h : k' ≠ k) (l : List (κ × β)) :
    lookup k' (l.filter (fun e => rank e.1 ≠ rank k)) = lookup k' l := by
  have hr : rank k' ≠ rank k := fun e => h (rank_inj e)
  induction l with
  | nil => rfl
  | cons e rest ih =>
    rw [List.filter_cons]
    split
    · rw [lookup, lookup, ih]
    · rename_i hd
      have he : rank e.1 = rank k := by simpa using hd
      rw [ih, lookup, if_neg (fun c => hr (c.trans he))]

@[simp] theorem find?_erase_self (m : SortedMap κ β) (k : κ) : (m.erase k).find? k = none :=
  lookup_filter_self k m.entries

theorem find?_erase_ne (m : SortedMap κ β) {k k' : κ} (h : k' ≠ k) :
    (m.erase k).find? k' = m.find? k' :=
  lookup_filter_ne h m.entries

end SortedMap

end NetSettle
