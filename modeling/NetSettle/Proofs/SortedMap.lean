import NetSettle.SortedMap
import Mathlib.Algebra.BigOperators.Group.List.Basic
import Mathlib.Algebra.Order.BigOperators.Group.List
import Mathlib.Algebra.Order.Ring.Int

/-!
# Entries and sums of maps

The entries of a map are its look-ups. A sum over the entries changes by the new value less the old
one when a key is set, and by the old one when a key is removed.
-/
namespace NetSettle.SortedMap

open Ranked (rank rank_inj)

variable {κ β : Type} [Ranked κ]

theorem lookup_eq_none {k : κ} {l : List (κ × β)} (h : ∀ e ∈ l, rank k < rank e.1) :
    lookup k l = none := by
  induction l with
  | nil => rfl
  | cons e rest ih =>
    have he := h e (List.mem_cons_self ..)
    rw [lookup, if_neg (by omega)]
    exact ih fun a ha => h a (List.mem_cons_of_mem _ ha)

theorem lookup_eq_some_iff {k : κ} {v : β} {l : List (κ × β)}
    (hs : l.Pairwise fun a b => rank a.1 < rank b.1) : lookup k l = some v ↔ (k, v) ∈ l := by
  induction l with
  | nil => simp [lookup]
  | cons e rest ih =>
    rw [List.pairwise_cons] at hs
    rw [lookup, List.mem_cons]
    split
    · rename_i hk
      have hke : k = e.1 := rank_inj hk
      subst hke
      have hrest : (e.1, v) ∉ rest := fun hm => absurd (hs.1 _ hm) (lt_irrefl _)
      simp [hrest, Prod.ext_iff, eq_comm]
    · rename_i hk
      rw [ih hs.2]
      constructor
      · exact Or.inr
      · rintro (rfl | hm)
        · exact absurd rfl hk
        · exact hm

theorem mem_toList {m : SortedMap κ β} {k : κ} {v : β} :
    (k, v) ∈ m.toList ↔ m.find? k = some v :=
  (lookup_eq_some_iff m.sorted).symm

theorem nodup_keys (m : SortedMap κ β) : (m.toList.map (·.1)).Nodup := by
  refine List.pairwise_map.2 (m.sorted.imp ?_)
  intro a b hlt heq
  rw [heq] at hlt
  exact absurd hlt (lt_irrefl _)

theorem mem_keys {m : SortedMap κ β} {k : κ} : k ∈ m.toList.map (·.1) ↔ m.find? k ≠ none := by
  rw [Option.ne_none_iff_exists', List.mem_map]
  constructor
  · rintro ⟨⟨k', v⟩, hmem, rfl⟩
    exact ⟨v, mem_toList.1 hmem⟩
  · rintro ⟨v, hfind⟩
    exact ⟨(k, v), mem_toList.2 hfind, rfl⟩

theorem ext_find? {m n : SortedMap κ β} (h : ∀ k, m.find? k = n.find? k) : m = n := by
  apply ext_entries
  have hmem (e : κ × β) : e ∈ m.entries ↔ e ∈ n.entries := by
    change e ∈ m.toList ↔ e ∈ n.toList
    rw [mem_toList, mem_toList, h]
  have hnodup {k : SortedMap κ β} : k.entries.Nodup :=
    (List.pairwise_map.1 k.nodup_keys).imp fun hne heq => hne (congrArg _ heq)
  exact ((List.perm_ext_iff_of_nodup hnodup hnodup).2 hmem).eq_of_pairwise
    (fun a b _ _ hab hba => absurd hab (lt_asymm hba)) m.sorted n.sorted

def filter (m : SortedMap κ β) (keep : κ → β → Bool) : SortedMap κ β :=
  ⟨m.entries.filter fun e => keep e.1 e.2, m.sorted.filter _⟩

theorem find?_filter (m : SortedMap κ β) (keep : κ → β → Bool) (k : κ) :
    (m.filter keep).find? k = (m.find? k).filter (keep k) := by
  apply Option.ext
  intro v
  rw [← mem_toList, Option.filter_eq_some_iff, ← mem_toList]
  exact List.mem_filter

theorem find?_insert [DecidableEq κ] (m : SortedMap κ β) (k k' : κ) (v : β) :
    (m.insert k v).find? k' = if k' = k then some v else m.find? k' := by
  split
  · rename_i h
    rw [h, find?_insert_self]
  · rename_i h
    exact find?_insert_ne m h v

theorem insertEntry_insertEntry (k : κ) (v w : β) (l : List (κ × β)) :
    insertEntry k w (insertEntry k v l) = insertEntry k w l := by
  induction l with
  | nil => simp [insertEntry]
  | cons e rest ih =>
    rw [insertEntry, insertEntry]
    split
    · simp [insertEntry]
    · split
      · simp [insertEntry]
      · rename_i hlt hne
        rw [insertEntry, if_neg hlt, if_neg hne, ih]

theorem insert_insert (m : SortedMap κ β) (k : κ) (v w : β) :
    (m.insert k v).insert k w = m.insert k w :=
  ext_entries (insertEntry_insertEntry k v w m.entries)

theorem insertEntry_last {k : κ} {v : β} {l : List (κ × β)} (h : ∀ e ∈ l, rank e.1 < rank k) :
    insertEntry k v l = l ++ [(k, v)] := by
  induction l with
  | nil => rfl
  | cons e rest ih =>
    have he := h e (List.mem_cons_self ..)
    rw [insertEntry, if_neg (by omega), if_neg (by omega),
      ih fun a ha => h a (List.mem_cons_of_mem _ ha), List.cons_append]

theorem entries_foldl_insert {l : List (κ × β)} {m : SortedMap κ β}
    (h : (m.entries ++ l).Pairwise fun a b => rank a.1 < rank b.1) :
    (l.foldl (fun m e => m.insert e.1 e.2) m).entries = m.entries ++ l := by
  induction l generalizing m with
  | nil => exact (List.append_nil _).symm
  | cons e rest ih =>
    have hinsert : (m.insert e.1 e.2).entries = m.entries ++ [e] :=
      insertEntry_last fun a ha => (List.pairwise_append.1 h).2.2 a ha e (List.mem_cons_self ..)
    have hsplit : m.entries ++ e :: rest = (m.insert e.1 e.2).entries ++ rest := by
      rw [hinsert, List.append_assoc, List.singleton_append]
    rw [hsplit] at h ⊢
    exact ih h

theorem ofList_toList (m : SortedMap κ β) : ofList m.toList = m :=
  ext_entries (entries_foldl_insert (m := empty) m.sorted)

def All (m : SortedMap κ β) (P : κ → β → Prop) : Prop := ∀ k v, m.find? k = some v → P k v

theorem all_empty (P : κ → β → Prop) : (empty : SortedMap κ β).All P := by
  intro k v h
  cases h

theorem All.insert [DecidableEq κ] {m : SortedMap κ β} {P : κ → β → Prop} (h : m.All P) {k : κ}
    {v : β} (hv : P k v) : (m.insert k v).All P := by
  intro k' v' hf
  rw [find?_insert] at hf
  split at hf
  · rename_i hk
    cases hf
    exact hk ▸ hv
  · exact h k' v' hf

theorem all_ofList [DecidableEq κ] {P : κ → β → Prop} {l : List (κ × β)}
    (h : ∀ e ∈ l, P e.1 e.2) : (ofList l).All P := by
  have hfold : ∀ m : SortedMap κ β, m.All P → (l.foldl (fun m e => m.insert e.1 e.2) m).All P := by
    induction l with
    | nil => exact fun m hm => hm
    | cons e rest ih =>
      intro m hm
      exact ih (fun a ha => h a (List.mem_cons_of_mem _ ha)) _
        (hm.insert (h e (List.mem_cons_self ..)))
  exact hfold empty (all_empty P)

def sumBy (m : SortedMap κ β) (f : κ → β → Int) : Int := (m.entries.map fun e => f e.1 e.2).sum

@[simp] theorem sumBy_empty (f : κ → β → Int) : (empty : SortedMap κ β).sumBy f = 0 := rfl

theorem sum_insertEntry (f : κ → β → Int) (k : κ) (v : β) {l : List (κ × β)}
    (hs : l.Pairwise fun a b => rank a.1 < rank b.1) :
    ((insertEntry k v l).map fun e => f e.1 e.2).sum =
      (l.map fun e => f e.1 e.2).sum - ((lookup k l).map (f k)).getD 0 + f k v := by
  induction l with
  | nil => simp [insertEntry, lookup]
  | cons e rest ih =>
    rw [List.pairwise_cons] at hs
    rw [insertEntry]
    split
    · rename_i hlt
      have hnone : lookup k (e :: rest) = none := by
        apply lookup_eq_none
        intro a ha
        rcases List.mem_cons.1 ha with rfl | ha
        · exact hlt
        · exact hlt.trans (hs.1 a ha)
      rw [hnone]
      simp only [List.map_cons, List.sum_cons, Option.map_none, Option.getD_none]
      omega
    · split
      · rename_i heq
        have hke : k = e.1 := rank_inj heq
        subst hke
        simp only [lookup, if_true, List.map_cons, List.sum_cons, Option.map_some,
          Option.getD_some]
        omega
      · rename_i hne
        rw [lookup, if_neg hne]
        simp only [List.map_cons, List.sum_cons, ih hs.2]
        omega

theorem sumBy_insert (m : SortedMap κ β) (f : κ → β → Int) (k : κ) (v : β) :
    (m.insert k v).sumBy f = m.sumBy f - ((m.find? k).map (f k)).getD 0 + f k v :=
  sum_insertEntry f k v m.sorted

theorem sum_eraseEntry (f : κ → β → Int) (k : κ) {l : List (κ × β)}
    (hs : l.Pairwise fun a b => rank a.1 < rank b.1) :
    ((l.filter fun e => rank e.1 ≠ rank k).map fun e => f e.1 e.2).sum =
      (l.map fun e => f e.1 e.2).sum - ((lookup k l).map (f k)).getD 0 := by
  induction l with
  | nil => simp [lookup]
  | cons e rest ih =>
    rw [List.pairwise_cons] at hs
    have ih' := ih hs.2
    rw [lookup]
    by_cases hk : rank k = rank e.1
    · have hke : k = e.1 := rank_inj hk
      have hnone : lookup k rest = none := lookup_eq_none fun a ha => hk ▸ hs.1 a ha
      rw [hnone] at ih'
      simp only [Option.map_none, Option.getD_none] at ih'
      rw [List.filter_cons_of_neg (by simp [hk]), ih', if_pos hk, hke]
      simp
    · rw [List.filter_cons_of_pos (by simpa using Ne.symm hk), if_neg hk]
      simp only [List.map_cons, List.sum_cons, ih']
      omega

theorem sumBy_erase (m : SortedMap κ β) (f : κ → β → Int) (k : κ) :
    (m.erase k).sumBy f = m.sumBy f - ((m.find? k).map (f k)).getD 0 :=
  sum_eraseEntry f k m.sorted

theorem sumBy_nonneg (m : SortedMap κ β) {f : κ → β → Int} (h : ∀ k v, 0 ≤ f k v) :
    0 ≤ m.sumBy f := by
  apply List.sum_nonneg
  intro n hn
  obtain ⟨e, -, rfl⟩ := List.mem_map.1 hn
  exact h _ _

theorem le_sumBy (m : SortedMap κ β) {f : κ → β → Int} (h : ∀ k v, 0 ≤ f k v) {k : κ} {v : β}
    (hk : m.find? k = some v) : f k v ≤ m.sumBy f := by
  have herase := m.sumBy_erase f k
  have hrest := (m.erase k).sumBy_nonneg h
  rw [hk, Option.map_some, Option.getD_some] at herase
  omega

end NetSettle.SortedMap
