import NetSettle.Json.Printer
import NetSettle.Json.Token
import Mathlib.Data.List.TakeDrop

/-!
# Strings and numbers read back

A string that is written between quotes is read back whatever characters it has, because no
character stands for half a surrogate pair. The digits of a number are read back if nothing follows
that could belong to a number.
-/
namespace NetSettle.Json

theorem hex4?_digits {n : Nat} (h : n < 256) :
    hex4? '0' '0' (Hex.digit (n / 16)) (Hex.digit (n % 16)) = some n := by
  have hzero : Hex.value? '0' = some 0 := by decide
  rw [hex4?, hzero, Hex.value?_digit (by omega), Hex.value?_digit (Nat.mod_lt _ (by decide))]
  change some (((0 * 16 + 0) * 16 + n / 16) * 16 + n % 16) = some n
  congr 1
  omega

theorem stringUnits_escape (c : Char) (rest : List Char) :
    stringUnits (escape c ++ rest) =
      (stringUnits rest).map fun (units, rest) => (c.toNat :: units, rest) := by
  have hmap (u : Nat) : (do
      let (units, rest) ← stringUnits rest
      some (u :: units, rest)) =
      (stringUnits rest).map fun (units, rest) => (u :: units, rest) := by
    cases stringUnits rest <;> rfl
  have hshort {d e : Char} (h : unescape? e = some d) (hu : e ≠ 'u') :
      stringUnits ('\\' :: e :: rest) =
        (stringUnits rest).map fun (units, rest) => (d.toNat :: units, rest) := by
    rw [stringUnits, h]
    · exact hmap d.toNat
    · rintro a b c d rest' heq
      exact absurd heq hu
  have hcontrol {d e : Char} (h : unescape? e = some d) (hu : e ≠ 'u') (hd : c.toNat = d.toNat) :
      stringUnits ('\\' :: e :: rest) =
        (stringUnits rest).map fun (units, rest) => (c.toNat :: units, rest) :=
    hd ▸ hshort h hu
  unfold escape
  split_ifs with hquote hslash hline hreturn htab hback hfeed hlow
  · exact hcontrol rfl (by decide +revert) (congrArg Char.toNat hquote)
  · exact hcontrol rfl (by decide) (congrArg Char.toNat hslash)
  · exact hcontrol rfl (by decide) (congrArg Char.toNat hline)
  · exact hcontrol rfl (by decide) (congrArg Char.toNat hreturn)
  · exact hcontrol rfl (by decide) (congrArg Char.toNat htab)
  · exact hcontrol rfl (by decide) hback
  · exact hcontrol rfl (by decide) hfeed
  · rw [List.cons_append, List.cons_append, List.cons_append, List.cons_append, List.cons_append,
      List.cons_append, List.nil_append, stringUnits, hex4?_digits (by omega)]
    exact hmap c.toNat
  · rw [List.cons_append, List.nil_append, stringUnits]
    · rw [if_neg (not_or.2 ⟨hlow, hslash⟩)]
      exact hmap c.toNat
    · exact hquote
    · rintro a b d e rest' hc -
      exact hslash hc
    · rintro d rest' hc -
      exact hslash hc

theorem stringUnits_flatMap_escape (cs rest : List Char) :
    stringUnits (cs.flatMap escape ++ '"' :: rest) = some (cs.map Char.toNat, rest) := by
  induction cs with
  | nil => rfl
  | cons c cs ih =>
    rw [List.flatMap_cons, List.append_assoc, stringUnits_escape, ih]
    rfl

theorem not_surrogate (c : Char) : ¬ (0xD800 ≤ c.toNat ∧ c.toNat < 0xE000) := by
  rcases c.valid with h | ⟨h, -⟩
  · exact fun hc => absurd h (by have := hc.1; simp only [Char.toNat] at this; omega)
  · exact fun hc => absurd h (by have := hc.2; simp only [Char.toNat] at this; omega)

theorem textOfUnits?_map_toNat (cs : List Char) :
    textOfUnits? (cs.map Char.toNat) = some cs := by
  induction cs with
  | nil => rfl
  | cons c cs ih =>
    cases cs with
    | nil => exact (if_neg (not_surrogate c)).trans (by rw [Char.ofNat_toNat])
    | cons d cs =>
      refine (if_neg (not_surrogate c)).trans ?_
      rw [← List.map_cons, ih, Char.ofNat_toNat]
      rfl

theorem string?_quote (s : String) (rest : List Char) :
    string? (s.toList.flatMap escape ++ '"' :: rest) = some (some s, rest) := by
  rw [string?, stringUnits_flatMap_escape]
  change some ((textOfUnits? (s.toList.map Char.toNat)).map String.ofList, rest) = _
  rw [textOfUnits?_map_toNat, Option.map_some, String.ofList_toList]

def EndsNumber (s : List Char) : Prop :=
  ∀ c ∈ s.head?, c.isDigit = false ∧ c ≠ '.' ∧ c ≠ 'e' ∧ c ≠ 'E'

theorem isDigit_of_mem_toDigits {n : Nat} {c : Char} (h : c ∈ Nat.toDigits 10 n) :
    c.isDigit = true := by
  induction n using Nat.strongRecOn with
  | ind n ih =>
    rw [Nat.toDigits_eq_if (by decide)] at h
    split at h
    · rename_i hlt
      rw [List.mem_singleton.1 h, Nat.isDigit_digitChar]
      exact decide_eq_true hlt
    · rcases List.mem_append.1 h with h | h
      · exact ih _ (by omega) h
      · rw [List.mem_singleton.1 h, Nat.isDigit_digitChar]
        exact decide_eq_true (Nat.mod_lt _ (by decide))

theorem spanDigits_append {ds rest : List Char} (h : ∀ c ∈ ds, c.isDigit = true)
    (hrest : EndsNumber rest) : spanDigits (ds ++ rest) = (ds, rest) := by
  have hstop : rest.span Char.isDigit = ([], rest) := by
    cases rest with
    | nil => rfl
    | cons c rest => simp [List.span_eq_takeWhile_dropWhile, (hrest c rfl).1]
  induction ds with
  | nil => exact hstop
  | cons d ds ih =>
    have hd := h d (List.mem_cons_self ..)
    simp only [spanDigits, List.span_eq_takeWhile_dropWhile, Prod.mk.injEq, List.cons_append,
      List.takeWhile_cons_of_pos hd, List.dropWhile_cons_of_pos hd, List.cons.injEq, true_and]
      at ih ⊢
    exact ih fun c hc => h c (List.mem_cons_of_mem d hc)

theorem toDigits_eq_cons (n : Nat) :
    ∃ d ds, Nat.toDigits 10 n = d :: ds ∧ d.isDigit = true ∧ (d = '0' → n = 0) := by
  induction n using Nat.strongRecOn with
  | ind n ih =>
    rw [Nat.toDigits_eq_if (by decide)]
    split
    · rename_i hlt
      exact ⟨_, [], rfl, Nat.isDigit_digitChar.trans (decide_eq_true hlt), Nat.digitChar_eq_zero.1⟩
    · obtain ⟨d, ds, hds, hdigit, hzero⟩ := ih (n / 10) (by omega)
      exact ⟨d, _, congrArg (· ++ _) hds, hdigit, fun h => absurd (hzero h) (by omega)⟩

theorem natural?_toDigits (n : Nat) {rest : List Char} (h : EndsNumber rest) :
    natural? (Nat.toDigits 10 n ++ rest) = some (n, rest) := by
  by_cases hn : n = 0
  · subst hn
    rfl
  · obtain ⟨d, ds, hds, -, hzero⟩ := toDigits_eq_cons n
    have hdigits : digits? (Nat.toDigits 10 n ++ rest) = some (Nat.toDigits 10 n, rest) := by
      rw [digits?, spanDigits_append (fun c => isDigit_of_mem_toDigits) h, hds]
    rw [natural?]
    · rw [hdigits, Option.map_some]
      exact congrArg (fun m => some (m, rest)) Nat.ofDigitChars_ten_toDigits
    · intro cs heq
      rw [hds] at heq
      exact hn (hzero (List.cons.inj heq).1)

theorem number?_toDigits (n : Nat) {rest : List Char} (h : EndsNumber rest) :
    number? (Nat.toDigits 10 n ++ rest) = some (.nat n, rest) := by
  have hfraction : fraction? rest = some (false, rest) := by
    rw [fraction?]
    rintro cs rfl
    exact (h '.' rfl).2.1 rfl
  have hexponent : exponent? rest = some (false, rest) := by
    cases rest with
    | nil => rfl
    | cons c rest => exact if_neg (not_or.2 (h c rfl).2.2)
  rw [number?]
  · simp [natural?_toDigits n h, hfraction, hexponent]
  · intro cs heq
    obtain ⟨d, ds, hds, hdigit, -⟩ := toDigits_eq_cons n
    rw [hds] at heq
    rw [(List.cons.inj heq).1] at hdigit
    exact absurd hdigit (by decide)

end NetSettle.Json
