import NetSettle.Proofs.Program.Grammar
import NetSettle.Proofs.Program.Json
import NetSettle.Simulation.ProgramFile

/-!
# Program files read back

A program is read back from each text of its JSON. Its bytes are read back from its hexadecimal
text, with or without the mark in front and with blanks anywhere, and the program from its bytes.
-/
namespace NetSettle

variable {s t : List Char}

inductive Spaced : List Char → List Char → Prop
  | nil : Spaced [] []
  | char (c : Char) {s t : List Char} (h : Spaced s t) : Spaced (c :: s) (c :: t)
  | blank {c : Char} {s t : List Char} (hc : isBlank c = true) (h : Spaced s t) : Spaced s (c :: t)

theorem Spaced.refl (s : List Char) : Spaced s s := by
  induction s with
  | nil => exact .nil
  | cons c _ ih => exact .char c ih

theorem Spaced.filter_eq (h : Spaced s t) (hs : ∀ c ∈ s, isBlank c = false) :
    t.filter (fun c => !isBlank c) = s := by
  induction h with
  | nil => rfl
  | char c _ ih =>
    obtain ⟨hc, hs⟩ := List.forall_mem_cons.1 hs
    rw [List.filter_cons_of_pos (by simp [hc]), ih hs]
  | blank hc _ ih => rw [List.filter_cons_of_neg (by simp [hc]), ih hs]

theorem spaced_filter (t : List Char) : Spaced (t.filter fun c => !isBlank c) t := by
  induction t with
  | nil => exact .nil
  | cons c t ih =>
    cases hc : isBlank c with
    | false =>
      rw [List.filter_cons_of_pos (by simp [hc])]
      exact .char c ih
    | true =>
      rw [List.filter_cons_of_neg (by simp [hc])]
      exact .blank hc ih

theorem Hex.isBlank_digit {n : Nat} (h : n < 16) : isBlank (digit n) = false := by
  have : ∀ n < 16, isBlank (digit n) = false := by decide
  exact this n h

theorem Hex.isBlank_of_mem_pairs {bytes : List UInt8} : ∀ c ∈ pairs bytes, isBlank c = false := by
  induction bytes with
  | nil => nofun
  | cons b bytes ih =>
    have hb := b.toNat_lt
    rw [pairs, List.forall_mem_cons, List.forall_mem_cons]
    exact ⟨isBlank_digit (by omega), isBlank_digit (by omega), ih⟩

namespace Program

open Json

variable {p : Program} {j : Json} {text : String}

/-- A hexadecimal text of a program: the mark in front may be left out, and blanks may stand
anywhere. -/
inductive HexText (p : Program) (text : String) : Prop
  | marked (h : Spaced p.toHex.toList text.toList)
  | unmarked (h : Spaced (p.toHex.toList.drop 2) text.toList)

theorem readHex_of_hexText (h : p.HexText text) : readHex text = .ok p.encode := by
  have hmarked : p.toHex.toList = '0' :: 'x' :: Hex.pairs p.encode := String.toList_ofList
  have hdigits : ∀ c ∈ Hex.pairs p.encode, isBlank c = false := Hex.isBlank_of_mem_pairs
  cases h with
  | marked h =>
    rw [hmarked] at h
    have hall : ∀ c ∈ '0' :: 'x' :: Hex.pairs p.encode, isBlank c = false :=
      List.forall_mem_cons.2 ⟨rfl, List.forall_mem_cons.2 ⟨rfl, hdigits⟩⟩
    have hread : Hex.ofChars? ('0' :: 'x' :: Hex.pairs p.encode) = some p.encode :=
      Hex.ofChars?_chars p.encode
    rw [readHex, h.filter_eq hall, hread]
  | unmarked h =>
    rw [hmarked, List.drop_succ_cons, List.drop_succ_cons, List.drop_zero] at h
    rw [readHex, h.filter_eq hdigits, Hex.ofChars?_pairs]

theorem readSource_of_authored (h : p.Authored j) (htext : IsTextOf text j) :
    readSource text = .ok p := by
  rw [readSource, read?, parse?_text htext h.fits, Option.bind_some, h.ofJson?]

/-- A program is read back from the JSON that is written for it, in which what is absent is left
out, and from its hexadecimal text. No byte string is as long as 2 ^ 63. -/
theorem texts_read_back (p : Program) (htokens : p.TokensNonzero) :
    readSource p.toJson.pretty = .ok p ∧ readSource p.toJson.compact = .ok p ∧
    (∀ j text, p.Authored j → IsTextOf text j → readSource text = .ok p) ∧
    (∀ op ∈ p.operations,
      op.members.map (·.1) = op.fields.names.filter fun name => name ∉ op.absent) ∧
    (∀ b : Bounds, ∃ members, b.toJson = .record members ∧
      members.map (·.1) = Bounds.shape.names.filter fun name => name ∉ b.absent) ∧
    (∀ text, p.HexText text → readHex text = .ok p.encode) ∧
    (p.encode.length < 2 ^ 63 → decode p.encode = .ok p) := by
  have hjson := p.authored_toJson
  have hfits := hjson.fits
  refine ⟨readSource_of_authored hjson (isTextOf_pretty hfits),
    readSource_of_authored hjson (isTextOf_compact hfits), ?_, ?_, ?_, ?_, ?_⟩
  · intro j text h htext
    exact readSource_of_authored h htext
  · intro op _
    exact op.map_fst_members
  · intro b
    exact ⟨b.members, rfl, b.map_fst_members⟩
  · intro text h
    exact readHex_of_hexText h
  · intro hlength
    exact (decode_eq_ok_iff hlength).2 ⟨htokens, p.spells_encode⟩

def sampleSource : Program :=
  ⟨2, [.receiveAll 1 .unbounded, .removeLiquidity 1 2 none, .deposit 2 Amount.max]⟩

def sampleSourceJson : Json :=
  .record [("ledger_capacity", .nat 2), ("operations", .arr [
    .tagged "receive_all" (.record [("token", .text (Address.toHex 1))]),
    .tagged "remove_liquidity" (.record
      [("token0", .text (Address.toHex 1)), ("token1", .text (Address.toHex 2))]),
    .tagged "deposit" (.record
      [("token", .text (Address.toHex 2)), ("amount", .nat (2 ^ 128 - 1))])])]

def sampleSourceHex : String :=
  String.ofList ((Hex.pairs sampleSource.encode).flatMap fun c => [' ', c, '\n'])

theorem texts_read_back_sample :
    sampleSource.TokensNonzero ∧ sampleSource.Authored sampleSourceJson ∧
    sampleSource.HexText sampleSourceHex ∧
    readSource sampleSourceJson.compact = .ok sampleSource ∧
    readHex sampleSourceHex = .ok sampleSource.encode ∧
    decode sampleSource.encode = .ok sampleSource := by
  have htokens : sampleSource.TokensNonzero := by decide
  have hauthored : sampleSource.Authored sampleSourceJson :=
    ⟨_, .cons (.brief (List.mem_cons_of_mem _ (List.mem_cons_self ..)))
      (.cons .whole (.cons .whole .nil)), rfl⟩
  have hhex : sampleSource.HexText sampleSourceHex := by
    have hfilter : sampleSource.toHex.toList.drop 2 =
        sampleSourceHex.toList.filter fun c => !isBlank c := by
      rw [toHex, Hex.encode, sampleSourceHex, String.toList_ofList, String.toList_ofList]
      decide +kernel
    exact .unmarked (hfilter ▸ spaced_filter _)
  obtain ⟨-, -, hsource, -, -, htext, hdecode⟩ := texts_read_back sampleSource htokens
  exact ⟨htokens, hauthored, hhex, hsource _ _ hauthored (isTextOf_compact hauthored.fits),
    htext _ hhex, hdecode (by decide +kernel)⟩

end Program

end NetSettle
