import NetSettle.Json.Parser
import NetSettle.Proofs.Json.Token
import Mathlib.Data.List.DropRight

/-!
# Written values read back

The texts of a value have its tokens in their order, with any blanks between them; the compact and
the pretty form are two of them. A value is read back from each of its texts, if the text need not
hold an array of bytes where the value has an array of something else.
-/
namespace NetSettle.Json

variable {fuel level : Nat} {shape : Shape} {s t rest : List Char} {j : Json}

def Blanks (b : List Char) : Prop := ∀ c ∈ b, isSpace c = true

theorem blanks_nil : Blanks [] := nofun

theorem blanks_space : Blanks [' '] := by
  intro c hc
  obtain rfl := List.mem_singleton.1 hc
  rfl

theorem blanks_newLine (level : Nat) : Blanks (newLine level).toList := by
  intro c hc
  simp only [newLine, String.toList_append, String.toList_ofList, List.mem_append] at hc
  rcases hc with hc | hc
  · obtain rfl : c = '\n' := List.mem_singleton.1 hc
    rfl
  · obtain rfl : c = ' ' := List.eq_of_mem_replicate hc
    rfl

variable {b before after : List Char}

theorem skipSpace_blanks (h : Blanks b) (s : List Char) : skipSpace (b ++ s) = skipSpace s :=
  List.dropWhile_append_of_pos h

theorem skipSpace_skipSpace (s : List Char) : skipSpace (skipSpace s) = skipSpace s :=
  List.dropWhile_idempotent ..

theorem skipSpace_cons {c : Char} (h : isSpace c = false) (s : List Char) :
    skipSpace (c :: s) = c :: s :=
  List.dropWhile_cons_of_neg (by simp [h])

theorem skipSpace_blanks_cons (h : Blanks b) {c : Char} (hc : isSpace c = false) (s : List Char) :
    skipSpace (b ++ c :: s) = c :: s :=
  (skipSpace_blanks h _).trans (skipSpace_cons hc s)

theorem value?_skipSpace (fuel : Nat) (shape : Shape) (s : List Char) :
    value? fuel shape (skipSpace s) = value? fuel shape s := by
  cases fuel with
  | zero => rfl
  | succ fuel => rw [value?, value?, skipSpace_skipSpace]

theorem value?_blanks (h : Blanks b) : value? fuel shape (b ++ s) = value? fuel shape s := by
  rw [← value?_skipSpace, skipSpace_blanks h, value?_skipSpace]

theorem EndsNumber.of_skipSpace (h : EndsNumber (skipSpace s)) : EndsNumber s := by
  cases s with
  | nil => exact h
  | cons c s =>
    by_cases hc : isSpace c
    · rintro _ ⟨⟩
      revert hc
      simp only [isSpace, Bool.or_eq_true, beq_iff_eq]
      rintro (((rfl | rfl) | rfl) | rfl) <;> decide
    · rwa [skipSpace_cons (Bool.not_eq_true _ ▸ hc)] at h

mutual

/-- A value of which nothing is lost in its text, and of which no array goes on where the shape has
the end of a byte string. -/
def Fits (shape : Shape) : Json → Prop
  | .otherNumber | .str none => False
  | .arr items => FitsItems shape items
  | .obj members => FitsMembers shape members
  | _ => True

def FitsItems (shape : Shape) : List Json → Prop
  | [] => True
  | j :: rest => shape ≠ .bytes 0 ∧ Fits shape.head j ∧ FitsItems shape.tail rest

def FitsMembers (shape : Shape) : List (Option String × Json) → Prop
  | [] => True
  | (name, j) :: rest => name.isSome ∧ Fits (shape.member name) j ∧ FitsMembers shape rest

end

theorem items?_succ (h : shape ≠ .bytes 0) (fuel : Nat) (s : List Char) :
    items? (fuel + 1) shape s = (do
      let (j, s) ← value? fuel shape.head s
      match skipSpace s with
      | ']' :: rest => some ([j], rest)
      | ',' :: rest => do
        let (items, rest) ← items? fuel shape.tail rest
        some (j :: items, rest)
      | _ => none) := by
  cases shape with
  | bytes n =>
    cases n with
    | zero => exact absurd rfl h
    | succ n => rfl
  | any | list | tuple | record => rfl

theorem items?_skipSpace (h : shape ≠ .bytes 0) (fuel : Nat) (s : List Char) :
    items? fuel shape (skipSpace s) = items? fuel shape s := by
  cases fuel with
  | zero => rfl
  | succ fuel => rw [items?_succ h, items?_succ h, value?_skipSpace]

theorem members?_skipSpace (fuel : Nat) (shape : Shape) (s : List Char) :
    members? fuel shape (skipSpace s) = members? fuel shape s := by
  cases fuel with
  | zero => rfl
  | succ fuel => rw [members?, members?, skipSpace_skipSpace]

theorem items?_bracket (h : shape ≠ .bytes 0) (hs : skipSpace s = ']' :: rest) :
    items? fuel shape s = none := by
  cases fuel with
  | zero => rfl
  | succ fuel =>
    rw [items?_succ h]
    cases fuel with
    | zero => rfl
    | succ fuel =>
      rw [value?, hs]
      rfl

theorem members?_brace (hs : skipSpace s = '}' :: rest) : members? fuel shape s = none := by
  cases fuel with
  | zero => rfl
  | succ fuel =>
    rw [members?, hs]
    rfl

theorem value?_bracket (fuel : Nat) (shape : Shape) (s : List Char) :
    value? (fuel + 1) shape ('[' :: s) = match skipSpace s with
      | ']' :: rest => some (.arr [], rest)
      | rest => (items? fuel shape rest).map fun (items, rest) => (.arr items, rest) := by
  rw [value?, skipSpace_cons (by decide)]
  rfl

theorem value?_brace (fuel : Nat) (shape : Shape) (s : List Char) :
    value? (fuel + 1) shape ('{' :: s) = match skipSpace s with
      | '}' :: rest => some (.obj [], rest)
      | rest => (members? fuel shape rest).map fun (members, rest) => (.obj members, rest) := by
  rw [value?, skipSpace_cons (by decide)]
  rfl

theorem value?_items {items : List Json} (h : shape ≠ .bytes 0)
    (hitems : items? fuel shape s = some (items, rest)) :
    value? (fuel + 1) shape ('[' :: s) = some (.arr items, rest) := by
  rw [value?_bracket]
  split
  · rename_i hs
    rw [items?_bracket h hs] at hitems
    cases hitems
  · rw [items?_skipSpace h, hitems]
    rfl

theorem value?_members {members : List (Option String × Json)}
    (hmembers : members? fuel shape s = some (members, rest)) :
    value? (fuel + 1) shape ('{' :: s) = some (.obj members, rest) := by
  rw [value?_brace]
  split
  · rename_i hs
    rw [members?_brace hs] at hmembers
    cases hmembers
  · rw [members?_skipSpace, hmembers]
    rfl

theorem value?_quote (text : String) (rest : List Char) :
    value? (fuel + 1) shape (quote text ++ rest) = some (.str (some text), rest) := by
  rw [quote, List.cons_append, List.cons_append, List.append_assoc, value?,
    skipSpace_cons (by decide)]
  change (string? (text.toList.flatMap escape ++ '"' :: rest)).map _ = _
  rw [string?_quote]
  rfl

theorem value?_number (n : Nat) (h : EndsNumber rest) :
    value? (fuel + 1) shape (Nat.toDigits 10 n ++ rest) = some (.nat n, rest) := by
  obtain ⟨d, ds, hds, hdigit, -⟩ := toDigits_eq_cons n
  have hnot {c : Char} (hc : c.isDigit = false) : d ≠ c := by
    rintro rfl
    rw [hdigit] at hc
    cases hc
  have hspace : isSpace d = false := by
    simp only [isSpace, Bool.or_eq_false_iff, beq_eq_false_iff_ne]
    exact ⟨⟨⟨hnot (by decide), hnot (by decide)⟩, hnot (by decide)⟩, hnot (by decide)⟩
  have hnumber := number?_toDigits n h
  rw [hds, List.cons_append] at hnumber ⊢
  rw [value?, skipSpace_cons hspace]
  split
  iterate 6
    · rename_i heq
      exact absurd (List.cons.inj heq).1 (hnot (by decide))
  · exact hnumber

theorem items?_last (h : shape ≠ .bytes 0)
    (hvalue : value? fuel shape.head t = some (j, s)) (hs : skipSpace s = ']' :: rest) :
    items? (fuel + 1) shape t = some ([j], rest) := by
  rw [items?_succ h, hvalue, Option.bind_eq_bind, Option.bind_some]
  simp only [hs]

theorem items?_cons {items : List Json} (h : shape ≠ .bytes 0) {t' : List Char}
    (hvalue : value? fuel shape.head t = some (j, s)) (hs : skipSpace s = ',' :: t')
    (hitems : items? fuel shape.tail t' = some (items, rest)) :
    items? (fuel + 1) shape t = some (j :: items, rest) := by
  rw [items?_succ h, hvalue, Option.bind_eq_bind, Option.bind_some]
  simp only [hs, hitems]
  rfl

def memberHead (before : List Char) (name : String) (after : List Char) : List Char :=
  before ++ quote name ++ after ++ [':']

theorem memberHead_length_pos (before : List Char) (name : String) (after : List Char) :
    0 < (memberHead before name after).length := by
  rw [memberHead, List.length_append]
  exact Nat.succ_pos _

theorem memberHead_append (before : List Char) (name : String) (after t : List Char) :
    memberHead before name after ++ t =
      before ++ '"' :: (name.toList.flatMap escape ++ '"' :: (after ++ ':' :: t)) := by
  simp [memberHead, quote]

theorem members?_last {name : String} (hbefore : Blanks before) (hafter : Blanks after)
    (hvalue : value? fuel (shape.member (some name)) t = some (j, s))
    (hs : skipSpace s = '}' :: rest) :
    members? (fuel + 1) shape (memberHead before name after ++ t) =
      some ([(some name, j)], rest) := by
  have hcolon : skipSpace (after ++ ':' :: t) = ':' :: t :=
    skipSpace_blanks_cons hafter (by decide) t
  rw [memberHead_append, members?, skipSpace_blanks_cons hbefore (by decide)]
  change (string? (name.toList.flatMap escape ++ '"' :: (after ++ ':' :: t))).bind _ = _
  rw [string?_quote, Option.bind_some]
  simp only [hcolon, hvalue, hs, Option.bind_eq_bind, Option.bind_some]

theorem members?_cons {name : String} {members : List (Option String × Json)} {t' : List Char}
    (hbefore : Blanks before) (hafter : Blanks after)
    (hvalue : value? fuel (shape.member (some name)) t = some (j, s)) (hs : skipSpace s = ',' :: t')
    (hmembers : members? fuel shape t' = some (members, rest)) :
    members? (fuel + 1) shape (memberHead before name after ++ t) =
      some ((some name, j) :: members, rest) := by
  have hcolon : skipSpace (after ++ ':' :: t) = ':' :: t :=
    skipSpace_blanks_cons hafter (by decide) t
  rw [memberHead_append, members?, skipSpace_blanks_cons hbefore (by decide)]
  change (string? (name.toList.flatMap escape ++ '"' :: (after ++ ':' :: t))).bind _ = _
  rw [string?_quote, Option.bind_some]
  simp only [hcolon, hvalue, hs, hmembers, Option.bind_eq_bind, Option.bind_some]

mutual

/-- A text of a value, with no blanks around it. -/
inductive Writes : Json → List Char → Prop
  | null : Writes .null ['n', 'u', 'l', 'l']
  | bool (b : Bool) : Writes (.bool b) (chars (.bool b))
  | nat (n : Nat) : Writes (.nat n) (Nat.toDigits 10 n)
  | str (text : String) : Writes (.str (some text)) (quote text)
  | noItems {b : List Char} (hb : Blanks b) : Writes (.arr []) ('[' :: (b ++ [']']))
  | arr {items : List Json} {s : List Char} (h : WritesItems items s) :
      Writes (.arr items) ('[' :: (s ++ [']']))
  | noMembers {b : List Char} (hb : Blanks b) : Writes (.obj []) ('{' :: (b ++ ['}']))
  | obj {members : List (Option String × Json)} {s : List Char} (h : WritesMembers members s) :
      Writes (.obj members) ('{' :: (s ++ ['}']))

inductive WritesItems : List Json → List Char → Prop
  | last {j : Json} {before s after : List Char} (hbefore : Blanks before) (h : Writes j s)
      (hafter : Blanks after) : WritesItems [j] (before ++ (s ++ after))
  | cons {j : Json} {items : List Json} {before s after t : List Char} (hbefore : Blanks before)
      (h : Writes j s) (hafter : Blanks after) (hitems : WritesItems items t) :
      WritesItems (j :: items) (before ++ (s ++ (after ++ ',' :: t)))

inductive WritesMembers : List (Option String × Json) → List Char → Prop
  | last {name : String} {j : Json} {before between gap s after : List Char}
      (hbefore : Blanks before) (hbetween : Blanks between) (hgap : Blanks gap) (h : Writes j s)
      (hafter : Blanks after) :
      WritesMembers [(some name, j)] (memberHead before name between ++ (gap ++ (s ++ after)))
  | cons {name : String} {j : Json} {members : List (Option String × Json)}
      {before between gap s after t : List Char} (hbefore : Blanks before)
      (hbetween : Blanks between) (hgap : Blanks gap) (h : Writes j s) (hafter : Blanks after)
      (hmembers : WritesMembers members t) :
      WritesMembers ((some name, j) :: members)
        (memberHead before name between ++ (gap ++ (s ++ (after ++ ',' :: t))))

end

theorem endsNumber_blanks {c : Char} (h : c = ',' ∨ c = ']' ∨ c = '}') (hb : Blanks b)
    (s : List Char) : EndsNumber (b ++ c :: s) := by
  have hc : isSpace c = false ∧ EndsNumber (c :: s) := by
    rcases h with rfl | rfl | rfl
    all_goals
      refine ⟨rfl, ?_⟩
      rintro _ ⟨⟩
      decide
  apply EndsNumber.of_skipSpace
  rw [skipSpace_blanks_cons hb hc.1]
  exact hc.2

def ReadsValues (fuel : Nat) : Prop :=
  ∀ {j s}, Writes j s → ∀ shape rest, Fits shape j → EndsNumber rest → s.length < fuel →
    value? fuel shape (s ++ rest) = some (j, rest)

def ReadsItems (fuel : Nat) : Prop :=
  ∀ {items s}, WritesItems items s → ∀ shape rest, FitsItems shape items → s.length + 1 < fuel →
    items? fuel shape (s ++ ']' :: rest) = some (items, rest)

def ReadsMembers (fuel : Nat) : Prop :=
  ∀ {members s}, WritesMembers members s → ∀ shape rest, FitsMembers shape members →
    s.length + 1 < fuel → members? fuel shape (s ++ '}' :: rest) = some (members, rest)

theorem readsValues_succ (hitems : ReadsItems fuel) (hmembers : ReadsMembers fuel) :
    ReadsValues (fuel + 1) := by
  intro j s h shape rest hfits hrest hfuel
  cases h with
  | null => rfl
  | bool b => cases b <;> rfl
  | nat n => exact value?_number n hrest
  | str text => exact value?_quote text rest
  | noItems hb =>
    rw [List.cons_append, List.append_assoc, value?_bracket, List.singleton_append,
      skipSpace_blanks_cons hb (by decide)]
    rfl
  | noMembers hb =>
    rw [List.cons_append, List.append_assoc, value?_brace, List.singleton_append,
      skipSpace_blanks_cons hb (by decide)]
    rfl
  | @arr items s h =>
    simp only [List.length_cons, List.length_append] at hfuel
    rw [List.cons_append, List.append_assoc]
    cases items with
    | nil => cases h
    | cons j items => exact value?_items hfits.1 (hitems h shape rest hfits (by omega))
  | obj h =>
    simp only [List.length_cons, List.length_append] at hfuel
    rw [List.cons_append, List.append_assoc]
    exact value?_members (hmembers h shape rest hfits (by omega))

theorem readsItems_succ (hvalues : ReadsValues fuel) (hitems : ReadsItems fuel) :
    ReadsItems (fuel + 1) := by
  intro items s h shape rest hfits hfuel
  cases h with
  | last hbefore h hafter =>
    simp only [List.length_append] at hfuel
    rw [List.append_assoc, List.append_assoc]
    exact items?_last hfits.1
      ((value?_blanks hbefore).trans (hvalues h shape.head _ hfits.2.1
        (endsNumber_blanks (by decide) hafter rest) (by omega)))
      (skipSpace_blanks_cons hafter (by decide) rest)
  | cons hbefore h hafter hrest =>
    simp only [List.length_append, List.length_cons] at hfuel
    rw [List.append_assoc, List.append_assoc, List.append_assoc, List.cons_append]
    exact items?_cons hfits.1
      ((value?_blanks hbefore).trans (hvalues h shape.head _ hfits.2.1
        (endsNumber_blanks (by decide) hafter _) (by omega)))
      (skipSpace_blanks_cons hafter (by decide) _)
      (hitems hrest shape.tail rest hfits.2.2 (by omega))

theorem readsMembers_succ (hvalues : ReadsValues fuel) (hmembers : ReadsMembers fuel) :
    ReadsMembers (fuel + 1) := by
  intro members s h shape rest hfits hfuel
  cases h with
  | @last name j before between gap s after hbefore hbetween hgap h hafter =>
    have hhead := memberHead_length_pos before name between
    simp only [List.length_append] at hfuel
    rw [List.append_assoc, List.append_assoc, List.append_assoc]
    exact members?_last hbefore hbetween
      ((value?_blanks hgap).trans (hvalues h _ _ hfits.2.1
        (endsNumber_blanks (by decide) hafter rest) (by omega)))
      (skipSpace_blanks_cons hafter (by decide) rest)
  | @cons name j members before between gap s after t hbefore hbetween hgap h hafter hrest =>
    have hhead := memberHead_length_pos before name between
    simp only [List.length_append, List.length_cons] at hfuel
    rw [List.append_assoc, List.append_assoc, List.append_assoc, List.append_assoc,
      List.cons_append]
    exact members?_cons hbefore hbetween
      ((value?_blanks hgap).trans (hvalues h _ _ hfits.2.1
        (endsNumber_blanks (by decide) hafter _) (by omega)))
      (skipSpace_blanks_cons hafter (by decide) _)
      (hmembers hrest shape rest hfits.2.2 (by omega))

theorem reads_writes (fuel : Nat) : ReadsValues fuel ∧ ReadsItems fuel ∧ ReadsMembers fuel := by
  induction fuel with
  | zero =>
    refine ⟨?_, ?_, ?_⟩
    · intro _ _ _ _ _ _ _ hfuel
      exact absurd hfuel (Nat.not_lt_zero _)
    · intro _ _ _ _ _ _ hfuel
      exact absurd hfuel (Nat.not_lt_zero _)
    · intro _ _ _ _ _ _ hfuel
      exact absurd hfuel (Nat.not_lt_zero _)
  | succ fuel ih =>
    obtain ⟨hvalues, hitems, hmembers⟩ := ih
    exact ⟨readsValues_succ hitems hmembers, readsItems_succ hvalues hitems,
      readsMembers_succ hvalues hmembers⟩

def IsTextOf (text : String) (j : Json) : Prop :=
  ∃ before s after, Blanks before ∧ Writes j s ∧ Blanks after ∧ text.toList = before ++ (s ++ after)

/-- A value that fits a shape is read back from each of its texts. -/
theorem parse?_text {text : String} (h : IsTextOf text j) (hfits : Fits shape j) :
    parse? shape text = some j := by
  obtain ⟨before, s, after, hbefore, hs, hafter, htext⟩ := h
  have hend : EndsNumber after := by
    apply EndsNumber.of_skipSpace
    rw [← List.append_nil after, skipSpace_blanks hafter]
    nofun
  have hvalue : value? (text.toList.length + 1) shape text.toList = some (j, after) := by
    rw [htext]
    refine (value?_blanks hbefore).trans ((reads_writes _).1 hs shape after hfits hend ?_)
    simp only [List.length_append]
    omega
  have hempty : skipSpace after = [] := by
    rw [← List.append_nil after, skipSpace_blanks hafter]
    rfl
  rw [parse?, ofChars?, hvalue]
  simp only [hempty]
  rfl

mutual

theorem writes_chars : ∀ (j : Json) {shape : Shape}, Fits shape j → Writes j (chars j)
  | .null, _, _ => .null
  | .bool b, _, _ => .bool b
  | .nat n, _, _ => .nat n
  | .str (some text), _, _ => .str text
  | .arr [], _, _ => .noItems blanks_nil
  | .arr (j :: items), _, h => .arr (writesItems_itemChars (j :: items) nofun h)
  | .obj [], _, _ => .noMembers blanks_nil
  | .obj (m :: members), _, h => .obj (writesMembers_memberChars (m :: members) nofun h)

theorem writesItems_itemChars : ∀ (items : List Json) {shape : Shape}, items ≠ [] →
    FitsItems shape items → WritesItems items (itemChars items)
  | [], _, hne, _ => absurd rfl hne
  | [j], _, _, h => by
    have hlast := WritesItems.last blanks_nil (writes_chars j h.2.1) blanks_nil
    rwa [List.append_nil] at hlast
  | j :: k :: items, _, _, h =>
    .cons blanks_nil (writes_chars j h.2.1) blanks_nil
      (writesItems_itemChars (k :: items) nofun h.2.2)

theorem writesMembers_memberChars : ∀ (members : List (Option String × Json)) {shape : Shape},
    members ≠ [] → FitsMembers shape members → WritesMembers members (memberChars members)
  | [], _, hne, _ => absurd rfl hne
  | [(some name, j)], _, _, h => by
    have hlast : WritesMembers [(some name, j)] _ :=
      .last blanks_nil blanks_nil blanks_nil (writes_chars j h.2.1) blanks_nil
    simpa [memberHead, memberChars, quoteText] using hlast
  | (some name, j) :: m :: members, _, _, h => by
    have hcons : WritesMembers ((some name, j) :: m :: members) _ :=
      .cons blanks_nil blanks_nil blanks_nil (writes_chars j h.2.1) blanks_nil
        (writesMembers_memberChars (m :: members) nofun h.2.2)
    simpa [memberHead, memberChars, quoteText] using hcons

end

mutual

theorem writes_prettyAt : ∀ (j : Json) {shape : Shape} (level : Nat), Fits shape j →
    Writes j (prettyAt level j).toList
  | .null, _, _, _ => by simpa [prettyAt, compact, chars] using Writes.null
  | .bool b, _, _, _ => by simpa [prettyAt, compact] using Writes.bool b
  | .nat n, _, _, _ => by simpa [prettyAt, compact, chars] using Writes.nat n
  | .str (some text), _, _, _ => by
    simpa [prettyAt, compact, chars, quoteText] using Writes.str text
  | .arr [], _, _, _ => by simpa [prettyAt] using Writes.noItems blanks_nil
  | .arr (j :: items), _, level, h => by
    have hitems := writesItems_pretty (j :: items) (level + 1) level nofun h
    simpa [prettyAt] using Writes.arr hitems
  | .obj [], _, _, _ => by simpa [prettyAt] using Writes.noMembers blanks_nil
  | .obj (m :: members), _, level, h => by
    have hmembers := writesMembers_pretty (m :: members) (level + 1) level nofun h
    simpa [prettyAt] using Writes.obj hmembers

theorem writesItems_pretty : ∀ (items : List Json) {shape : Shape} (level outer : Nat), items ≠ [] →
    FitsItems shape items →
    WritesItems items ((prettyItems level items).toList ++ (newLine outer).toList)
  | [], _, _, _, hne, _ => absurd rfl hne
  | [j], _, level, outer, _, h => by
    have hlast := WritesItems.last (blanks_newLine level) (writes_prettyAt j level h.2.1)
      (blanks_newLine outer)
    simpa [prettyItems] using hlast
  | j :: k :: items, _, level, outer, _, h => by
    have hcons := WritesItems.cons (blanks_newLine level) (writes_prettyAt j level h.2.1)
      blanks_nil (writesItems_pretty (k :: items) level outer nofun h.2.2)
    simpa [prettyItems] using hcons

theorem writesMembers_pretty : ∀ (members : List (Option String × Json)) {shape : Shape}
    (level outer : Nat), members ≠ [] → FitsMembers shape members →
    WritesMembers members ((prettyMembers level members).toList ++ (newLine outer).toList)
  | [], _, _, _, hne, _ => absurd rfl hne
  | [(some name, j)], _, level, outer, _, h => by
    have hlast : WritesMembers [(some name, j)] _ :=
      .last (blanks_newLine level) blanks_nil blanks_space (writes_prettyAt j level h.2.1)
        (blanks_newLine outer)
    simpa [memberHead, prettyMembers, quoteText] using hlast
  | (some name, j) :: m :: members, _, level, outer, _, h => by
    have hcons : WritesMembers ((some name, j) :: m :: members) _ :=
      .cons (blanks_newLine level) blanks_nil blanks_space (writes_prettyAt j level h.2.1)
        blanks_nil (writesMembers_pretty (m :: members) level outer nofun h.2.2)
    simpa [memberHead, prettyMembers, quoteText] using hcons

end

theorem isTextOf_of_writes {text : String} (h : Writes j text.toList) : IsTextOf text j :=
  ⟨[], _, [], blanks_nil, h, blanks_nil, (List.append_nil _).symm⟩

theorem isTextOf_compact (h : Fits shape j) : IsTextOf j.compact j := by
  apply isTextOf_of_writes
  rw [compact, String.toList_ofList]
  exact writes_chars j h

theorem isTextOf_pretty (h : Fits shape j) : IsTextOf j.pretty j :=
  isTextOf_of_writes (writes_prettyAt j 0 h)

theorem parse?_pretty (h : Fits shape j) : parse? shape j.pretty = some j :=
  parse?_text (isTextOf_pretty h) h

end NetSettle.Json
