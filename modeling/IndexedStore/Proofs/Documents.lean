import IndexedStore.Json.Reader

set_option autoImplicit false

/-! # Printed documents are read

A printed document is read as itself (`Json.Plain.read?_print`), if its strings and names are spelled
as `escape` does and its numbers are natural numbers. Others need not be: a number that is spelled
`1x` is printed as it is and not read.

An escaped text is unescaped byte by byte (`unescape?_escape`), since a byte outside ASCII stands for
itself; and its spelling holds no quote that could end the string (`body?_escape`). Where a number
ends is not marked, so a document is read if what follows does not go on with one
(`Json.Unnumbered`): after a document comes a comma, a closing bracket or nothing. -/

namespace IndexedStore

/-! ## Numbers -/

namespace Decimal

theorem isDigit_of_mem_digits {n : Nat} {b : UInt8} (h : b ∈ digits n) : isDigit b = true := by
  induction n using Nat.strongRecOn with
  | ind n ih =>
    rw [digits] at h
    split at h
    · next hn =>
      rw [List.mem_singleton] at h
      exact h ▸ isDigit_digit hn
    · next hn =>
      rcases List.mem_append.mp h with hmem | hmem
      · exact ih (n / 10) (by omega) hmem
      · rw [List.mem_singleton] at hmem
        exact hmem ▸ isDigit_digit (Nat.mod_lt n (by decide))

theorem ne_of_digit {b c : UInt8} (hb : isDigit b = true) (hc : isDigit c = false) : b ≠ c := by
  rintro rfl
  rw [hb] at hc
  cases hc

theorem digits_ne_nil (n : Nat) : digits n ≠ [] := by
  rw [digits]
  split <;> simp

end Decimal

namespace Json

/-- What follows does not go on with a number. -/
def Unnumbered (rest : Bytes) : Prop :=
  ∀ b ∈ rest.head?, Decimal.isDigit b = false ∧ b ≠ 46 ∧ b ≠ 101 ∧ b ≠ 69

theorem unnumbered_nil : Unnumbered [] := by
  simp [Unnumbered]

theorem unnumbered_cons {b : UInt8} (rest : Bytes)
    (h : Decimal.isDigit b = false ∧ b ≠ 46 ∧ b ≠ 101 ∧ b ≠ 69) : Unnumbered (b :: rest) := by
  simpa [Unnumbered] using h

variable {rest : Bytes}

theorem Unnumbered.fraction?_eq (h : Unnumbered rest) : fraction? rest = some ([], rest) := by
  unfold fraction?
  split
  · exact absurd rfl (h 46 rfl).2.1
  · rfl

theorem Unnumbered.exponent?_eq (h : Unnumbered rest) : exponent? rest = some ([], rest) := by
  unfold exponent?
  split
  · exact absurd rfl (h 101 rfl).2.2.1
  · exact absurd rfl (h 69 rfl).2.2.2
  · rfl

theorem Unnumbered.span (h : Unnumbered rest) {front : Bytes}
    (hfront : ∀ b ∈ front, Decimal.isDigit b = true) :
    (front ++ rest).takeWhile Decimal.isDigit = front ∧
      (front ++ rest).dropWhile Decimal.isDigit = rest := by
  rw [List.takeWhile_append_of_pos hfront, List.dropWhile_append_of_pos hfront]
  cases rest with
  | nil => simp
  | cons b more => simp [(h b rfl).1]

theorem Unnumbered.wholePart?_digits (h : Unnumbered rest) (n : Nat) :
    wholePart? (Decimal.digits n ++ rest) = some (Decimal.digits n, rest) := by
  rcases Nat.eq_zero_or_pos n with rfl | hpos
  · simp [Decimal.digits, wholePart?]
  · obtain ⟨b, more, hb, hne⟩ := Decimal.head_digits hpos
    obtain ⟨htake, hdrop⟩ := h.span (fun _ => Decimal.isDigit_of_mem_digits (n := n))
    rw [hb, List.cons_append] at htake hdrop ⊢
    unfold wholePart?
    split
    · next heq => exact absurd (List.cons.inj heq).1 hne
    · rw [someDigits?, htake, hdrop]

/-- **The digits of a number** are read up to their end. -/
theorem Unnumbered.number?_digits (h : Unnumbered rest) (n : Nat) :
    number? (Decimal.digits n ++ rest) = some (Decimal.digits n, rest) := by
  have hunsigned : unsigned? (Decimal.digits n ++ rest) = some (Decimal.digits n, rest) := by
    simp [unsigned?, h.wholePart?_digits, h.fraction?_eq, h.exponent?_eq]
  unfold number?
  split
  · next more heq =>
    have hminus : Decimal.isDigit 45 = true := by
      refine Decimal.isDigit_of_mem_digits (n := n) ?_
      cases hdigits : Decimal.digits n with
      | nil => exact absurd hdigits (Decimal.digits_ne_nil n)
      | cons b others =>
        rw [hdigits, List.cons_append, List.cons.injEq] at heq
        simp [heq.1]
    exact absurd hminus (by decide)
  · exact hunsigned

/-! ## Strings -/

/-- The three ways a byte is spelled in a string. -/
inductive Spells : UInt8 → Bytes → Prop
  /-- A backslash and a letter that stands for the byte. -/
  | short {b e : UInt8} : e ≠ 117 → shortEscape? e = some b → Spells b [92, e]
  /-- The code of a control character, in four digits. -/
  | control {b : UInt8} : b.toNat < 32 →
      Spells b [92, 117, 48, 48, hexDigit (b.toNat / 16), hexDigit (b.toNat % 16)]
  /-- The byte itself. -/
  | plain {b : UInt8} : ¬ b < 32 → b ≠ 34 → b ≠ 92 → Spells b [b]

theorem spells_escapeByte (b : UInt8) : Spells b (escapeByte b) := by
  have hshort : ∀ e, e ≠ 117 → ∀ c, shortEscape? e = some c → b = c → Spells b [92, e] := by
    rintro e hletter c hescape rfl
    exact .short hletter hescape
  unfold escapeByte
  split
  · next h => exact hshort 34 (by decide) 34 rfl h
  split
  · next h => exact hshort 92 (by decide) 92 rfl h
  split
  · next h => exact hshort 98 (by decide) 8 rfl h
  split
  · next h => exact hshort 116 (by decide) 9 rfl h
  split
  · next h => exact hshort 110 (by decide) 10 rfl h
  split
  · next h => exact hshort 102 (by decide) 12 rfl h
  split
  · next h => exact hshort 114 (by decide) 13 rfl h
  split
  · next h => exact .control (UInt8.lt_iff_toNat_lt.mp h)
  · exact .plain ‹_› ‹_› ‹_›

/-- The four digits of a control character are its code. -/
theorem hexUnit?_control :
    ∀ n < 32, hexUnit? 48 48 (hexDigit (n / 16)) (hexDigit (n % 16)) = some n := by
  decide

theorem reversedUtf8_control : ∀ n < 32, reversedUtf8 n = [UInt8.ofNat n] := by
  decide

theorem unescapeFrom_of_spells {b : UInt8} {spelling : Bytes} (h : Spells b spelling)
    (read rest : Bytes) :
    unescapeFrom read (spelling ++ rest) = unescapeFrom (b :: read) rest := by
  cases h with
  | short hletter hescape =>
    simp only [List.cons_append, List.nil_append]
    rw [unescapeFrom, hescape]
    simp [hletter]
  | control hb =>
    simp only [List.cons_append, List.nil_append]
    rw [unescapeFrom, hexUnit?_control _ hb]
    simp only
    rw [if_neg (by omega), if_neg (by omega), reversedUtf8_control _ hb, UInt8.ofNat_toNat]
    rfl
  | plain hlt hquote hback =>
    simp only [List.cons_append, List.nil_append]
    rw [unescapeFrom, if_neg hback] <;> simp [hback]

theorem bodyLength_of_spells {b : UInt8} {spelling : Bytes} (h : Spells b spelling)
    (n : Nat) (rest : Bytes) :
    bodyLength n (spelling ++ rest) = bodyLength (n + spelling.length) rest := by
  cases h with
  | short hletter hescape =>
    simp only [List.cons_append, List.nil_append]
    rw [bodyLength, hescape]
    · rfl
    · simp [hletter]
  | control hb =>
    simp only [List.cons_append, List.nil_append]
    rw [bodyLength, hexUnit?_control _ hb]
    rfl
  | plain hlt hquote hback =>
    simp only [List.cons_append, List.nil_append]
    rw [bodyLength, if_neg (by simp [hlt, hback])] <;> simp [hback, hquote]

/-- **An escaped text** is unescaped. -/
theorem unescape?_escape (bytes : Bytes) : unescape? (escape bytes) = some bytes := by
  have hfrom : ∀ read, unescapeFrom read (escape bytes) = some (read.reverse ++ bytes) := by
    induction bytes with
    | nil => simp [escape, unescapeFrom]
    | cons b bytes ih =>
      intro read
      rw [escape, List.flatMap_cons, unescapeFrom_of_spells (spells_escapeByte b), ← escape, ih]
      simp
  exact hfrom []

theorem bodyText?_escape (text : String) : bodyText? (escape (Utf8.encode text)) = some text := by
  rw [bodyText?, unescape?_escape, Option.bind_some, Utf8.decode?_encode]

theorem bodyLength_escape (n : Nat) (bytes rest : Bytes) :
    bodyLength n (escape bytes ++ 34 :: rest) = some (n + (escape bytes).length) := by
  induction bytes generalizing n with
  | nil => simp [escape, bodyLength]
  | cons b bytes ih =>
    rw [escape, List.flatMap_cons, List.append_assoc, bodyLength_of_spells (spells_escapeByte b),
      ← escape, ih, List.length_append, Nat.add_assoc]

/-- **The spelling of an escaped text** ends at the quote after it. -/
theorem body?_escape (bytes rest : Bytes) :
    body? (escape bytes ++ 34 :: rest) = some (escape bytes, rest) := by
  rw [body?, bodyLength_escape, Nat.zero_add, Option.map_some, List.take_left, ← List.drop_drop,
    List.drop_left]
  rfl

/-! ## Documents -/

/-- The documents that are written: strings and names are escaped texts, and numbers are natural
numbers. -/
inductive Plain : Json → Prop
  | null : Plain .null
  | bool (b : Bool) : Plain (.bool b)
  | number (n : Nat) : Plain (ofNat n)
  | string (bytes : Bytes) : Plain (.string (escape bytes))
  | array {items : List Json} (h : ∀ item ∈ items, Plain item) : Plain (.array items)
  | object {members : List (Bytes × Json)} (hnames : ∀ member ∈ members, ∃ bytes, member.1 = escape bytes)
      (h : ∀ member ∈ members, Plain member.2) : Plain (.object members)

/-- The document is read, whatever follows it. As many levels of nesting as it has bytes are enough,
and it is not taken for blanks or for the end of a list. -/
structure Readable (d : Json) : Prop where
  begins : ∃ b more, d.print = b :: more ∧ isBlank b = false ∧ b ≠ 93
  reads : ∀ (fuel : Nat) (rest : Bytes), d.print.length ≤ fuel → Unnumbered rest →
    document fuel (d.print ++ rest) = some (d, rest)

theorem skipBlanks_cons {b : UInt8} (h : isBlank b = false) (more : Bytes) :
    skipBlanks (b :: more) = b :: more := by
  simp [skipBlanks, h]

theorem isBlank_of_digit {b : UInt8} (h : Decimal.isDigit b = true) : isBlank b = false := by
  have hne : ∀ c, Decimal.isDigit c = false → b ≠ c := fun c => Decimal.ne_of_digit h
  simp [isBlank, hne 32 rfl, hne 9 rfl, hne 10 rfl, hne 13 rfl]

theorem readable_null : Readable .null where
  begins := ⟨110, _, rfl, by decide, by decide⟩
  reads fuel rest hfuel _ := by
    cases fuel with
    | zero => simp [print] at hfuel
    | succ fuel =>
      simp [print, document, skipBlanks_cons (b := 110) (by decide), afterWord?]

theorem readable_bool (b : Bool) : Readable (.bool b) where
  begins := by cases b <;> exact ⟨_, _, rfl, by decide, by decide⟩
  reads fuel rest hfuel _ := by
    cases fuel with
    | zero => cases b <;> simp [print] at hfuel
    | succ fuel =>
      cases b
      · simp [print, document, skipBlanks_cons (b := 102) (by decide), afterWord?]
      · simp [print, document, skipBlanks_cons (b := 116) (by decide), afterWord?]

/-- The bytes that begin a document which is not a number. -/
def openingBytes : Bytes := [34, 91, 123, 110, 116, 102]

theorem not_mem_openingBytes_of_digit {b : UInt8} (h : Decimal.isDigit b = true) :
    b ∉ openingBytes := by
  have hnone : openingBytes.any Decimal.isDigit = false := rfl
  rw [List.any_eq_false] at hnone
  exact fun hmem => hnone b hmem h

/-- A digit is not a blank, and begins nothing but a number. -/
theorem document_of_digit {b : UInt8} (h : Decimal.isDigit b = true) (fuel : Nat) (more : Bytes) :
    document (fuel + 1) (b :: more)
      = (number? (b :: more)).map fun found => (.number found.1, found.2) := by
  have hnot := not_mem_openingBytes_of_digit h
  simp only [openingBytes, List.mem_cons, List.not_mem_nil, or_false, not_or] at hnot
  simp [document, skipBlanks_cons (isBlank_of_digit h), hnot]

theorem readable_number (n : Nat) : Readable (ofNat n) := by
  obtain ⟨b, more, hb⟩ := List.exists_cons_of_ne_nil (Decimal.digits_ne_nil n)
  have hdigit : Decimal.isDigit b = true := Decimal.isDigit_of_mem_digits (n := n) (by simp [hb])
  have hprint : (ofNat n).print = b :: more := hb
  refine ⟨⟨b, more, hprint, isBlank_of_digit hdigit, Decimal.ne_of_digit hdigit rfl⟩,
    fun fuel rest hfuel hrest => ?_⟩
  cases fuel with
  | zero => simp [hprint] at hfuel
  | succ fuel =>
    rw [hprint, List.cons_append, document_of_digit hdigit, ← List.cons_append, ← hb,
      hrest.number?_digits]
    rfl

theorem readable_string (bytes : Bytes) : Readable (.string (escape bytes)) where
  begins := ⟨34, _, rfl, by decide, by decide⟩
  reads fuel rest hfuel _ := by
    cases fuel with
    | zero => simp [print] at hfuel
    | succ fuel =>
      simp [print, document, skipBlanks_cons (b := 34) (by decide), body?_escape]

/-! ### Lists -/

theorem printItems_cons_cons (item next : Json) (more : List Json) :
    printItems (item :: next :: more) = item.print ++ 44 :: printItems (next :: more) := by
  rw [printItems]
  simp

theorem items_printItems {item : Json} {more : List Json} (h : ∀ d ∈ item :: more, Readable d)
    {fuel : Nat} (hfuel : (printItems (item :: more)).length < fuel) (read : List Json)
    (rest : Bytes) : items fuel read (printItems (item :: more) ++ 93 :: rest)
      = some (.array (read.reverse ++ item :: more), rest) := by
  induction more generalizing item read fuel with
  | nil =>
    cases fuel with
    | zero => omega
    | succ fuel =>
      rw [printItems] at hfuel ⊢
      have hitem := (h item (by simp)).reads fuel (93 :: rest) (by omega)
        (unnumbered_cons rest (by decide))
      simp [items, hitem, skipBlanks_cons (b := 93) (by decide)]
  | cons next more ih =>
    cases fuel with
    | zero => omega
    | succ fuel =>
      rw [printItems_cons_cons, List.length_append, List.length_cons] at hfuel
      have hitem := (h item (by simp)).reads fuel (44 :: (printItems (next :: more) ++ 93 :: rest))
        (by omega) (unnumbered_cons _ (by decide))
      rw [printItems_cons_cons, List.append_assoc, List.cons_append, items, hitem]
      simp only [skipBlanks_cons (b := 44) (by decide)]
      rw [ih (fun d hd => h d (List.mem_cons_of_mem item hd)) (by omega), List.reverse_cons,
        List.append_assoc, List.singleton_append]

theorem begins_printItems {item : Json} (h : Readable item) (more : List Json) :
    ∃ b others, printItems (item :: more) = b :: others ∧ isBlank b = false ∧ b ≠ 93 := by
  obtain ⟨b, others, hb, hblank, hend⟩ := h.begins
  cases more with
  | nil => exact ⟨b, others, by rw [printItems, hb], hblank, hend⟩
  | cons next more =>
    exact ⟨b, _, by rw [printItems_cons_cons, hb, List.cons_append], hblank, hend⟩

theorem readable_array {list : List Json} (h : ∀ item ∈ list, Readable item) :
    Readable (.array list) where
  begins := ⟨91, _, by rw [print], by decide, by decide⟩
  reads fuel rest hfuel _ := by
    cases fuel with
    | zero => simp [print] at hfuel
    | succ fuel =>
      rw [print, List.cons_append, document, skipBlanks_cons (by decide)]
      cases list with
      | nil => simp [printItems, skipBlanks_cons (b := 93) (by decide)]
      | cons item more =>
        have hlength : (printItems (item :: more)).length < fuel := by
          simp only [print, List.length_cons, List.length_append, List.length_nil] at hfuel
          omega
        have hread := items_printItems h hlength [] rest
        obtain ⟨b, others, hb, hblank, hend⟩ := begins_printItems (h item (by simp)) more
        rw [hb, List.cons_append] at hread
        simp only [hb, List.append_assoc, List.cons_append, List.nil_append,
          skipBlanks_cons hblank]
        split
        · next heq => exact absurd (List.cons.inj heq).1 hend
        · exact hread

/-! ### Objects -/

theorem printMembers_cons_cons (name : Bytes) (value : Json) (next : Bytes × Json)
    (more : List (Bytes × Json)) : printMembers ((name, value) :: next :: more)
      = 34 :: (name ++ 34 :: 58 :: (value.print ++ 44 :: printMembers (next :: more))) := by
  rw [printMembers]
  simp

/-- The name is an escaped text, and the document is read. -/
structure ReadableMember (member : Bytes × Json) : Prop where
  name : ∃ bytes, member.1 = escape bytes
  value : Readable member.2

theorem members_printMembers {member : Bytes × Json} {more : List (Bytes × Json)}
    (h : ∀ m ∈ member :: more, ReadableMember m) {fuel : Nat}
    (hfuel : (printMembers (member :: more)).length < fuel) (read : List (Bytes × Json))
    (rest : Bytes) : members fuel read (printMembers (member :: more) ++ 125 :: rest)
      = some (.object (read.reverse ++ member :: more), rest) := by
  induction more generalizing member read fuel with
  | nil =>
    cases fuel with
    | zero => omega
    | succ fuel =>
      obtain ⟨name, value⟩ := member
      obtain ⟨⟨bytes, rfl⟩, hvalue⟩ := h _ (List.mem_singleton_self _)
      rw [printMembers] at hfuel ⊢
      simp only [List.length_cons, List.length_append] at hfuel
      have hread := hvalue.reads fuel (125 :: rest) (by simp only; omega)
        (unnumbered_cons rest (by decide))
      simp [members, skipBlanks_cons (b := 34) (by decide), body?_escape,
        skipBlanks_cons (b := 58) (by decide), hread, skipBlanks_cons (b := 125) (by decide)]
  | cons next more ih =>
    cases fuel with
    | zero => omega
    | succ fuel =>
      obtain ⟨name, value⟩ := member
      obtain ⟨⟨bytes, rfl⟩, hvalue⟩ := h _ List.mem_cons_self
      rw [printMembers_cons_cons] at hfuel ⊢
      simp only [List.length_cons, List.length_append] at hfuel
      have hread := hvalue.reads fuel (44 :: (printMembers (next :: more) ++ 125 :: rest))
        (by simp only; omega) (unnumbered_cons _ (by decide))
      have hlength : (printMembers (next :: more)).length < fuel := by omega
      have hmore := ih (fun m hm => h m (List.mem_cons_of_mem _ hm)) hlength
        ((escape bytes, value) :: read)
      simp [members, skipBlanks_cons (b := 34) (by decide), body?_escape,
        skipBlanks_cons (b := 58) (by decide), hread, skipBlanks_cons (b := 44) (by decide), hmore]

theorem readable_object {list : List (Bytes × Json)} (h : ∀ m ∈ list, ReadableMember m) :
    Readable (.object list) where
  begins := ⟨123, _, by rw [print], by decide, by decide⟩
  reads fuel rest hfuel _ := by
    cases fuel with
    | zero => simp [print] at hfuel
    | succ fuel =>
      rw [print, List.cons_append, document, skipBlanks_cons (by decide)]
      cases list with
      | nil => simp [printMembers, skipBlanks_cons (b := 125) (by decide)]
      | cons member more =>
        have hlength : (printMembers (member :: more)).length < fuel := by
          simp only [print, List.length_cons, List.length_append, List.length_nil] at hfuel
          omega
        have hread := members_printMembers h hlength [] rest
        obtain ⟨others, hb⟩ : ∃ others, printMembers (member :: more) = 34 :: others := by
          cases more <;> simp [printMembers]
        rw [hb, List.cons_append] at hread
        simp only [hb, List.append_assoc, List.cons_append, List.nil_append,
          skipBlanks_cons (b := 34) (by decide)]
        exact hread

/-! ### All of them -/

theorem Plain.readable {d : Json} (h : Plain d) : Readable d := by
  induction h with
  | null => exact readable_null
  | bool b => exact readable_bool b
  | number n => exact readable_number n
  | string bytes => exact readable_string bytes
  | array _ ih => exact readable_array ih
  | object hnames _ ih => exact readable_object fun m hm => ⟨hnames m hm, ih m hm⟩

/-- **A printed document** is read as what it is. -/
theorem Plain.read?_print {d : Json} (h : Plain d) : read? d.print = some d := by
  have hread := h.readable.reads (2 * d.print.length + 1) [] (by omega) unnumbered_nil
  rw [List.append_nil] at hread
  rw [read?, hread]
  rfl

end Json

end IndexedStore
