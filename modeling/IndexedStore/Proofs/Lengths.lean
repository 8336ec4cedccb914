import IndexedStore.Proofs.Canonical

set_option autoImplicit false

/-! # The forms of a length

A length that fits in 32 bits is written in one to five groups, and no form is the beginning of
another (`Varint.one_form_each`). The one-form reader takes these forms and nothing else. What it
refuses is one of four things (`Varint.Refused`): groups without an end, more than five groups, an
empty last group after others, or a number that does not fit. The two together are all byte strings,
which is seen by cutting a byte string behind its first byte without the top bit
(`Varint.exists_groups`).

`Varint.encode` divides a number until there is nothing left of it. A machine shifts a word of 32
bits in a loop whose end no counter guards. `Checked.write` is that loop, given up after so many
rounds: it finishes exactly if it may take as many rounds as the form has bytes
(`Checked.write_eq`), so five rounds are enough for any word. -/

namespace IndexedStore

namespace Varint

/-! ## How long a form is -/

theorem length_encode_pos (n : Nat) : 1 ≤ (encode n).length := by
  unfold encode
  split
  · exact Nat.le_refl 1
  · exact Nat.le_add_left 1 _

/-- A length is read to its end, and the reader takes no more than five groups. -/
theorem length_encode_le {n : Nat} (h : n < lengthBound) :
    (encode n).length ≤ maxLengthGroups := by
  obtain ⟨-, -, -, hwidth, -⟩ := eq_encode_of_decodeLength? (decodeLength?_encode [] h)
  exact hwidth

theorem eq_of_prefix_encode {m n : Nat} (h : encode m <+: encode n) : m = n := by
  obtain ⟨rest, hrest⟩ := h
  rw [← List.append_nil (encode n)] at hrest
  exact (encode_append_inj hrest).1

/-! ## Cutting bytes into groups -/

/-- All of the bytes say that more follow. -/
def Continuing (groups : Bytes) : Prop :=
  ∀ b ∈ groups, ¬ b < 128

/-- The number that the groups make up, the lowest group first. -/
def joined : Bytes → Nat
  | [] => 0
  | b :: rest => b.toNat % 128 + 128 * joined rest

/-- Bytes continue to their end, or up to a first byte that does not. -/
theorem exists_groups (bytes : Bytes) :
    Continuing bytes ∨
      ∃ groups last rest, bytes = groups ++ last :: rest ∧ Continuing groups ∧ last < 128 := by
  induction bytes with
  | nil => exact .inl (by simp [Continuing])
  | cons b rest ih =>
    by_cases hb : b < 128
    · exact .inr ⟨[], b, rest, rfl, by simp [Continuing], hb⟩
    · rcases ih with hrest | ⟨groups, last, tail, rfl, hgroups, hlast⟩
      · exact .inl (List.forall_mem_cons.mpr ⟨hb, hrest⟩)
      · exact .inr ⟨b :: groups, last, tail, rfl, List.forall_mem_cons.mpr ⟨hb, hgroups⟩, hlast⟩

/-- A group that another one follows goes below what is read from there on. -/
theorem lengthFrom_cons {b : UInt8} (hb : ¬ b < 128) {i : Nat} (hi : i < maxLengthGroups)
    (low : Nat) (rest : Bytes) :
    lengthFrom i low (b :: rest) = lengthFrom (i + 1) (low + (b.toNat % 128) <<< (7 * i)) rest := by
  rw [lengthFrom, if_neg (Nat.not_le.mpr hi)]
  exact if_neg hb

theorem lengthFrom_of_le {i : Nat} (hi : maxLengthGroups ≤ i) (low : Nat) (bytes : Bytes) :
    lengthFrom i low bytes = none := by
  cases bytes with
  | nil => rfl
  | cons b rest => rw [lengthFrom, if_pos hi]

/-! ## What the reader refuses -/

theorem lengthFrom_incomplete {groups : Bytes} (h : Continuing groups) (i low : Nat) :
    lengthFrom i low groups = none := by
  induction groups generalizing i low with
  | nil => rfl
  | cons b rest ih =>
    obtain ⟨hb, hrest⟩ := List.forall_mem_cons.mp h
    rcases Nat.lt_or_ge i maxLengthGroups with hi | hi
    · rw [lengthFrom_cons hb hi]
      exact ih hrest _ _
    · exact lengthFrom_of_le hi low _

theorem lengthFrom_overlong {groups : Bytes} (h : Continuing groups) {i : Nat}
    (hlong : maxLengthGroups ≤ i + groups.length) (low : Nat) (rest : Bytes) :
    lengthFrom i low (groups ++ rest) = none := by
  induction groups generalizing i low with
  | nil => exact lengthFrom_of_le hlong low _
  | cons b groups ih =>
    obtain ⟨hb, hgroups⟩ := List.forall_mem_cons.mp h
    rcases Nat.lt_or_ge i maxLengthGroups with hi | hi
    · rw [List.cons_append, lengthFrom_cons hb hi]
      exact ih hgroups (by rw [List.length_cons] at hlong; omega) _
    · exact lengthFrom_of_le hi low _

/-- What becomes of at most five groups, the last of them not continuing: the number they make up,
unless the last is empty behind others, or the number does not fit. -/
theorem lengthFrom_groups {groups : Bytes} (h : Continuing groups) {last : UInt8}
    (hlast : last < 128) {i : Nat} (hshort : i + groups.length < maxLengthGroups) (low : Nat)
    (rest : Bytes) :
    lengthFrom i low (groups ++ last :: rest) =
      if 0 < i + groups.length ∧ last = 0 then none
      else if lengthBound ≤ low + joined (groups ++ [last]) <<< (7 * i) then none
      else some (low + joined (groups ++ [last]) <<< (7 * i), i + groups.length + 1) := by
  induction groups generalizing i low with
  | nil =>
    have hi : ¬ maxLengthGroups ≤ i := Nat.not_le.mpr hshort
    simp only [List.nil_append, lengthFrom, if_neg hi, if_pos hlast, joined, List.length_nil,
      Nat.add_zero, Nat.mul_zero]
  | cons b groups ih =>
    obtain ⟨hb, hgroups⟩ := List.forall_mem_cons.mp h
    rw [List.length_cons] at hshort
    have hplace : i + 1 + groups.length = i + (b :: groups).length := by
      rw [List.length_cons]
      omega
    -- The first group and those after it are the number, in its place.
    have hsum : low + (b.toNat % 128) <<< (7 * i) + joined (groups ++ [last]) <<< (7 * (i + 1))
        = low + joined (b :: groups ++ [last]) <<< (7 * i) := by
      rw [Nat.add_assoc, ← shift_group_add]
      rfl
    rw [List.cons_append, lengthFrom_cons hb (by omega), ih hgroups (by omega), hplace, hsum]

/-- The byte strings at whose front no length stands. -/
inductive Refused : Bytes → Prop where
  /-- The bytes end within the length. -/
  | incomplete {groups : Bytes} : Continuing groups → Refused groups
  /-- There are groups after the fifth. -/
  | overlong {groups : Bytes} (rest : Bytes) :
    Continuing groups → maxLengthGroups ≤ groups.length → Refused (groups ++ rest)
  /-- The last group is empty and not the only one. -/
  | emptyLast {groups : Bytes} (rest : Bytes) :
    Continuing groups → groups ≠ [] → Refused (groups ++ 0 :: rest)
  /-- The number has more than 32 bits. -/
  | tooLarge {groups : Bytes} {last : UInt8} (rest : Bytes) :
    Continuing groups → last < 128 → lengthBound ≤ joined (groups ++ [last]) →
    Refused (groups ++ last :: rest)

/-- At most five groups, cut off the bytes, are a length or refused. -/
theorem decodeLength?_groups {groups : Bytes} (h : Continuing groups) {last : UInt8}
    (hlast : last < 128) (hshort : groups.length < maxLengthGroups) (rest : Bytes) :
    decodeLength? (groups ++ last :: rest) =
      if groups ≠ [] ∧ last = 0 then none
      else if lengthBound ≤ joined (groups ++ [last]) then none
      else some (joined (groups ++ [last]), groups.length + 1) := by
  have hread := lengthFrom_groups h hlast (i := 0) (by omega) 0 rest
  rw [decodeLength?, hread]
  simp only [Nat.zero_add, Nat.mul_zero, Nat.shiftLeft_zero, List.length_pos_iff]

theorem decodeLength?_of_refused {bytes : Bytes} (h : Refused bytes) :
    decodeLength? bytes = none := by
  cases h with
  | incomplete hgroups => exact lengthFrom_incomplete hgroups 0 0
  | overlong rest hgroups hlong =>
    exact lengthFrom_overlong hgroups (by rw [Nat.zero_add]; exact hlong) 0 rest
  | @emptyLast groups rest hgroups hothers =>
    rcases Nat.lt_or_ge groups.length maxLengthGroups with hshort | hlong
    · rw [decodeLength?_groups hgroups (by decide) hshort, if_pos ⟨hothers, rfl⟩]
    · exact lengthFrom_overlong hgroups (by rw [Nat.zero_add]; exact hlong) 0 _
  | @tooLarge groups last rest hgroups hlast hbig =>
    rcases Nat.lt_or_ge groups.length maxLengthGroups with hshort | hlong
    · rw [decodeLength?_groups hgroups hlast hshort, if_pos hbig, ite_self]
    · exact lengthFrom_overlong hgroups (by rw [Nat.zero_add]; exact hlong) 0 _

/-- **What is refused** is one of four things. -/
theorem decodeLength?_eq_none_iff {bytes : Bytes} :
    decodeLength? bytes = none ↔ Refused bytes := by
  refine ⟨fun hnone => ?_, decodeLength?_of_refused⟩
  rcases exists_groups bytes with hgroups | ⟨groups, last, rest, rfl, hgroups, hlast⟩
  · exact .incomplete hgroups
  · rcases Nat.lt_or_ge groups.length maxLengthGroups with hshort | hlong
    · rw [decodeLength?_groups hgroups hlast hshort] at hnone
      split at hnone
      · next hempty =>
        obtain ⟨hothers, rfl⟩ := hempty
        exact .emptyLast rest hgroups hothers
      · split at hnone
        · next hbig => exact .tooLarge rest hgroups hlast hbig
        · contradiction
    · exact .overlong _ hgroups hlong

end Varint

/-! ## Writing in machine words -/

namespace Checked

/-- Write a length behind a buffer in at most so many rounds. There is no result if the word is not
used up by then. -/
def write : Nat → UInt32 → Bytes → Option Bytes
  | 0, _, _ => none
  | rounds + 1, word, buffer =>
    if word < 128 then some (buffer ++ [word.toUInt8])
    else write rounds (word >>> 7) (buffer ++ [word.toUInt8 ||| 128])

theorem toUInt8_eq (word : UInt32) : word.toUInt8 = UInt8.ofNat word.toNat := by
  refine UInt8.toNat_inj.mp ?_
  rw [UInt32.toNat_toUInt8, UInt8.toNat_ofNat']

/-- The top bit set on the low byte of a word is a group that others follow. -/
theorem toUInt8_or (word : UInt32) :
    word.toUInt8 ||| 128 = UInt8.ofNat (word.toNat % 128 + 128) := by
  have hlow : (word.toNat % 256 ||| 128) % 2 ^ 7 = word.toNat % 128 := by
    rw [Nat.or_mod_two_pow, show 128 % 2 ^ 7 = 0 from rfl, Nat.or_zero]
    omega
  have htop : (word.toNat % 256 ||| 128) / 2 ^ 7 = 1 := by
    have hbit : word.toNat % 256 / 2 ^ 7 = 0 ∨ word.toNat % 256 / 2 ^ 7 = 1 := by omega
    rw [Nat.or_div_two_pow]
    rcases hbit with hbit | hbit <;> rw [hbit] <;> rfl
  refine UInt8.toNat_inj.mp ?_
  rw [UInt8.toNat_or, UInt32.toNat_toUInt8, Varint.toNat_group]
  change word.toNat % 256 ||| 128 = word.toNat % 128 + 128
  omega

theorem toNat_shift (word : UInt32) : (word >>> 7).toNat = word.toNat / 128 := by
  rw [UInt32.toNat_shiftRight, Nat.shiftRight_eq_div_pow]
  rfl

/-- **A word is used up** in as many rounds as its form has bytes, and then the form is written. -/
theorem write_eq (rounds : Nat) (word : UInt32) (buffer : Bytes) :
    write rounds word buffer =
      if (Varint.encode word.toNat).length ≤ rounds then some (buffer ++ Varint.encode word.toNat)
      else none := by
  induction rounds generalizing word buffer with
  | zero =>
    have hpos := Varint.length_encode_pos word.toNat
    rw [write, if_neg (by omega)]
  | succ rounds ih =>
    rw [write]
    by_cases hlast : word < 128
    · have hsmall : word.toNat < 128 := UInt32.lt_iff_toNat_lt.mp hlast
      rw [if_pos hlast, Varint.encode_of_lt hsmall, List.length_singleton,
        if_pos (Nat.le_add_left 1 rounds), toUInt8_eq]
    · have hlarge : ¬ word.toNat < 128 := fun hlt => hlast (UInt32.lt_iff_toNat_lt.mpr hlt)
      rw [if_neg hlast, ih, toNat_shift, toUInt8_or, Varint.encode_of_le hlarge, List.length_cons]
      simp only [Nat.add_le_add_iff_right, List.append_assoc, List.singleton_append]

end Checked

/-! ## One form each -/

/-- **Every length has one form.** A length of 32 bits is written in one to five bytes, which are
read as it, whatever follows; the form of no other length begins with them. What is read as a length
is the form of that length, in at most five bytes, and fits. Bytes are refused exactly if a length
ends too late, not at all, in an empty group behind others, or beyond 32 bits. A machine that
gathers the groups in a word of 64 bits loses no bit and reads the same; one that takes them off a
word of 32 bits comes to an end, after as many rounds as there are bytes, and writes the same. -/
theorem Varint.one_form_each (n : UInt32) (bytes : Bytes) :
    (1 ≤ (encode n.toNat).length ∧ (encode n.toNat).length ≤ 5 ∧
      decodeLength? (encode n.toNat ++ bytes) = some (n.toNat, (encode n.toNat).length)) ∧
    (∀ m : UInt32, encode m.toNat <+: encode n.toNat → m = n) ∧
    (∀ m width, decodeLength? bytes = some (m, width) →
      m < UInt32.size ∧ width ≤ 5 ∧ bytes.take width = encode m) ∧
    (decodeLength? bytes = none ↔ Refused bytes) ∧
    Checked.lengthFrom 0 0 bytes = .ok (decodeLength? bytes) ∧
    ∀ rounds, Checked.write rounds n bytes =
      if (encode n.toNat).length ≤ rounds then some (bytes ++ encode n.toNat) else none := by
  have hfits : n.toNat < lengthBound := n.toNat_lt
  refine ⟨⟨length_encode_pos _, length_encode_le hfits, decodeLength?_encode bytes hfits⟩,
    fun m hm => UInt32.toNat_inj.mp (eq_of_prefix_encode hm), fun m width hread => ?_,
    decodeLength?_eq_none_iff, Checked.lengthFrom_eq (by decide) bytes,
    fun rounds => Checked.write_eq rounds n bytes⟩
  obtain ⟨rest, rfl, rfl, hwidth, hlt⟩ := eq_encode_of_decodeLength? hread
  exact ⟨hlt, hwidth, List.take_left⟩

/-- Three hundred takes two groups, and is not finished after one round; what is left of it when
the second group is emptied is no length. -/
theorem Varint.one_form_each_three_hundred :
    encode 300 = [172, 2] ∧ decodeLength? [172, 2, 9] = some (300, 2) ∧
      ([172, 2, 9] : Bytes).take 2 = encode 300 ∧ decodeLength? [172, 0] = none ∧
      Checked.write 1 300 [9] = none ∧ Checked.write 5 300 [9] = some [9, 172, 2] := by
  have hencode : encode 300 = [172, 2] := by
    rw [encode_of_le (by decide), encode_of_lt (by decide)]
    rfl
  have hnat : (300 : UInt32).toNat = 300 := rfl
  obtain ⟨⟨-, -, hread⟩, -⟩ := Varint.one_form_each 300 [9]
  obtain ⟨-, -, htake, -⟩ := Varint.one_form_each 300 [172, 2, 9]
  obtain ⟨-, -, -, hrefused, -⟩ := Varint.one_form_each 300 [172, 0]
  obtain ⟨-, -, -, -, -, hwrite⟩ := Varint.one_form_each 300 [9]
  simp only [hnat, hencode] at hread hwrite
  have hcontinuing : Continuing [172] := by simp [Continuing]
  refine ⟨hencode, hread, (htake _ _ hread).2.2, hrefused.mpr ?_, hwrite 1, hwrite 5⟩
  exact @Refused.emptyLast [172] [] hcontinuing (by decide)

end IndexedStore
