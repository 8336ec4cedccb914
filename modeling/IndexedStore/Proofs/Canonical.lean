import IndexedStore.Proofs.CompositeKey

set_option autoImplicit false

/-! # Every entry has one spelling

A length is written in one way only, and the one-form reader accepts no other: what it reads off the
front of a byte string is what was written there (`Varint.eq_encode_of_decodeLength?`). So an entry
is a pair and a pair is an entry, just if the value is not too long (`CompositeKey.entries_are_pairs`).

The reader is stated on numbers without a bound. A machine reads in words of 64 bits, where a shift
may lose bits and a sum may overflow, and cuts a buffer at places that may lie outside. `Checked`
is the same reader with all of that watched; it never stops, and finds the same
(`Checked.decode_eq`). -/

namespace IndexedStore

/-! ## The one form -/

namespace Varint

/-- A group that others follow, and these are not zero, is the first of a number. -/
theorem encode_group_add {b : UInt8} (hb : ¬ b < 128) {m : Nat} (hm : 0 < m) :
    encode (b.toNat % 128 + 128 * m) = b :: encode m := by
  have hlarge : 128 ≤ b.toNat := Nat.not_lt.mp fun hlt => hb (UInt8.lt_iff_toNat_lt.mpr hlt)
  have hbyte := b.toNat_lt
  have hmod : (b.toNat % 128 + 128 * m) % 128 = b.toNat % 128 := by omega
  have hdiv : (b.toNat % 128 + 128 * m) / 128 = m := by omega
  have hgroup : UInt8.ofNat (b.toNat % 128 + 128) = b := by
    rw [show b.toNat % 128 + 128 = b.toNat by omega, UInt8.ofNat_toNat]
  rw [encode_of_le (by omega), hmod, hdiv, hgroup]

theorem shift_group_add (n m i : Nat) :
    (n % 128 + 128 * m) <<< (7 * i) = (n % 128) <<< (7 * i) + m <<< (7 * (i + 1)) := by
  have hmod : (n % 128 + 128 * m) % 128 = n % 128 := by omega
  have hdiv : (n % 128 + 128 * m) / 128 = m := by omega
  rw [← split_group, hmod, hdiv]

/-- What is read from group `i` on is a number that was written there. It is not zero if groups came
before it. -/
theorem eq_encode_of_lengthFrom {bytes : Bytes} {i low n width : Nat}
    (h : lengthFrom i low bytes = some (n, width)) :
    ∃ m rest, bytes = encode m ++ rest ∧ n = low + m <<< (7 * i) ∧
      width = i + (encode m).length ∧ width ≤ maxLengthGroups ∧ n < lengthBound ∧
      (0 < i → 0 < m) := by
  induction bytes generalizing i low with
  | nil => simp [lengthFrom] at h
  | cons b rest ih =>
    simp only [lengthFrom] at h
    split at h
    · contradiction
    · next hgroups =>
      by_cases hlast : b < 128
      · have hb : b.toNat < 128 := UInt8.lt_iff_toNat_lt.mp hlast
        have hencode : encode b.toNat = [b] := by rw [encode_of_lt hb, UInt8.ofNat_toNat]
        rw [if_pos hlast] at h
        split at h
        · contradiction
        · next hempty =>
          split at h
          · contradiction
          · next hfits =>
            simp only [Option.some.injEq, Prod.mk.injEq] at h
            obtain ⟨rfl, rfl⟩ := h
            refine ⟨b.toNat, rest, by simp [hencode], by rw [Nat.mod_eq_of_lt hb],
              by simp [hencode], by omega, Nat.lt_of_not_le hfits, fun hi => ?_⟩
            refine Nat.pos_of_ne_zero fun hzero => hempty ⟨hi, ?_⟩
            exact UInt8.toNat_inj.mp hzero
      · rw [if_neg hlast] at h
        obtain ⟨m, tail, rfl, rfl, rfl, hwidth, hfits, hpos⟩ := ih h
        -- The group goes below those after it, and these are not zero.
        have hm : 0 < m := hpos (Nat.succ_pos i)
        have hencode := encode_group_add hlast hm
        refine ⟨b.toNat % 128 + 128 * m, tail, by simp [hencode], ?_, ?_, hwidth, hfits,
          fun _ => by omega⟩
        · rw [shift_group_add, Nat.add_assoc]
        · rw [hencode, List.length_cons]
          omega

/-- **What is read as a length** was written as that length, and takes the bytes that it was written
in. -/
theorem eq_encode_of_decodeLength? {bytes : Bytes} {n width : Nat}
    (h : decodeLength? bytes = some (n, width)) :
    ∃ rest, bytes = encode n ++ rest ∧ width = (encode n).length ∧ width ≤ maxLengthGroups ∧
      n < lengthBound := by
  obtain ⟨m, rest, rfl, hn, hlength, hwidth, hfits, -⟩ := eq_encode_of_lengthFrom h
  simp only [Nat.mul_zero, Nat.shiftLeft_zero, Nat.zero_add] at hn hlength
  subst hn
  exact ⟨rest, rfl, hlength, hwidth, hfits⟩

end Varint

namespace CompositeKey

/-- **What reads as a pair** is the entry of that pair. -/
theorem eq_entry_of_decode? {bytes value key : Bytes} (h : decode? bytes = some (value, key)) :
    bytes = entry value key ∧ value.length ≤ maxValueLength := by
  unfold decode? at h
  split at h
  · contradiction
  · next length width hread =>
    obtain ⟨rest, rfl, rfl, -, hfits⟩ := Varint.eq_encode_of_decodeLength? hread
    rw [List.drop_left] at h
    dsimp only at h
    split at h
    · next hlength =>
      simp only [Option.some.injEq, Prod.mk.injEq] at h
      obtain ⟨rfl, rfl⟩ := h
      have hbound : maxValueLength + 1 = Varint.lengthBound := by decide
      have htake : (rest.take length).length = length := List.length_take_of_le hlength
      refine ⟨?_, by omega⟩
      rw [entry, stemOf, htake, List.append_assoc, List.take_append_drop]
    · contradiction

theorem decode?_eq_some_iff {bytes value key : Bytes} :
    decode? bytes = some (value, key) ↔
      bytes = entry value key ∧ value.length ≤ maxValueLength := by
  constructor
  · exact eq_entry_of_decode?
  · rintro ⟨rfl, h⟩
    exact decode?_entry h key

theorem encode_eq_ok_iff {value key bytes : Bytes} :
    encode value key = .ok bytes ↔ bytes = entry value key ∧ value.length ≤ maxValueLength := by
  rcases Nat.lt_or_ge maxValueLength value.length with hlong | hshort
  · rw [encode_of_lt hlong]
    simp only [reduceCtorEq, false_iff, not_and, Nat.not_le]
    exact fun _ => hlong
  · rw [encode_of_le hshort]
    simp only [Except.ok.injEq, hshort, and_true, eq_comm]

theorem encode_eq_error_iff {value key : Bytes} {fault : Oversized} :
    encode value key = .error fault ↔ maxValueLength < value.length ∧ fault = ⟨value.length⟩ := by
  rcases Nat.lt_or_ge maxValueLength value.length with hlong | hshort
  · rw [encode_of_lt hlong]
    simp only [Except.error.injEq, hlong, true_and, eq_comm]
  · rw [encode_of_le hshort]
    simp only [reduceCtorEq, Nat.not_lt.mpr hshort, false_and]

/-- A value has a stem where it has entries. -/
theorem stem_eq_error_iff {value key : Bytes} {fault : Oversized} :
    stem value = .error fault ↔ encode value key = .error fault := by
  rw [encode]
  cases stem value <;> simp [Except.map]

theorem stem_eq_ok_iff {value front : Bytes} :
    stem value = .ok front ↔ front = stemOf value ∧ value.length ≤ maxValueLength := by
  rcases Nat.lt_or_ge maxValueLength value.length with hlong | hshort
  · rw [stem_of_lt hlong]
    simp only [reduceCtorEq, false_iff, not_and, Nat.not_le]
    exact fun _ => hlong
  · rw [stem_of_le hshort]
    simp only [Except.ok.injEq, hshort, and_true, eq_comm]

/-- What begins with the stem of a value is an entry of that value. -/
theorem stemOf_prefix_iff {value bytes : Bytes} :
    stemOf value <+: bytes ↔ ∃ key, bytes = entry value key := by
  constructor
  · rintro ⟨key, rfl⟩
    exact ⟨key, rfl⟩
  · rintro ⟨key, rfl⟩
    exact List.prefix_append _ _

end CompositeKey

/-! ## Reading in machine words -/

namespace Checked

/-- What a machine that reads an entry must not come to. -/
inductive Trap where
  /-- A number does not fit in a word. -/
  | overflow
  /-- A place lies outside the buffer. -/
  | outOfRange

/-- A word shifted to the left, with no bit lost. -/
def shift (w : UInt64) (places : Nat) : Except Trap UInt64 :=
  if w.toNat <<< places < UInt64.size then .ok (w <<< UInt64.ofNat places) else .error .overflow

/-- A place as a word. -/
def position (place : Nat) : Except Trap Nat :=
  if place < UInt64.size then .ok place else .error .overflow

/-- The bytes of a buffer from one place up to another. -/
def slice (buffer : Bytes) (start stop : Nat) : Except Trap Bytes :=
  if start ≤ stop ∧ stop ≤ buffer.length then .ok ((buffer.take stop).drop start)
  else .error .outOfRange

/-- Read group number `i` of a length and on, the groups before it gathered in a word. -/
def lengthFrom (i : Nat) (low : UInt64) : Bytes → Except Trap (Option (Nat × Nat))
  | [] => .ok none
  | b :: rest =>
    if Varint.maxLengthGroups ≤ i then .ok none
    else
      match shift (b &&& 127).toUInt64 (7 * i) with
      | .error trap => .error trap
      | .ok group =>
        if b < 128 then
          if 0 < i ∧ b = 0 then .ok none
          else if Varint.lengthBound ≤ (low ||| group).toNat then .ok none
          else .ok (some ((low ||| group).toNat, i + 1))
        else lengthFrom (i + 1) (low ||| group) rest

/-- The value and the record key of an entry. -/
def decode (entry : Bytes) : Except Trap (Option (Bytes × Bytes)) := do
  match ← lengthFrom 0 0 entry with
  | none => return none
  | some (length, width) =>
    let stop ← position (width + length)
    if stop ≤ entry.length then
      return some (← slice entry width stop, ← slice entry stop entry.length)
    else return none

/-- A group that is shifted into its place loses no bit, and lies above the groups before it. -/
theorem shift_group {i : Nat} (hi : i < Varint.maxLengthGroups) {low : UInt64}
    (hlow : low.toNat < 1 <<< (7 * i)) (b : UInt8) :
    ∃ group, shift (b &&& 127).toUInt64 (7 * i) = .ok group ∧
      (low ||| group).toNat = low.toNat + (b.toNat % 128) <<< (7 * i) := by
  have hplace : 7 * i ≤ 28 := by
    have : Varint.maxLengthGroups = 5 := rfl
    omega
  have hgroup : (b &&& 127).toUInt64.toNat = b.toNat % 128 := by
    rw [UInt8.toNat_toUInt64, UInt8.toNat_and]
    exact Nat.and_two_pow_sub_one_eq_mod b.toNat 7
  have hword : (b.toNat % 128) <<< (7 * i) < UInt64.size := by
    calc (b.toNat % 128) <<< (7 * i) ≤ low.toNat + (b.toNat % 128) <<< (7 * i) :=
          Nat.le_add_left _ _
      _ < 1 <<< (7 * (i + 1)) := Varint.add_group_lt hlow b.toNat
      _ ≤ 1 <<< 35 := by
        rw [Nat.one_shiftLeft, Nat.one_shiftLeft]
        exact Nat.pow_le_pow_right (by decide) (by omega)
      _ < UInt64.size := by decide
  have hshifted : ((b &&& 127).toUInt64 <<< UInt64.ofNat (7 * i)).toNat
      = (b.toNat % 128) <<< (7 * i) := by
    have hamount : (UInt64.ofNat (7 * i)).toNat % 64 = 7 * i := by
      rw [UInt64.toNat_ofNat']
      omega
    rw [UInt64.toNat_shiftLeft, hgroup, hamount]
    exact Nat.mod_eq_of_lt hword
  have hbelow : low.toNat < 2 ^ (7 * i) := Nat.one_shiftLeft _ ▸ hlow
  refine ⟨_, if_pos (hgroup.symm ▸ hword), ?_⟩
  rw [UInt64.toNat_or, hshifted, Nat.or_comm, ← Nat.shiftLeft_add_eq_or_of_lt hbelow, Nat.add_comm]

/-- **No bit is lost** while a length is gathered in a word, and the length is found. -/
theorem lengthFrom_eq {i : Nat} {low : UInt64} (hlow : low.toNat < 1 <<< (7 * i)) (bytes : Bytes) :
    lengthFrom i low bytes = .ok (Varint.lengthFrom i low.toNat bytes) := by
  induction bytes generalizing i low with
  | nil => rfl
  | cons b rest ih =>
    rw [lengthFrom, Varint.lengthFrom]
    by_cases hi : Varint.maxLengthGroups ≤ i
    · rw [if_pos hi, if_pos hi]
    · obtain ⟨group, hshift, hsum⟩ := shift_group (Nat.lt_of_not_le hi) hlow b
      rw [if_neg hi, if_neg hi, hshift]
      dsimp only
      rw [ih (hsum ▸ Varint.add_group_lt hlow b.toNat), hsum]
      split
      · split
        · rfl
        · split <;> rfl
      · rfl

/-- **A machine that reads an entry** loses no bit, stays inside the buffer, and finds the pair. -/
theorem decode_eq (entry : Bytes) : decode entry = .ok (CompositeKey.decode? entry) := by
  have hread : lengthFrom 0 0 entry = .ok (Varint.decodeLength? entry) :=
    lengthFrom_eq (by decide) entry
  rw [decode, hread, CompositeKey.decode?]
  cases hlength : Varint.decodeLength? entry with
  | none => rfl
  | some found =>
    obtain ⟨length, width⟩ := found
    obtain ⟨rest, rfl, rfl, hwidth, hfits⟩ := Varint.eq_encode_of_decodeLength? hlength
    have hword : (Varint.encode length).length + length < UInt64.size := by
      have hgroups : Varint.maxLengthGroups = 5 := rfl
      have hbound : Varint.lengthBound = 2 ^ 32 := rfl
      have hsize : UInt64.size = 2 ^ 64 := rfl
      omega
    simp only [bind, Except.bind, position, if_pos hword, List.drop_left, List.length_append,
      Nat.add_le_add_iff_left]
    split
    · next hinside =>
      have hcut : slice (Varint.encode length ++ rest) (Varint.encode length).length
          ((Varint.encode length).length + length) = .ok (rest.take length) := by
        rw [slice, if_pos ⟨Nat.le_add_right _ _, by simpa using hinside⟩, List.take_length_add_append,
          List.drop_left]
      have hrest : slice (Varint.encode length ++ rest) ((Varint.encode length).length + length)
          ((Varint.encode length).length + rest.length) = .ok (rest.drop length) := by
        rw [slice, if_pos ⟨by omega, by simp⟩, List.take_of_length_le (by simp),
          List.drop_length_add_append]
      rw [hcut, hrest]
      rfl
    · rfl

end Checked

/-! ## Entries and pairs -/

/-- **Entries are pairs.** A value that is not too long and a record key have an entry, which reads
as them and as nothing else, and whatever reads as them is that entry; a value that is too long has
neither entry nor stem. The stem of a value begins the entries of that value and nothing else. The
entries of one value are in the order of their record keys. A machine reads them without losing a
bit or leaving the buffer. -/
theorem CompositeKey.entries_are_pairs (value key : Bytes) :
    (∀ entry, encode value key = .ok entry ↔ decode? entry = some (value, key)) ∧
    (∀ fault, encode value key = .error fault ↔
      maxValueLength < value.length ∧ fault = ⟨value.length⟩) ∧
    (∀ fault, stem value = .error fault ↔ encode value key = .error fault) ∧
    (∀ front, stem value = .ok front →
      (∀ other entry, encode other key = .ok entry → (front <+: entry ↔ value = other)) ∧
      ∀ entry, front <+: entry ↔ ∃ rest, decode? entry = some (value, rest)) ∧
    (∀ later entry entry', encode value key = .ok entry → encode value later = .ok entry' →
      compare entry entry' = compare key later) ∧
    ∀ entry, Checked.decode entry = .ok (decode? entry) := by
  refine ⟨fun entry => ?_, fun fault => encode_eq_error_iff, fun fault => stem_eq_error_iff,
    fun front hfront => ?_, ?_, Checked.decode_eq⟩
  · rw [encode_eq_ok_iff, decode?_eq_some_iff]
  · obtain ⟨rfl, hshort⟩ := stem_eq_ok_iff.mp hfront
    refine ⟨fun other entry hentry => ?_, fun entry => ?_⟩
    · obtain ⟨rfl, -⟩ := encode_eq_ok_iff.mp hentry
      rw [stemOf_prefix_iff]
      constructor
      · rintro ⟨rest, he⟩
        exact (entry_inj he).1.symm
      · rintro rfl
        exact ⟨key, rfl⟩
    · simp only [stemOf_prefix_iff, decode?_eq_some_iff, hshort, and_true]
  · intro later entry entry' hentry hentry'
    obtain ⟨rfl, -⟩ := encode_eq_ok_iff.mp hentry
    obtain ⟨rfl, -⟩ := encode_eq_ok_iff.mp hentry'
    exact Bytes.compare_append_left (stemOf value) key later

/-- A value that begins another one: its stem begins its own entries only. -/
theorem CompositeKey.entries_are_pairs_of_beginning :
    stem [7] = .ok [1, 7] ∧ encode [7, 7] [7] = .ok [2, 7, 7, 7] ∧
      encode [7] [7] = .ok [1, 7, 7] ∧ encode [7] [7, 7] = .ok [1, 7, 7, 7] ∧
      decode? [1, 7, 7] = some ([7], [7]) ∧
      ([1, 7] <+: ([2, 7, 7, 7] : Bytes) ↔ ([7] : Bytes) = [7, 7]) ∧
      compare ([1, 7, 7] : Bytes) [1, 7, 7, 7] = compare ([7] : Bytes) [7, 7] := by
  have hone : Varint.encode 1 = [1] := Varint.encode_of_lt (by decide)
  have htwo : Varint.encode 2 = [2] := Varint.encode_of_lt (by decide)
  have hstem : stem [7] = .ok [1, 7] := stem_eq_ok_iff.mpr ⟨by simp [stemOf, hone], by decide⟩
  have hother : encode [7, 7] [7] = .ok [2, 7, 7, 7] :=
    encode_eq_ok_iff.mpr ⟨by simp [entry, stemOf, htwo], by decide⟩
  have hentry : encode [7] [7] = .ok [1, 7, 7] :=
    encode_eq_ok_iff.mpr ⟨by simp [entry, stemOf, hone], by decide⟩
  have hlater : encode [7] [7, 7] = .ok [1, 7, 7, 7] :=
    encode_eq_ok_iff.mpr ⟨by simp [entry, stemOf, hone], by decide⟩
  obtain ⟨hreads, -, -, hfront, horder, -⟩ := CompositeKey.entries_are_pairs [7] [7]
  exact ⟨hstem, hother, hentry, hlater, (hreads _).mp hentry,
    (hfront _ hstem).1 _ _ hother, horder _ _ _ hentry hlater⟩

end IndexedStore
