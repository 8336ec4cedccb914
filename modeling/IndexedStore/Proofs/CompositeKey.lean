import IndexedStore.Index

set_option autoImplicit false

/-! # Composite keys are pairs

An entry is the length of a value, the value and a record key in one byte string. Nothing is lost by
that: the length in front says where it ends, so no two pairs share an entry (`entry_inj`) and every
entry reads as its pair (`decode?_entry`).

A table is walked in byte order. The byte strings that begin with the stem of a value stand together
there, whatever else the table holds, and so the scan of a table, which starts at the stem and stops
at the first entry without it, finds all of them (`Index.keysOf_eq_filter`). -/

namespace IndexedStore

/-! ## Lengths -/

namespace Varint

theorem toNat_ofNat_of_lt {n : Nat} (h : n < 256) : (UInt8.ofNat n).toNat = n := by
  rw [UInt8.toNat_ofNat']
  exact Nat.mod_eq_of_lt h

theorem toNat_lastGroup {n : Nat} (h : n < 128) : (UInt8.ofNat n).toNat = n :=
  toNat_ofNat_of_lt (by omega)

theorem toNat_group (n : Nat) : (UInt8.ofNat (n % 128 + 128)).toNat = n % 128 + 128 :=
  toNat_ofNat_of_lt (by omega)

theorem lastGroup_lt {n : Nat} (h : n < 128) : UInt8.ofNat n < 128 := by
  rw [UInt8.lt_iff_toNat_lt, toNat_lastGroup h]
  exact h

theorem not_group_lt (n : Nat) : ¬ UInt8.ofNat (n % 128 + 128) < 128 := by
  rw [UInt8.lt_iff_toNat_lt, toNat_group]
  exact Nat.not_lt.mpr (Nat.le_add_left 128 _)

theorem encode_of_lt {n : Nat} (h : n < 128) : encode n = [UInt8.ofNat n] := by
  rw [encode, if_pos h]

theorem encode_of_le {n : Nat} (h : ¬ n < 128) :
    encode n = UInt8.ofNat (n % 128 + 128) :: encode (n / 128) := by
  rw [encode, if_neg h]

/-- What is read of group `i` on, and what is left for the groups after it, make up the number. -/
theorem split_group (n i : Nat) :
    (n % 128) <<< (7 * i) + (n / 128) <<< (7 * (i + 1)) = n <<< (7 * i) := by
  have hgroup : (n / 128) <<< (7 * (i + 1)) = (128 * (n / 128)) <<< (7 * i) := by
    rw [Nat.mul_succ, Nat.add_comm, Nat.shiftLeft_add, Nat.shiftLeft_eq _ 7, Nat.mul_comm]
  rw [hgroup, Nat.shiftLeft_eq, Nat.shiftLeft_eq, Nat.shiftLeft_eq, ← Nat.add_mul,
    Nat.mod_add_div]

/-- What is read up to group `i` lies below the groups after it. -/
theorem add_group_lt {i low : Nat} (hlow : low < 1 <<< (7 * i)) (n : Nat) :
    low + (n % 128) <<< (7 * i) < 1 <<< (7 * (i + 1)) := by
  have hgroup : (n % 128) * 2 ^ (7 * i) ≤ 127 * 2 ^ (7 * i) := Nat.mul_le_mul_right _ (by omega)
  rw [Nat.one_shiftLeft] at hlow
  rw [Nat.one_shiftLeft, Nat.shiftLeft_eq, Nat.mul_succ, Nat.pow_add]
  omega

/-- A number other than zero that begins with the last group a length may have, or after it, is too
large. -/
theorem lengthBound_le {n i : Nat} (hn : 0 < n) (hi : maxLengthGroups ≤ i) :
    lengthBound ≤ n <<< (7 * i) := by
  calc lengthBound ≤ 1 <<< (7 * maxLengthGroups) := by decide
    _ ≤ 1 <<< (7 * i) := by
      rw [Nat.one_shiftLeft, Nat.one_shiftLeft]
      exact Nat.pow_le_pow_right (by decide) (Nat.mul_le_mul_left 7 hi)
    _ ≤ n <<< (7 * i) := by
      rw [Nat.one_shiftLeft, Nat.shiftLeft_eq]
      exact Nat.le_mul_of_pos_left _ hn

/-- **No written number begins another.** -/
theorem encode_append_inj {m n : Nat} {s t : Bytes} (h : encode m ++ s = encode n ++ t) :
    m = n ∧ s = t := by
  induction m using Nat.strongRecOn generalizing n with
  | ind m ih =>
    by_cases hm : m < 128 <;> by_cases hn : n < 128
    · rw [encode_of_lt hm, encode_of_lt hn, List.cons_append, List.cons_append, List.nil_append,
        List.nil_append, List.cons.injEq] at h
      have hbyte := congrArg UInt8.toNat h.1
      rw [toNat_lastGroup hm, toNat_lastGroup hn] at hbyte
      exact ⟨hbyte, h.2⟩
    · rw [encode_of_lt hm, encode_of_le hn, List.cons_append, List.cons_append,
        List.cons.injEq] at h
      exact absurd (h.1 ▸ lastGroup_lt hm) (not_group_lt n)
    · rw [encode_of_le hm, encode_of_lt hn, List.cons_append, List.cons_append,
        List.cons.injEq] at h
      exact absurd (h.1.symm ▸ lastGroup_lt hn) (not_group_lt m)
    · rw [encode_of_le hm, encode_of_le hn, List.cons_append, List.cons_append,
        List.cons.injEq] at h
      have hbyte := congrArg UInt8.toNat h.1
      rw [toNat_group, toNat_group] at hbyte
      obtain ⟨hdiv, hrest⟩ := ih (m / 128) (by omega) h.2
      exact ⟨by omega, hrest⟩

/-- A number written from group `i` on is read to its end, if it fits. Groups after the first must
not be all there is of a zero. -/
theorem lengthFrom_encode {i low n : Nat} (rest : Bytes) (hfit : low + n <<< (7 * i) < lengthBound)
    (hpos : 0 < i → 0 < n) :
    lengthFrom i low (encode n ++ rest) = some (low + n <<< (7 * i), i + (encode n).length) := by
  induction n using Nat.strongRecOn generalizing i low with
  | ind n ih =>
    -- A group after the fifth would belong to a number that does not fit.
    have hgroup : ¬ maxLengthGroups ≤ i := by
      intro hge
      have hbig := lengthBound_le (hpos (Nat.lt_of_lt_of_le (by decide) hge)) hge
      omega
    by_cases hn : n < 128
    · have hzero : ¬ (0 < i ∧ UInt8.ofNat n = 0) := by
        rintro ⟨hi, hz⟩
        have hval := toNat_lastGroup hn
        rw [hz] at hval
        have := hpos hi
        simp at hval
        omega
      rw [encode_of_lt hn, List.cons_append, lengthFrom, if_neg hgroup]
      simp only [toNat_lastGroup hn, Nat.mod_eq_of_lt hn, if_pos (lastGroup_lt hn), if_neg hzero,
        if_neg (Nat.not_le.mpr hfit), List.length_singleton]
    · have hsplit := split_group n i
      rw [encode_of_le hn, List.cons_append, lengthFrom, if_neg hgroup]
      simp only [toNat_group, if_neg (not_group_lt n), Nat.add_mod_right, Nat.mod_mod,
        List.length_cons]
      rw [ih (n / 128) (by omega) (by omega) (fun _ => by omega)]
      congr 2 <;> omega

/-- **Reading a written length.** -/
theorem decodeLength?_encode {n : Nat} (rest : Bytes) (h : n < lengthBound) :
    decodeLength? (encode n ++ rest) = some (n, (encode n).length) := by
  have hread := @lengthFrom_encode 0 0 n rest (by omega) (by omega)
  rw [decodeLength?, hread]
  congr 2 <;> omega

end Varint

/-! ## Entries -/

namespace CompositeKey

/-- What the entries of a value begin with, however long the value is. -/
def stemOf (value : Bytes) : Bytes :=
  Varint.encode value.length ++ value

/-- The entry of a value and a record key, however long the value is. -/
def entry (value key : Bytes) : Bytes :=
  stemOf value ++ key

theorem stem_of_le {value : Bytes} (h : value.length ≤ maxValueLength) :
    stem value = .ok (stemOf value) := by
  rw [stem, if_pos h, stemOf]

theorem stem_of_lt {value : Bytes} (h : maxValueLength < value.length) :
    stem value = .error ⟨value.length⟩ := by
  rw [stem, if_neg (Nat.not_le.mpr h)]

theorem encode_of_le {value : Bytes} (h : value.length ≤ maxValueLength) (key : Bytes) :
    encode value key = .ok (entry value key) := by
  rw [encode, stem_of_le h, entry]
  rfl

theorem encode_of_lt {value : Bytes} (h : maxValueLength < value.length) (key : Bytes) :
    encode value key = .error ⟨value.length⟩ := by
  rw [encode, stem_of_lt h]
  rfl

theorem stemOf_append_inj {v w s t : Bytes} (h : stemOf v ++ s = stemOf w ++ t) :
    v = w ∧ s = t := by
  rw [stemOf, stemOf, List.append_assoc, List.append_assoc] at h
  obtain ⟨hlength, hrest⟩ := Varint.encode_append_inj h
  exact List.append_inj hrest hlength

/-- **No two pairs share an entry.** -/
theorem entry_inj {v w k l : Bytes} (h : entry v k = entry w l) : v = w ∧ k = l :=
  stemOf_append_inj h

/-- **An entry reads as its pair.** -/
theorem decode?_entry {value : Bytes} (h : value.length ≤ maxValueLength) (key : Bytes) :
    decode? (entry value key) = some (value, key) := by
  have hlength : value.length < Varint.lengthBound := by
    have : maxValueLength + 1 = Varint.lengthBound := by decide
    omega
  rw [decode?, entry, stemOf, List.append_assoc, Varint.decodeLength?_encode _ hlength]
  simp

end CompositeKey

/-! ## Byte order -/

namespace Bytes

theorem compare_append_left (p a b : Bytes) : compare (p ++ a) (p ++ b) = compare a b := by
  induction p with
  | nil => rfl
  | cons x p ih =>
    rw [List.cons_append, List.cons_append, List.compare_cons_cons, Std.ReflOrd.compare_self, ih]
    rfl

/-- What begins with `p` does not come before it. -/
theorem not_lt_of_prefix {p e : Bytes} (h : p <+: e) : compare e p ≠ .lt := by
  obtain ⟨rest, rfl⟩ := h
  have hself := compare_append_left p rest []
  rw [List.append_nil] at hself
  rw [hself]
  cases rest <;> simp

/-- What comes from `p` on and does not begin with it comes after all that does. -/
theorem append_lt_of_not_prefix {p e : Bytes} (hle : compare e p ≠ .lt) (h : ¬ p <+: e)
    (rest : Bytes) : compare (p ++ rest) e = .lt := by
  induction p generalizing e with
  | nil => exact absurd List.nil_prefix h
  | cons x p ih =>
    cases e with
    | nil => simp at hle
    | cons y e =>
      rw [List.compare_cons_cons] at hle
      rw [List.cons_append, List.compare_cons_cons]
      -- The first byte that differs decides; up to there both go on.
      cases hxy : compare y x with
      | lt => simp [hxy] at hle
      | gt => rw [Std.OrientedCmp.lt_of_gt hxy]; rfl
      | eq =>
        obtain rfl : y = x := Std.LawfulEqOrd.eq_of_compare hxy
        have htail : ¬ p <+: e := fun hp => h (List.cons_prefix_cons.mpr ⟨rfl, hp⟩)
        rw [hxy, ih (by simpa using hle) htail]
        rfl

end Bytes

/-! ## Scans -/

namespace Index

/-- From the stem on, what begins with it comes first. -/
theorem takeWhile_stem_eq_filter (stem : Bytes) {entries : List Bytes}
    (hasc : entries.Pairwise fun e f => compare e f = .lt)
    (hfrom : ∀ e ∈ entries, compare e stem ≠ .lt) :
    entries.takeWhile stem.isPrefixOf = entries.filter stem.isPrefixOf := by
  induction entries with
  | nil => rfl
  | cons e rest ih =>
    obtain ⟨hfirst, hrest⟩ := List.pairwise_cons.mp hasc
    by_cases hp : stem.isPrefixOf e
    · rw [List.takeWhile_cons_of_pos hp, List.filter_cons_of_pos hp,
        ih hrest fun f hf => hfrom f (List.mem_cons_of_mem _ hf)]
    · have hnone : ∀ f ∈ rest, ¬ stem.isPrefixOf f := by
        intro f hf hpf
        obtain ⟨tail, rfl⟩ := List.isPrefixOf_iff_prefix.mp hpf
        have hback := Bytes.append_lt_of_not_prefix (hfrom e List.mem_cons_self)
          (fun hpe => hp (List.isPrefixOf_iff_prefix.mpr hpe)) tail
        have hforth := Std.OrientedCmp.gt_of_lt (hfirst _ hf)
        rw [hback] at hforth
        exact absurd hforth (by decide)
      rw [List.takeWhile_cons_of_neg hp, List.filter_cons_of_neg hp,
        List.filter_eq_nil_iff.mpr hnone]

/-- **A scan that starts at the stem and stops at the first entry without it finds all that begin
with it**, whatever byte strings stand around them. -/
theorem scan_eq_filter (stem : Bytes) {entries : List Bytes}
    (hasc : entries.Pairwise fun e f => compare e f = .lt) :
    (entries.dropWhile fun e => compare e stem = .lt).takeWhile stem.isPrefixOf
      = entries.filter stem.isPrefixOf := by
  induction entries with
  | nil => rfl
  | cons e rest ih =>
    obtain ⟨hfirst, hrest⟩ := List.pairwise_cons.mp hasc
    by_cases hlt : compare e stem = .lt
    · have hp : ¬ stem.isPrefixOf e := fun hp =>
        Bytes.not_lt_of_prefix (List.isPrefixOf_iff_prefix.mp hp) hlt
      rw [List.dropWhile_cons_of_pos (by simpa using hlt), ih hrest, List.filter_cons_of_neg hp]
    · rw [List.dropWhile_cons_of_neg (by simpa using hlt)]
      refine takeWhile_stem_eq_filter stem hasc fun f hf => ?_
      rcases List.mem_cons.mp hf with rfl | hf
      · exact hlt
      · intro hback
        exact hlt (Std.TransCmp.lt_trans (hfirst f hf) hback)

/-- The keys that a table shows for a value are those of its entries that begin with the stem. -/
theorem keysOf_eq_filter (table : OrderedSet Bytes) {value : Bytes}
    (h : value.length ≤ maxValueLength) :
    keysOf table value = .ok ((table.keys.filter (CompositeKey.stemOf value).isPrefixOf).map
      (·.drop (CompositeKey.stemOf value).length)) := by
  have hasc : table.keys.Pairwise fun e f => compare e f = .lt :=
    List.pairwise_map.mpr table.ascending
  rw [keysOf, CompositeKey.stem_of_le h, Except.map, scan_eq_filter _ hasc]

end Index

end IndexedStore
