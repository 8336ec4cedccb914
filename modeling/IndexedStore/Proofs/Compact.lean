import IndexedStore.Descriptor
import IndexedStore.Proofs.Delimited

set_option autoImplicit false

/-! # The compact format is not misread

What a reader of the compact format takes off the front of a written value is that value, if it
takes anything at all (`Binary.Faithful`): a number that is too wide for the reader, or a count that
is, is refused and not cut short. A structure is faithful if its fields are, and so a stored
descriptor is never taken for that of other indices (`Descriptor.indices_of_ofBytes`).

Conversely a value is read back (`Binary.ReadBack`) if no number in it is too wide, for then it is
delimited. So the descriptor of indices whose lengths a machine can count is read as what it is
(`Descriptor.ofBytes_toBytes`). -/

namespace IndexedStore

/-! ## Numbers -/

theorem Varint.takeFrom_encode {w : Width} {i low n : Nat} {rest : Bytes} {found : Nat × Bytes}
    (h : takeFrom w i low (encode n ++ rest) = .ok found) :
    found = (low + n <<< (7 * i), rest) := by
  induction n using Nat.strongRecOn generalizing i low with
  | ind n ih =>
    by_cases hn : n < 128
    · rw [encode_of_lt hn, List.cons_append, List.nil_append, takeFrom] at h
      split at h
      · simp only [if_pos (lastGroup_lt hn), toNat_lastGroup hn, Nat.mod_eq_of_lt hn] at h
        split at h
        · cases h
        · cases h
          rfl
      · cases h
    · rw [encode_of_le hn, List.cons_append, takeFrom] at h
      split at h
      · simp only [if_neg (not_group_lt n), toNat_group, Nat.add_mod_right, Nat.mod_mod] at h
        rw [ih (n / 128) (by omega) h, Nat.add_assoc, split_group]
      · cases h

namespace Binary

theorem takeNumber_encode {w : Varint.Width} {n : Nat} {rest : Bytes} {found : Nat × Bytes}
    (h : takeNumber w (Varint.encode n ++ rest) = .ok found) : found = (n, rest) := by
  rw [takeNumber, Varint.take] at h
  cases htake : Varint.takeFrom w 0 0 (Varint.encode n ++ rest) with
  | error fault => cases fault <;> simp [htake] at h
  | ok number =>
    rw [htake] at h
    cases h
    rw [Varint.takeFrom_encode htake, Nat.mul_zero, Nat.shiftLeft_zero, Nat.zero_add]

/-- A reader that can find one value only goes on with that value, if it goes on. -/
theorem of_bind_eq_ok {α β : Type} {r : Except Fault α} {a : α}
    (hr : ∀ found, r = .ok found → found = a) {next : α → Except Fault β} {b : β}
    (h : (r >>= next) = .ok b) : next a = .ok b := by
  obtain ⟨found, hfound, hnext⟩ := exists_of_bind_eq_ok h
  rwa [hr found hfound] at hnext

/-! ## Forms -/

/-- What is read of a written value is the value, and what follows it is left. -/
def Faithful (α : Type) [Form α] : Prop :=
  ∀ (value : α) (rest : Bytes) (found : α × Bytes),
    Form.take (Form.write value ++ rest) = .ok found → found = (value, rest)

theorem faithful_uInt16 : Faithful UInt16 := by
  intro value rest found h
  cases htake : takeNumber .w16 (Varint.encode value.toNat ++ rest) with
  | error fault => simp [Form.take, Form.write, htake, Except.map] at h
  | ok number =>
    have hnumber := takeNumber_encode htake
    subst hnumber
    simp only [Form.take, Form.write, htake, Except.map, Except.ok.injEq] at h
    rw [← h, UInt16.ofNat_toNat]

theorem faithful_string : Faithful String := by
  intro value rest found h
  simp only [Form.take, Form.write, List.append_assoc] at h
  have hbody := of_bind_eq_ok (fun _ => takeNumber_encode) h
  simpa [bind, Except.bind, pure, Except.pure, eq_comm] using hbody

variable {α : Type} [Form α]

theorem takeMany_write (hα : Faithful α) {taken values : List α} {rest : Bytes}
    {found : List α × Bytes}
    (h : takeMany α taken values.length (values.flatMap Form.write ++ rest) = .ok found) :
    found = (taken.reverse ++ values, rest) := by
  induction values generalizing taken with
  | nil =>
    cases h
    simp
  | cons value values ih =>
    rw [List.flatMap_cons, List.append_assoc, List.length_cons, takeMany] at h
    split at h
    · cases h
    · next first others hfirst =>
      have htaken := hα value _ _ hfirst
      cases htaken
      rw [ih h, List.reverse_cons, List.append_assoc, List.singleton_append]

/-- **Lists** of values that are not misread are not misread. -/
theorem faithful_list (hα : Faithful α) : Faithful (List α) := by
  intro values rest found h
  simp only [Form.take, Form.write, List.append_assoc] at h
  exact takeMany_write hα (of_bind_eq_ok (fun _ => takeNumber_encode) h)

theorem faithful_descriptor : Faithful Descriptor := by
  intro value rest found h
  have hparts : (Form.take (Form.write value.formatVersion
      ++ (Form.write value.indices ++ rest)) >>= fun version : UInt16 × Bytes =>
    Form.take version.2 >>= fun indices : List String × Bytes =>
      pure (Descriptor.mk version.1 indices.1, indices.2)) = .ok found := by
    rw [← List.append_assoc]
    exact h
  have hindices := of_bind_eq_ok (fun _ => faithful_uInt16 _ _ _) hparts
  cases of_bind_eq_ok (fun _ => faithful_list faithful_string _ _ _) hindices
  rfl

/-! ## Values that are read back -/

/-- The value is read off the front of whatever begins with its bytes. -/
def ReadBack (value : α) : Prop :=
  ∀ rest : Bytes, Form.take (Form.write value ++ rest) = .ok (value, rest)

theorem Delimited.readBack {value : α} (h : Delimited value) : ReadBack value :=
  h.whole

theorem delimited_descriptor {descriptor : Descriptor} (h : Delimited descriptor.indices) :
    Delimited descriptor :=
  (delimited_uInt16 descriptor.formatVersion).bind (h.map (Descriptor.mk descriptor.formatVersion))

end Binary

/-- The number of indices and the length of each of their names are numbers of 64 bits, as all
lengths in memory are. -/
def BucketConfig.Sized (config : BucketConfig) : Prop :=
  config.indices.length < UInt64.size ∧
    ∀ index ∈ config.indices, (Utf8.encode index).length < UInt64.size

instance (config : BucketConfig) : Decidable config.Sized :=
  inferInstanceAs (Decidable (_ ∧ _))

/-- **A written descriptor** is read. -/
theorem Descriptor.ofBytes_toBytes {config : BucketConfig} (h : config.Sized) :
    ofBytes (ofIndices config.indices).toBytes = .ok (ofIndices config.indices) := by
  have hread : Binary.ReadBack (ofIndices config.indices) :=
    (Binary.delimited_descriptor (Binary.delimited_list h.1 fun index hindex =>
      Binary.delimited_string (h.2 index hindex))).readBack
  have htake := hread []
  rw [List.append_nil] at htake
  have hdecode : Binary.decode (ofIndices config.indices).toBytes
      = .ok (ofIndices config.indices) := by
    rw [Binary.decode, toBytes, Binary.encode, htake]
    rfl
  rw [ofBytes, hdecode]
  exact if_pos rfl

/-- **A stored descriptor**, if it is read, names the indices it was written for. -/
theorem Descriptor.indices_of_ofBytes {indices : List String} {descriptor : Descriptor}
    (h : ofBytes (ofIndices indices).toBytes = .ok descriptor) :
    descriptor = ofIndices indices := by
  rw [ofBytes, Binary.decode] at h
  cases htake : (Binary.Form.take (ofIndices indices).toBytes :
      Except Binary.Fault (Descriptor × Bytes)) with
  | error fault =>
    rw [htake] at h
    cases h
  | ok found =>
    have hfound : found = (ofIndices indices, []) := by
      refine Binary.faithful_descriptor _ _ _ ?_
      rw [List.append_nil]
      exact htake
    rw [htake, hfound] at h
    simp only [Except.map, ofIndices, if_true] at h
    exact (Except.ok.inj h).symm

end IndexedStore
