import IndexedStore.Bucket.Write
import IndexedStore.Proofs.Filing

set_option autoImplicit false

/-! # Batches on contents

What inserting, deleting and updating make of the contents of the tables of a bucket, as functions
(`Contents.insertOne`, `Contents.deleteOne`, `Contents.fetch`, `Contents.replace`), each with the
error that it ends with. In a quiet context the calls do just that. -/

namespace IndexedStore

variable {R σ : Type} [Record R]

/-! ## Inserting -/

namespace Contents

/-- The contents with one more record. -/
def insertOne (b : Bucket R) (h : Contents) (record : R) : Except BucketError Contents :=
  if (Record.key record).isEmpty then .error (.invalidKey Bucket.emptyKeyReason)
  else if h.rows.contains (Record.key record) then .error (.keyConflict (Record.key record))
  else
    match b.codec.encode record with
    | .error e => .error (.codec e)
    | .ok bytes => { h with rows := h.rows.insert (Record.key record) bytes }.file b.indices record

/-- A record that has been inserted was not there before, and has been filed. -/
theorem of_insertOne {b : Bucket R} {h h' : Contents} {record : R}
    (hinsert : h.insertOne b record = .ok h') :
    h.rows.contains (Record.key record) = false ∧ ∃ bytes, b.codec.encode record = .ok bytes ∧
      { h with rows := h.rows.insert (Record.key record) bytes }.file b.indices record = .ok h' := by
  rw [insertOne] at hinsert
  split at hinsert
  · cases hinsert
  · split at hinsert
    · cases hinsert
    · next hfresh =>
      split at hinsert
      · cases hinsert
      · next bytes hencode => exact ⟨Bool.eq_false_iff.mpr hfresh, bytes, hencode, hinsert⟩

/-- The contents with more records. -/
def insertAll (b : Bucket R) (records : List R) (h : Contents) : Except BucketError Contents :=
  records.foldlM (insertOne b) h

/-! ## Deleting -/

/-- The contents without the record of a key. -/
def deleteOne (b : Bucket R) (h : Contents) (key : Bytes) : Except BucketError Contents :=
  match h.rows.get? key with
  | none => .ok h
  | some bytes =>
    match b.codec.decode bytes with
    | .error e => .error (.codec e)
    | .ok record => { h with rows := h.rows.erase key }.unfile b.indices record

/-- There was no row, or one that was read as a record that has been taken out. -/
theorem of_deleteOne {b : Bucket R} {h h' : Contents} {key : Bytes}
    (hdelete : h.deleteOne b key = .ok h') :
    (h.rows.get? key = none ∧ h' = h) ∨
    ∃ bytes record, h.rows.get? key = some bytes ∧ b.codec.decode bytes = .ok record ∧
      { h with rows := h.rows.erase key }.unfile b.indices record = .ok h' := by
  rw [deleteOne] at hdelete
  split at hdelete
  · next hnone => exact .inl ⟨hnone, (Except.ok.inj hdelete).symm⟩
  · next bytes hrow =>
    split at hdelete
    · cases hdelete
    · next record hdecode => exact .inr ⟨bytes, record, hrow, hdecode, hdelete⟩

/-- The contents without the records of keys. -/
def deleteAll (b : Bucket R) (keys : List Bytes) (h : Contents) : Except BucketError Contents :=
  keys.foldlM (deleteOne b) h

end Contents

namespace Bucket

open Call

variable (b : Bucket R) {c : Context σ} {h : Contents}

theorem insertOne_makes (hc : c.Quiet) (hs : c.store.Holds b.config h) (hname : b.name ∉ b.indices)
    (record : R) : Makes (b.insertOne record) c b.config (h.insertOne b record) := by
  have hrows : rows b.name c = .ok h.rows c := rows_ok hs.primary
  refine .after (look_ok hc) (.guarded fun _ => .after hrows (.guarded fun _ => ?_))
  cases hencode : b.codec.encode record with
  | error e => exact .failed (by rw [encode_eq hc, hencode]; rfl)
  | ok bytes =>
    refine .after (encode_ok hc hencode) (.step (.edit (hs.putRow _ _)) fun _ => ?_)
    exact fileRecord_makes (hc.setStore _) (Store.holds_place hname _ _) hname record fun _ hi => hi

theorem insertEach_makes (hc : c.Quiet) (hs : c.store.Holds b.config h)
    (hname : b.name ∉ b.indices) (records : List R) :
    Makes (b.insertEach records) c b.config (h.insertAll b records) := by
  induction records generalizing c h with
  | nil => exact .pure hs 0
  | cons record rest ih =>
    refine .bind (b.insertOne_makes hc hs hname record) fun added h' => ?_
    exact (ih (hc.setStore _) (Store.holds_place hname _ _)).map _

omit [Record R] in
/-- The tables of a bucket that holds something are open at once. -/
theorem open_ok (hs : c.store.Holds b.config h) :
    openTable .primary b.name c = .ok () c ∧ openIndices b.indices c = .ok () c :=
  ⟨openTable_ok hs.primary rfl, openIndices_ok fun index hindex => ⟨_, hs.index index hindex⟩⟩

/-- **Inserting** makes of the contents what `Contents.insertAll` says. -/
theorem insert_writes (hc : c.Quiet) (hs : c.store.Holds b.config h) (hname : b.name ∉ b.indices)
    (records : List R) :
    Writes (b.insert records) c b.config ((h.insertAll b records).mapError .failed) :=
  .after (look_ok hc) (Makes.writes hc (.after (b.open_ok hs).1 (.after (b.open_ok hs).2
    (.looked hc (b.insertEach_makes hc hs hname records)))) _)

theorem deleteOne_makes (hc : c.Quiet) (hs : c.store.Holds b.config h) (hname : b.name ∉ b.indices)
    (key : Bytes) : Makes (b.deleteOne key) c b.config (h.deleteOne b key) := by
  have hrows : rows b.name c = .ok h.rows c := rows_ok hs.primary
  have hquiet : ∀ s, ({ c with store := s } : Context σ).Quiet := fun s => hc.setStore s
  refine .after (look_ok hc) (.after hrows ?_)
  cases hstored : h.rows.get? key with
  | none =>
    have hsame : h.deleteOne b key = .ok h := by simp only [Contents.deleteOne, hstored]
    rw [hsame]
    exact .pure hs _
  | some bytes =>
    have herased : h.deleteOne b key
        = match b.codec.decode bytes with
          | .error e => .error (.codec e)
          | .ok record => { h with rows := h.rows.erase key }.unfile b.indices record := by
      simp only [Contents.deleteOne, hstored]
    rw [herased]
    refine .step (.edit (hs.eraseRow key)) fun _ => ?_
    cases hdecode : b.codec.decode bytes with
    | error e => exact .failed (by rw [decode_eq (hquiet _), hdecode]; rfl)
    | ok record =>
      refine .after (decode_ok (hquiet _) hdecode) (Makes.map ?_ _)
      exact unfileRecord_makes (hquiet _) (Store.holds_place hname _ _) hname record fun _ hi => hi

theorem deleteEach_makes (hc : c.Quiet) (hs : c.store.Holds b.config h)
    (hname : b.name ∉ b.indices) (keys : List Bytes) :
    Makes (b.deleteEach keys) c b.config (h.deleteAll b keys) := by
  induction keys generalizing c h with
  | nil => exact .pure hs (0, 0)
  | cons key rest ih =>
    refine .bind (b.deleteOne_makes hc hs hname key) fun counts h' => ?_
    exact (ih (hc.setStore _) (Store.holds_place hname _ _)).map _

/-- **Deleting** makes of the contents what `Contents.deleteAll` says. -/
theorem delete_writes (hc : c.Quiet) (hs : c.store.Holds b.config h) (hname : b.name ∉ b.indices)
    (keys : List Bytes) :
    Writes (b.delete keys) c b.config ((h.deleteAll b keys).mapError .failed) :=
  .after (look_ok hc) (Makes.writes hc (.after (b.open_ok hs).1 (.after (b.open_ok hs).2
    (.looked hc (b.deleteEach_makes hc hs hname keys)))) fun (counts : Nat × Nat) =>
      .deleted counts.1 counts.2)

end Bucket

end IndexedStore
