import IndexedStore.Config.Basic
import IndexedStore.Proofs.Compact
import IndexedStore.Record.Blob
import IndexedStore.Record.Task

set_option autoImplicit false

/-! # Compact records tell where they end

The bytes of a record, a configuration or a descriptor in the compact format are read as what was
written, whatever follows them, and every shorter beginning of them is refused for ending too early
(`Codec.Delimits`, `Binary.self_delimiting`). So a record that was cut off when it was stored is
never taken for another one.

All that is asked of a value is that its bytes can be counted in a word of 64 bits
(`Binary.Counted`), which holds of every byte string in memory. Since no value is written without a
byte, the counts inside it are then numbers of 64 bits too (`Binary.Regular`). -/

namespace IndexedStore

namespace Binary

variable {α β : Type} [Form α] [Form β]

/-- The number of the bytes of the value is a number of 64 bits. -/
def Counted (value : α) : Prop :=
  (encode value).length < UInt64.size

instance (value : α) : Decidable (Counted value) :=
  inferInstanceAs (Decidable (_ < _))

/-- Every value takes a byte at least, and is delimited if its bytes can be counted. -/
class Regular (α : Type) [Form α] : Prop where
  pos : ∀ value : α, 0 < (Form.write value).length
  delimited : ∀ value : α, (Form.write value).length < UInt64.size → Delimited value

/-! ## Parts -/

instance : Regular UInt8 where
  pos _ := Nat.one_pos
  delimited n _ := delimited_uInt8 n

instance : Regular UInt64 where
  pos n := Varint.encode_pos n.toNat
  delimited n _ := delimited_uInt64 n

instance : Regular UInt32 where
  pos n := Varint.encode_pos n.toNat
  delimited n _ := delimited_uInt32 n

theorem length_pos_append {xs : Bytes} (h : 0 < xs.length) (ys : Bytes) : 0 < (xs ++ ys).length := by
  rw [List.length_append]
  omega

theorem lt_of_length_append_lt {xs ys : Bytes} {n : Nat} (h : (xs ++ ys).length < n) :
    xs.length < n ∧ ys.length < n := by
  rw [List.length_append] at h
  omega

instance : Regular String where
  pos text := length_pos_append (Varint.encode_pos (Utf8.encode text).length) _
  delimited _ h := delimited_string (lt_of_length_append_lt h).2

instance [Regular α] [Regular β] : Regular (α × β) where
  pos pair := length_pos_append (Regular.pos pair.1) _
  delimited pair h :=
    delimited_pair (Regular.delimited pair.1 (lt_of_length_append_lt h).1)
      (Regular.delimited pair.2 (lt_of_length_append_lt h).2)

/-- The members of a list are no more than their bytes, and each has no more than all of them. -/
theorem length_members [Regular α] (values : List α) :
    values.length ≤ (values.flatMap Form.write).length ∧
      ∀ value ∈ values, (Form.write value).length ≤ (values.flatMap Form.write).length := by
  induction values with
  | nil => simp
  | cons value values ih =>
    have hpos := Regular.pos value
    obtain ⟨hcount, hmembers⟩ := ih
    simp only [List.flatMap_cons, List.length_append, List.length_cons, List.mem_cons]
    refine ⟨by omega, ?_⟩
    rintro other (rfl | hother)
    · omega
    · have := hmembers other hother
      omega

instance [Regular α] : Regular (List α) where
  pos values := length_pos_append (Varint.encode_pos values.length) _
  delimited values h := by
    obtain ⟨hcount, hmembers⟩ := length_members values
    have hbody : (values.flatMap Form.write).length < UInt64.size := (lt_of_length_append_lt h).2
    refine delimited_list (Nat.lt_of_le_of_lt hcount hbody) fun value hvalue => ?_
    exact Regular.delimited value (Nat.lt_of_le_of_lt (hmembers value hvalue) hbody)

instance [Regular α] : Regular (Option α) where
  pos value := by cases value <;> simp [Form.write]
  delimited value h := by
    refine delimited_option fun inner hinner => Regular.delimited inner ?_
    subst hinner
    simp only [Form.write, List.length_cons] at h
    omega

instance [Regular α] : Regular (OrderedMap String α) where
  pos m := Regular.pos m.toList
  delimited m h := delimited_map (Regular.delimited m.toList h)

/-! ## Structures -/

instance : Regular BucketConfig where
  pos config := length_pos_append (Regular.pos config.name) _
  delimited config h :=
    have hparts := lt_of_length_append_lt h
    (Regular.delimited config.name hparts.1).bind
      ((Regular.delimited config.indices hparts.2).map (BucketConfig.mk config.name))

theorem delimited_engineConfig (config : EngineConfig) : Delimited config :=
  (delimited_uInt64 config.cacheSize).map EngineConfig.mk

instance : Regular Descriptor where
  pos descriptor := length_pos_append (Varint.encode_pos descriptor.formatVersion.toNat) _
  delimited descriptor h :=
    delimited_descriptor (Regular.delimited descriptor.indices (lt_of_length_append_lt h).2)

instance : Regular Blob where
  pos blob := length_pos_append (Regular.pos blob.key) _
  delimited blob h :=
    have hparts := lt_of_length_append_lt h
    (Regular.delimited blob.key hparts.1).bind
      ((Regular.delimited blob.fields hparts.2).map (Blob.mk blob.key))

theorem write_task (task : Task) : Form.write task = Form.write task.id ++ (Form.write task.status ++
    (Form.write task.tags ++ (Form.write task.attempts ++ Form.write task.parent))) := by
  simp only [← List.append_assoc]
  rfl

instance : Regular Task where
  pos task := by
    rw [write_task]
    exact length_pos_append (Regular.pos task.id) _
  delimited task h := by
    rw [write_task] at h
    obtain ⟨hid, h⟩ := lt_of_length_append_lt h
    obtain ⟨hstatus, h⟩ := lt_of_length_append_lt h
    obtain ⟨htags, h⟩ := lt_of_length_append_lt h
    obtain ⟨hattempts, hparent⟩ := lt_of_length_append_lt h
    rw [Delimited, write_task]
    exact (Regular.delimited task.id hid).bind ((Regular.delimited task.status hstatus).bind
      ((Regular.delimited task.tags htags).bind ((Regular.delimited task.attempts hattempts).bind
        ((Regular.delimited task.parent hparent).map
          (Task.mk task.id task.status task.tags task.attempts)))))

end Binary

/-! ## Records -/

/-- The bytes of the record are read as the record, whatever follows them, and every shorter
beginning of them ends too early. -/
def Codec.Delimits {R : Type} (codec : Codec R) (record : R) : Prop :=
  ∃ bytes, codec.encode record = .ok bytes ∧
    (∀ more, codec.decode (bytes ++ more) = .ok record) ∧
    ∀ front, front <+: bytes → front ≠ bytes →
      codec.decode front = .error (.decode .unexpectedEnd)

namespace Binary

variable {α : Type} [Form α]

theorem Delimited.decode_append {value : α} (h : Delimited value) (more : Bytes) :
    decode (encode value ++ more) = .ok value := by
  rw [decode, encode, h.whole]
  rfl

theorem Delimited.decode_of_prefix {value : α} (h : Delimited value) {front : Bytes}
    (hfront : front <+: encode value) (hcut : front ≠ encode value) :
    decode (α := α) front = .error .unexpectedEnd := by
  obtain ⟨back, hback⟩ := hfront
  have hne : back ≠ [] := by
    rintro rfl
    rw [List.append_nil] at hback
    exact hcut hback
  rw [decode, h.cut front back hne hback]
  rfl

theorem Delimited.delimits {value : α} (h : Delimited value) : (Codec.binary α).Delimits value := by
  refine ⟨encode value, rfl, fun more => ?_, fun front hfront hcut => ?_⟩
  · show (decode (encode value ++ more)).mapError _ = _
    rw [h.decode_append]
    rfl
  · show (decode front).mapError _ = _
    rw [h.decode_of_prefix hfront hcut]
    rfl

theorem Counted.delimited [Regular α] {value : α} (h : Counted value) : Delimited value :=
  Regular.delimited value h

/-! ## What was read -/

/-- Values that are taken one after the other are delimited if each is. -/
theorem delimited_of_takeMany
    (hα : ∀ (bytes : Bytes) (found : α × Bytes), Form.take bytes = .ok found → Delimited found.1)
    {taken : List α} (htaken : ∀ value ∈ taken, Delimited value) {count : Nat} {bytes : Bytes}
    {found : List α × Bytes} (h : takeMany α taken count bytes = .ok found) :
    found.1.length = taken.length + count ∧ ∀ value ∈ found.1, Delimited value := by
  induction count generalizing taken bytes with
  | zero =>
    cases h
    simpa using htaken
  | succ count ih =>
    rw [takeMany] at h
    split at h
    · cases h
    · next value rest hvalue =>
      have hnext : ∀ other ∈ value :: taken, Delimited other :=
        List.forall_mem_cons.mpr ⟨hα bytes _ hvalue, htaken⟩
      obtain ⟨hlength, hall⟩ := ih hnext h
      rw [List.length_cons] at hlength
      exact ⟨by omega, hall⟩

/-- A list that is read is delimited if its members are. -/
theorem delimited_of_take_list
    (hα : ∀ (bytes : Bytes) (found : α × Bytes), Form.take bytes = .ok found → Delimited found.1)
    {bytes : Bytes} {found : List α × Bytes} (h : Form.take bytes = .ok found) :
    Delimited found.1 := by
  obtain ⟨count, hcount, hmembers⟩ := exists_of_bind_eq_ok h
  obtain ⟨hlength, hall⟩ := delimited_of_takeMany hα (by simp) hmembers
  rw [List.length_nil, Nat.zero_add] at hlength
  refine delimited_list ?_ hall
  rw [hlength]
  exact lt_of_takeNumber hcount

theorem delimited_of_decode_descriptor {bytes : Bytes} {descriptor : Descriptor}
    (h : decode bytes = .ok descriptor) : Delimited descriptor := by
  rw [decode] at h
  cases htake : (Form.take bytes : Except Fault (Descriptor × Bytes)) with
  | error fault => simp [htake, Except.map] at h
  | ok found =>
    rw [htake] at h
    cases h
    obtain ⟨version, -, hrest⟩ := exists_of_bind_eq_ok htake
    obtain ⟨indices, hindices, hfound⟩ := exists_of_bind_eq_ok hrest
    cases hfound
    exact delimited_descriptor (delimited_of_take_list (fun _ _ => delimited_of_take_string) hindices)

end Binary

namespace Descriptor

/-- **The bytes of a descriptor**, whatever follows them, are read if it has the current version, and
otherwise refused for the version it has. -/
theorem ofBytes_toBytes_append {descriptor : Descriptor} (h : Binary.Delimited descriptor)
    (more : Bytes) : ofBytes (descriptor.toBytes ++ more)
      = if descriptor.formatVersion = currentVersion then .ok descriptor
        else .error (.corrupted (.version descriptor.formatVersion currentVersion)) := by
  rw [ofBytes, toBytes, h.decode_append]

theorem ofBytes_of_prefix {descriptor : Descriptor} (h : Binary.Delimited descriptor)
    {front : Bytes} (hfront : front <+: descriptor.toBytes) (hcut : front ≠ descriptor.toBytes) :
    ofBytes front = .error (.codec (.decode .unexpectedEnd)) := by
  rw [ofBytes, h.decode_of_prefix hfront hcut]

/-- **A descriptor that is read** has the current version, and its own bytes are read as it. -/
theorem of_ofBytes {bytes : Bytes} {descriptor : Descriptor} (h : ofBytes bytes = .ok descriptor) :
    descriptor.formatVersion = currentVersion ∧ ofBytes descriptor.toBytes = .ok descriptor := by
  rw [ofBytes] at h
  split at h
  · cases h
  · next found hdecode =>
    split at h
    · next hversion =>
      cases h
      refine ⟨hversion, ?_⟩
      have hwhole := ofBytes_toBytes_append (Binary.delimited_of_decode_descriptor hdecode) []
      rw [List.append_nil, if_pos hversion] at hwhole
      exact hwhole
    · cases h

end Descriptor

/-- **Records, texts, numbers and configurations in the compact format** are read as what was
written, whatever follows their bytes, and every shorter beginning of their bytes ends too early. The
same goes for descriptors, of which only those of the current version are read; and a descriptor
that was read from any bytes has the current version and is written as bytes that are read as it. -/
theorem Binary.self_delimiting :
    (∀ task : Task, Binary.Counted task → (Codec.binary Task).Delimits task) ∧
    (∀ blob : Blob, Binary.Counted blob → (Codec.binary Blob).Delimits blob) ∧
    (∀ text : String, Binary.Counted text → (Codec.binary String).Delimits text) ∧
    (∀ n : UInt64, (Codec.binary UInt64).Delimits n) ∧
    (∀ config : BucketConfig, Binary.Counted config →
      (Codec.binary BucketConfig).Delimits config) ∧
    (∀ config : EngineConfig, (Codec.binary EngineConfig).Delimits config) ∧
    (∀ descriptor : Descriptor, Binary.Counted descriptor →
      (Codec.binary Descriptor).Delimits descriptor ∧
      (∀ more, Descriptor.ofBytes (descriptor.toBytes ++ more)
        = if descriptor.formatVersion = Descriptor.currentVersion then .ok descriptor
          else .error (.corrupted (.version descriptor.formatVersion Descriptor.currentVersion))) ∧
      ∀ front, front <+: descriptor.toBytes → front ≠ descriptor.toBytes →
        Descriptor.ofBytes front = .error (.codec (.decode .unexpectedEnd))) ∧
    ∀ (bytes : Bytes) (descriptor : Descriptor), Descriptor.ofBytes bytes = .ok descriptor →
      descriptor.formatVersion = Descriptor.currentVersion ∧
        Descriptor.ofBytes descriptor.toBytes = .ok descriptor := by
  refine ⟨fun task h => h.delimited.delimits, fun blob h => h.delimited.delimits,
    fun text h => h.delimited.delimits, fun n => (Binary.delimited_uInt64 n).delimits,
    fun config h => h.delimited.delimits,
    fun config => (Binary.delimited_engineConfig config).delimits, fun descriptor h => ?_,
    fun bytes descriptor h => Descriptor.of_ofBytes h⟩
  exact ⟨h.delimited.delimits, Descriptor.ofBytes_toBytes_append h.delimited,
    fun front hfront hcut => Descriptor.ofBytes_of_prefix h.delimited hfront hcut⟩

/-- A task that belongs to another one, and the descriptor of a later version of the format. -/
theorem Binary.self_delimiting_task :
    Binary.Counted (Task.mk "a" "open" ["red", "é"] 300 (some 7)) ∧
      Binary.Counted (Descriptor.mk 2 ["tags"]) ∧
      (Codec.binary Task).Delimits ⟨"a", "open", ["red", "é"], 300, some 7⟩ ∧
      Descriptor.ofBytes ((Descriptor.mk 2 ["tags"]).toBytes ++ [0])
        = .error (.corrupted (.version 2 1)) := by
  have htask : Binary.Counted (Task.mk "a" "open" ["red", "é"] 300 (some 7)) := by decide +kernel
  have hdescriptor : Binary.Counted (Descriptor.mk 2 ["tags"]) := by decide +kernel
  obtain ⟨hdelimits, -, -, -, -, -, hread, -⟩ := Binary.self_delimiting
  exact ⟨htask, hdescriptor, hdelimits _ htask, (hread _ hdescriptor).2.1 [0]⟩

end IndexedStore
