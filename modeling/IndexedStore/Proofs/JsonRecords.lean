import IndexedStore.Codec
import IndexedStore.Config.Basic
import IndexedStore.Descriptor
import IndexedStore.Proofs.Documents
import IndexedStore.Proofs.OrderedMap
import IndexedStore.Record.Blob
import IndexedStore.Record.Task

set_option autoImplicit false

/-! # JSON records are read back

A value that is written as JSON is read from it as what it is (`Json.Faithful`,
`Json.round_trip`), and a bucket can rely on the codec (`Codec.json_lawful`). All that is written is a
plain document, whose text is read as the document; it remains that the document is read as the
value: a structure has each of its fields once, and a map has its rows in the order of their names.

An optional value is read back only if no value of its type is written as `null`
(`faithful_option`): `some none` would be read as `none`. -/

namespace IndexedStore

namespace Json

/-- Every value is written as a plain document, which is read as the value. -/
class Faithful (α : Type) [Form α] : Prop where
  plain : ∀ value : α, Plain (Form.write value)
  read?_write : ∀ value : α, Form.read? (Form.write value) = some value

variable {α : Type} [Form α]

/-- **A value** of a faithful form is read back from its bytes. -/
theorem Faithful.decode?_encode [Faithful α] (value : α) : decode? (encode value) = some value := by
  rw [decode?, encode, (Faithful.plain value).read?_print, Option.bind_some, Faithful.read?_write]

/-! ## Plain values -/

instance : Faithful String where
  plain text := .string (Utf8.encode text)
  read?_write := bodyText?_escape

theorem natural?_ofNat {bound n : Nat} (h : n < bound) : natural? bound (ofNat n) = some n := by
  rw [ofNat, natural?, Decimal.below?_eq, Decimal.value?_digits]
  simp [h]

instance : Faithful UInt8 where
  plain n := .number n.toNat
  read?_write n := by simp [Form.read?, Form.write, natural?_ofNat n.toNat_lt]

instance : Faithful UInt16 where
  plain n := .number n.toNat
  read?_write n := by simp [Form.read?, Form.write, natural?_ofNat n.toNat_lt]

instance : Faithful UInt32 where
  plain n := .number n.toNat
  read?_write n := by simp [Form.read?, Form.write, natural?_ofNat n.toNat_lt]

instance : Faithful UInt64 where
  plain n := .number n.toNat
  read?_write n := by simp [Form.read?, Form.write, natural?_ofNat n.toNat_lt]

/-! ## Compound values -/

theorem mapM_map_eq_some {α β γ : Type} {f : α → β} {g : β → Option γ} {k : α → γ}
    (h : ∀ a, g (f a) = some (k a)) (list : List α) : (list.map f).mapM g = some (list.map k) := by
  have hg : g ∘ f = fun a => pure (k a) := funext h
  rw [List.mapM_map, hg, List.mapM_pure]
  rfl

instance [Faithful α] : Faithful (List α) where
  plain values := .array (by simpa using fun value _ => Faithful.plain value)
  read?_write values := by
    show (values.map Form.write).mapM Form.read? = some values
    rw [mapM_map_eq_some Faithful.read?_write, List.map_id']

/-- **An optional value** is faithful if no value is written as `null`. -/
theorem faithful_option [Faithful α] (h : ∀ value : α, Form.write value ≠ .null) :
    Faithful (Option α) where
  plain value := by
    cases value with
    | none => exact .null
    | some value => exact Faithful.plain value
  read?_write value := by
    cases value with
    | none => rfl
    | some value =>
      have hvalue := Faithful.read?_write value
      simp only [Form.read?, Form.write]
      split
      · next hnull => exact absurd hnull (h value)
      · rw [hvalue]
        rfl

theorem plain_object {list : List (Bytes × Json)}
    (h : ∀ member ∈ list, (∃ bytes, member.1 = escape bytes) ∧ Plain member.2) :
    Plain (.object list) :=
  .object (fun member hmember => (h member hmember).1) fun member hmember => (h member hmember).2

/-- The names of an object are read if they are escaped texts. -/
theorem members?_object (rows : List (String × Json)) :
    members? (.object (rows.map fun row => (escape (Utf8.encode row.1), row.2))) = some rows := by
  have h := mapM_map_eq_some (f := fun row : String × Json => (escape (Utf8.encode row.1), row.2))
    (g := fun member => (bodyText? member.1).map (·, member.2)) (k := id)
    (fun row => by simp [bodyText?_escape]) rows
  rw [List.map_id] at h
  exact h

theorem members?_bind {β : Type} (rows : List (String × Json))
    (f : List (String × Json) → Option β) :
    (members? (.object (rows.map fun row => (escape (Utf8.encode row.1), row.2)))).bind f
      = f rows := by
  rw [members?_object]
  rfl

instance [Faithful α] : Faithful (OrderedMap String α) where
  plain m := by
    refine plain_object fun member hmember => ?_
    obtain ⟨row, -, rfl⟩ := List.mem_map.mp hmember
    exact ⟨⟨_, rfl⟩, Faithful.plain row.2⟩
  read?_write m := by
    have hmembers : members? (Form.write m)
        = some (m.toList.map fun row => (row.1, Form.write row.2)) := by
      have h := members?_object (m.toList.map fun row => (row.1, Form.write row.2))
      rw [List.map_map] at h
      exact h
    have hrows := mapM_map_eq_some (f := fun row : String × α => (row.1, Form.write row.2))
      (g := fun member => (Form.read? member.2).map (member.1, ·)) (k := id)
      (fun row => by simp [Faithful.read?_write]) m.toList
    rw [List.map_id] at hrows
    show (members? (Form.write m)).bind _ = _
    rw [hmembers]
    simp [hrows, OrderedMap.ofList_toList]

/-! ## Structures -/

theorem plain_member [Faithful α] (name : String) (value : α) :
    (∃ bytes, (member name value).1 = escape bytes) ∧ Plain (member name value).2 :=
  ⟨⟨_, rfl⟩, Faithful.plain value⟩

instance : Faithful BucketConfig where
  plain config := plain_object (by simp [plain_member])
  read?_write config := by
    refine (members?_bind [("name", Form.write config.name),
      ("indices", Form.write config.indices)] _).trans ?_
    simp [field?, fieldOr?, named, Faithful.read?_write]

instance : Faithful EngineConfig where
  plain config := plain_object (by simp [plain_member])
  read?_write config := by
    refine (members?_bind [("cache_size_bytes", Form.write config.cacheSize)] _).trans ?_
    simp [fieldOr?, named, Faithful.read?_write]

instance : Faithful Descriptor where
  plain descriptor := plain_object (by simp [plain_member])
  read?_write descriptor := by
    refine (members?_bind [("format_version", Form.write descriptor.formatVersion),
      ("indices", Form.write descriptor.indices)] _).trans ?_
    simp [field?, named, Faithful.read?_write]

instance : Faithful Blob where
  plain blob := plain_object (by simp [plain_member])
  read?_write blob := by
    refine (members?_bind [("key", Form.write blob.key),
      ("fields", Form.write blob.fields)] _).trans ?_
    simp [field?, named, Faithful.read?_write]

/-- The number of another task is not written as `null`. -/
instance : Faithful (Option UInt64) :=
  faithful_option fun _ => nofun

instance : Faithful Task where
  plain task := plain_object (by simp [plain_member])
  read?_write task := by
    refine (members?_bind [("id", Form.write task.id), ("status", Form.write task.status),
      ("tags", Form.write task.tags), ("attempts", Form.write task.attempts),
      ("parent", Form.write task.parent)] _).trans ?_
    simp [field?, fieldOr?, named, Faithful.read?_write]

end Json

/-! ## Codecs -/

/-- **The JSON codec is lawful** for records of a faithful form. -/
theorem Codec.json_lawful {R : Type} [Json.Form R] [Json.Faithful R] : (Codec.json R).Lawful := by
  intro record bytes h
  cases h
  simp [Codec.json, Json.Faithful.decode?_encode]

/-- **Records, texts, numbers, configurations and descriptors** are read back from their JSON; and
so the JSON codec does for records what a bucket relies on: each is written, and what is stored
reads as what was written. -/
theorem Json.round_trip :
    (∀ task : Task, Json.decode? (Json.encode task) = some task) ∧
    (∀ blob : Blob, Json.decode? (Json.encode blob) = some blob) ∧
    (∀ text : String, Json.decode? (Json.encode text) = some text) ∧
    (∀ n : UInt64, Json.decode? (Json.encode n) = some n) ∧
    (∀ config : BucketConfig, Json.decode? (Json.encode config) = some config) ∧
    (∀ config : EngineConfig, Json.decode? (Json.encode config) = some config) ∧
    (∀ descriptor : Descriptor, Json.decode? (Json.encode descriptor) = some descriptor) ∧
    (∀ task : Task, (Codec.json Task).encode task = .ok (Json.encode task)) ∧
    (Codec.json Task).Lawful ∧
    (∀ blob : Blob, (Codec.json Blob).encode blob = .ok (Json.encode blob)) ∧
    (Codec.json Blob).Lawful := by
  refine ⟨?_, ?_, ?_, ?_, ?_, ?_, ?_, fun _ => rfl, Codec.json_lawful, fun _ => rfl,
    Codec.json_lawful⟩
  all_goals exact Json.Faithful.decode?_encode

end IndexedStore
