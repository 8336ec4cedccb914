import IndexedStore.Index

set_option autoImplicit false

/-! # Calls that nothing disturbs

In a quiet context no cancelled token is looked at and no reaction is to come. There a call is a
function of the store: looking and passing do nothing, the codec and the records answer what they
answer, and a table that exists as the kind it is opened as is open at once. -/

namespace IndexedStore

variable {σ α β : Type}

/-- No cancelled token is looked at and no reaction is to come. -/
structure Context.Quiet (c : Context σ) : Prop where
  deaf : (c.attentive && c.cancelled) = false
  calm : c.alarm = none

theorem Context.Quiet.setStore {c : Context σ} (h : c.Quiet) (s : Store) :
    ({ c with store := s } : Context σ).Quiet :=
  ⟨h.deaf, h.calm⟩

theorem Context.Quiet.setLog {c : Context σ} (h : c.Quiet) (l : List Event) :
    ({ c with log := l } : Context σ).Quiet :=
  ⟨h.deaf, h.calm⟩

theorem Context.quiet_quiet (s : Store) (l : List Event) (x : σ) : (Call.quiet s l x).Quiet :=
  ⟨rfl, rfl⟩

namespace Call

theorem lift_ok {ε : Type} {wrap : ε → BucketError} {r : Except ε α} {a : α} (h : r = .ok a)
    (c : Context σ) : lift wrap r c = .ok a c := by
  rw [h]
  rfl

theorem lift_error {ε : Type} {wrap : ε → BucketError} {r : Except ε α} {e : ε}
    (h : r = .error e) (c : Context σ) : lift wrap r c = .error (.failed (wrap e)) c := by
  rw [h]
  rfl

/-! ## Points -/

theorem pass_ok {c : Context σ} (hc : c.Quiet) (point : Point) : pass point c = .ok () c := by
  simp only [pass, hc.calm]

theorem look_ok {c : Context σ} (hc : c.Quiet) : look c = .ok () c := by
  rw [look, bind_ok (pass_ok hc .look)]
  show (if c.attentive && c.cancelled then fail .cancelled else pure ()) c = .ok () c
  rw [hc.deaf]
  rfl

theorem lookEach_ok {c : Context σ} (hc : c.Quiet) (l : List β) : lookEach l c = .ok () c := by
  induction l with
  | nil => rfl
  | cons _ rest ih => rw [lookEach, bind_ok (look_ok hc), ih]

variable {R : Type}

theorem encode_eq {c : Context σ} (hc : c.Quiet) (codec : Codec R) (record : R) :
    encode codec record c = lift .codec (codec.encode record) c := by
  rw [encode, bind_ok (pass_ok hc .encode)]

theorem decode_eq {c : Context σ} (hc : c.Quiet) (codec : Codec R) (bytes : Bytes) :
    decode codec bytes c = lift .codec (codec.decode bytes) c := by
  rw [decode, bind_ok (pass_ok hc .decode)]

theorem encode_ok {c : Context σ} (hc : c.Quiet) {codec : Codec R} {record : R} {bytes : Bytes}
    (h : codec.encode record = .ok bytes) : encode codec record c = .ok bytes c := by
  rw [encode_eq hc, lift_ok h]

theorem decode_ok {c : Context σ} (hc : c.Quiet) {codec : Codec R} {record : R} {bytes : Bytes}
    (h : codec.decode bytes = .ok record) : decode codec bytes c = .ok record c := by
  rw [decode_eq hc, lift_ok h]

theorem entriesOf_eq [Record R] {c : Context σ} (hc : c.Quiet) (record : R) (index : String) :
    entriesOf record index c = lift .oversized (Index.entries record index) c := by
  rw [entriesOf, bind_ok (pass_ok hc .index)]

/-! ## Tables -/

theorem readPrimary_ok {s : Store} {name : String} {stored : OrderedMap Bytes Bytes}
    (h : s.table? name = some (.primary stored)) : s.readPrimary name = .ok stored := by
  simp only [Store.readPrimary, h]

theorem rows_ok {c : Context σ} {name : String} {stored : OrderedMap Bytes Bytes}
    (h : c.store.table? name = some (.primary stored)) : rows name c = .ok stored c := by
  rw [rows, bind_ok (store_run c), lift_ok (readPrimary_ok h)]

theorem ensure_ok {s : Store} {kind : TableKind} {name : String} {t : Table}
    (h : s.table? name = some t) (hkind : t.kind = kind) : s.ensure kind name = .ok s := by
  simp only [Store.ensure, h, if_pos hkind]

/-- A table that exists is opened as its kind without an effect. -/
theorem openTable_ok {c : Context σ} {kind : TableKind} {name : String} {t : Table}
    (h : c.store.table? name = some t) (hkind : t.kind = kind) :
    openTable kind name c = .ok () c :=
  change_run (congrArg (Except.mapError BucketError.table) (ensure_ok h hkind))

theorem openIndex_ok {s : Store} {index : String} {t : Table} (h : s.table? index = some t)
    (hkind : t.kind = .index) : s.openIndex index = .ok s := by
  rw [Store.openIndex, h, ensure_ok h hkind]
  rfl

/-- Index tables that exist are opened without an effect. -/
theorem openIndices_ok {c : Context σ} {indices : List String}
    (h : ∀ index ∈ indices, ∃ entries, c.store.table? index = some (.index entries)) :
    openIndices indices c = .ok () c := by
  induction indices with
  | nil => rfl
  | cons index rest ih =>
    obtain ⟨⟨entries, hentries⟩, hrest⟩ := List.forall_mem_cons.mp h
    rw [openIndices, bind_ok (change_run (openIndex_ok hentries rfl))]
    exact ih hrest

/-! ## Ends -/

theorem atomically_ok {x : Call σ α} {c c' : Context σ} {a : α} (h : x c = .ok a c') :
    atomically x c = .ok a c' := by
  simp only [atomically, h]

theorem atomically_error {x : Call σ α} {c c' : Context σ} {stop : Stop}
    (h : x c = .error stop c') : atomically x c = .error stop { c' with store := c.store } := by
  simp only [atomically, h]

end Call

end IndexedStore
