import IndexedStore.Proofs.Within

set_option autoImplicit false

/-! # Descriptors are spared

Only the opening of a bucket writes to a metadata table. Every other call that succeeds leaves each
table as it is or leaves a primary or an index table in its place (`Store.Spares`), and a call that
fails leaves all of them (`Operation.reverts`). This is a frame, and edits of the tables of a bucket
are within it, so it holds of a call in whatever context it runs. The one call that does not keep it
at every step is a rebuild: it drops tables without asking for their kind. But none of them stays
dropped, for the index tables that are created in their place are there when it ends
(`Call.rebuild_spares`). -/

namespace IndexedStore

variable {σ α : Type}

/-! ## Stores -/

/-- From one store to another the table of a name is left as it is, or a table of another kind than
metadata tables is left in its place. -/
def Store.SparesAt (s s' : Store) (name : String) : Prop :=
  s'.table? name = s.table? name ∨ ∃ t, s'.table? name = some t ∧ t.kind ≠ .metadata

/-- From one store to another no metadata table is new or changed, and none is lost except to a
table of another kind. -/
def Store.Spares (s s' : Store) : Prop :=
  ∀ name, s.SparesAt s' name

namespace Store

variable {s s' s'' : Store}

theorem SparesAt.trans {name : String} (h : s.SparesAt s' name) (h' : s'.SparesAt s'' name) :
    s.SparesAt s'' name := by
  rcases h' with he | hother
  · rw [SparesAt, he]
    exact h
  · exact .inr hother

theorem Spares.of_eq (h : s' = s) : s.Spares s' := fun _ => .inl (h ▸ rfl)

theorem Spares.trans (h : s.Spares s') (h' : s'.Spares s'') : s.Spares s'' :=
  fun name => (h name).trans (h' name)

theorem spares_put (s : Store) (name : String) {t : Table} (h : t.kind ≠ .metadata) :
    s.Spares (s.put name t) := by
  intro other
  rw [SparesAt, table?_put]
  split
  · exact .inr ⟨t, rfl, h⟩
  · exact .inl rfl

theorem spares_opened (s : Store) (kind : TableKind) (name : String) (h : kind ≠ .metadata) :
    s.Spares (s.opened kind name) := by
  unfold opened
  split
  · refine s.spares_put name ?_
    cases kind <;> exact h
  · exact .of_eq rfl

end Store

/-- The frame in which metadata tables are spared. -/
def Frame.sparing : Frame :=
  ⟨Store.Spares, fun _ => .of_eq rfl, fun h h' => h.trans h'⟩

theorem Frame.sparing_files (indices : List String) : Frame.sparing.Files indices :=
  fun s index _ _ _ _ => s.spares_put index (by simp [Table.kind])

theorem Frame.sparing_edits (config : BucketConfig) : Frame.sparing.Edits config :=
  ⟨fun s _ => s.spares_opened .primary _ (by decide),
    fun s _ _ _ => s.spares_put _ (by simp [Table.kind]), sparing_files _⟩

/-! ## Calls -/

namespace Call

variable {R : Type} [Record R]

/-- **A rebuild** spares the metadata tables that are not named like an index. One that is named so
is dropped, but its place is taken by the index table that is created. -/
theorem rebuild_spares (primary : String) (codec : Codec R) (indices : List String) :
    Within .sparing (rebuild primary codec indices : Call σ Nat) := by
  intro c n c' h
  obtain ⟨-, s, hthere, hother, hfiled⟩ := of_rebuild h
  refine Store.Spares.trans (fun name => ?_) (hfiled .sparing (Frame.sparing_files indices))
  by_cases hindex : name ∈ indices
  · obtain ⟨entries, hentries⟩ := hthere name hindex
    exact .inr ⟨_, hentries, by simp [Table.kind]⟩
  · have hkept := Store.table?_dropEach indices c.store name
    rw [if_neg hindex] at hkept
    have hopened := Store.spares_opened (indices.foldl Store.drop c.store) .primary
      primary (by decide) name
    rw [Store.SparesAt, hkept] at hopened
    rw [Store.SparesAt, hother name hindex]
    exact hopened

/-- Building indices spares the metadata tables. -/
theorem build_spares (config : BucketConfig) (codec : Codec R) (indices : List String) :
    Within .sparing (build config codec indices : Call σ Nat) := by
  unfold build
  split
  · exact .pure 0
  · exact .bind (rebuild_spares _ _ _) fun n => .bind (Reads.log _).within fun _ => .pure n

end Call

/-! ## The calls of a bucket -/

variable {R : Type} [Record R]

theorem Bucket.reindex_spares (b : Bucket R) :
    Call.Within .sparing (b.reindex : Call σ Unit) :=
  Call.Within.stepwise.logged (.bind (Call.rebuild_spares _ _ _) fun _ =>
    .bind Call.Reads.look.within fun _ => .pure _) _

/-- **A call on a bucket** that succeeds has spared the metadata tables, if its mutators spare them. -/
theorem Operation.spares (b : Bucket R) {op : Operation σ R α}
    (h : op.Mutators (Mutator.Within .sparing)) : Call.Within .sparing (op.call b) :=
  Call.Within.stepwise.operation b (Frame.sparing_edits b.config) b.reindex_spares
    (h.imp fun _ hmutator => hmutator.mutate)

end IndexedStore
