import IndexedStore.Proofs.Rollback

set_option autoImplicit false

/-! # Calls within a frame

A call that succeeds has done only what a frame allows (`Call.Within`), in whatever context, if the
frame allows the few edits that the call is made of. A rebuild is not made of such edits alone, for it
drops tables first; it is taken apart at the point where the tables are there again
(`Call.of_rebuild`). And what the mutator of an update does to the live transaction is the caller's: it
has to be within the frame itself (`Mutator.Within`). -/

namespace IndexedStore

variable {σ α β : Type}

namespace Call

/-- If the call succeeds, it has done only what the frame allows. -/
def Within (F : Frame) (x : Call σ α) : Prop :=
  ∀ c a c', x c = .ok a c' → F.holds c.store c'.store

variable {F : Frame}

theorem Reads.within {x : Call σ α} (h : Reads x) : Within F x :=
  fun _ _ _ hrun => Frame.of_eq (h.of_ok hrun)

namespace Within

theorem pure (a : α) : Within F (pure a : Call σ α) := (Reads.pure a).within

theorem bind {x : Call σ α} {f : α → Call σ β} (hx : Within F x) (hf : ∀ a, Within F (f a)) :
    Within F (x >>= f) := by
  intro c b c' h
  obtain ⟨a, c₁, hrun, hrest⟩ := of_bind_ok h
  exact F.trans (hx c a c₁ hrun) (hf a c₁ b c' hrest)

theorem change {f : Store → Except BucketError Store} (h : ∀ s s', f s = .ok s' → F.holds s s') :
    Within F (change f : Call σ Unit) :=
  fun c _ c' hrun => h c.store c'.store (of_change hrun).1

theorem atomically {x : Call σ α} (hx : Within F x) : Within F (atomically x) :=
  fun c a c' h => hx c a c' (of_atomically_ok h)

/-- **Every call** made of steps that the frame allows is within it. -/
theorem stepwise : Stepwise (σ := σ) F (Within F) where
  pure := pure
  fail error := (Reads.fail error).within
  log event := (Reads.log event).within
  pass point := (Reads.pass point).within
  look := Reads.look.within
  bind := bind
  store := Reads.store.within
  change := change
  atomically := atomically

end Within

/-- A call through the facade that succeeds has looked at the token and succeeded. -/
theorem of_offloaded {x : Call σ α} {c c' : Context σ} {a : α} (h : offloaded x c = .ok a c') :
    (do look; x : Call σ α) c = .ok a c' := by
  unfold Call.offloaded at h
  cases hrun : (do Call.look; x : Call σ α) c with
  | ok value c₁ =>
    rw [hrun] at h
    exact h
  | error stop c₁ =>
    rw [hrun] at h
    cases stop <;> cases h

theorem Within.offloaded {x : Call σ α} (hx : Within F x) : Within F (offloaded x) :=
  fun c a c' h => bind Reads.look.within (fun _ => hx) c a c' (of_offloaded h)

/-! ## Rebuilding -/

/-- Index tables that were created are there, and no others were touched. -/
theorem of_createIndices {indices : List String} {c c' : Context σ}
    (h : createIndices indices c = .ok () c') :
    (∀ index ∈ indices, ∃ entries, c'.store.table? index = some (.index entries)) ∧
      ∀ name, name ∉ indices → c'.store.table? name = c.store.table? name := by
  induction indices generalizing c with
  | nil =>
    cases h
    exact ⟨fun index hindex => (by cases hindex), fun _ _ => rfl⟩
  | cons index rest ih =>
    obtain ⟨⟨⟩, c₁, hopen, hrest⟩ := of_bind_ok h
    obtain ⟨hkind, rfl⟩ := of_openTable hopen
    obtain ⟨hthere, hother⟩ := ih hrest
    refine ⟨fun i hi => ?_, fun name hname => ?_⟩
    · by_cases hmem : i ∈ rest
      · exact hthere i hmem
      · obtain rfl : i = index := (List.mem_cons.mp hi).resolve_right hmem
        rw [hother i hmem]
        exact Store.table?_opened_index hkind
    · rw [List.mem_cons, not_or] at hname
      rw [hother name hname.2, Store.table?_opened, if_neg hname.1]

/-- **A rebuild** that succeeds comes to a store in which the tables of all indices are there and
the primary table is open, where the tables that had the names of indices were dropped, whatever
they were. From there on it files entries in the index tables. -/
theorem of_rebuild {R : Type} [Record R] {primary : String} {codec : Codec R}
    {indices : List String} {c c' : Context σ} {n : Nat}
    (h : rebuild primary codec indices c = .ok n c') :
    (indices.foldl Store.drop c.store).OfKind .primary primary ∧ ∃ s : Store,
      (∀ index ∈ indices, ∃ entries, s.table? index = some (.index entries)) ∧
      (∀ name, name ∉ indices → s.table? name
        = ((indices.foldl Store.drop c.store).opened .primary primary).table? name) ∧
      ∀ F : Frame, F.Files indices → F.holds s c'.store := by
  obtain ⟨⟨⟩, c₁, hdrop, h⟩ := of_bind_ok h
  cases hdrop
  obtain ⟨⟨⟩, c₂, hopen, h⟩ := of_bind_ok h
  obtain ⟨hkind, rfl⟩ := of_openTable hopen
  obtain ⟨⟨⟩, c₃, hcreate, h⟩ := of_bind_ok h
  obtain ⟨hthere, hother⟩ := of_createIndices hcreate
  refine ⟨hkind, c₃.store, hthere, hother, fun F hF => ?_⟩
  have hrefill : Within F (do
      let stored ← rows primary
      refile codec indices stored.toList
      return stored.size : Call σ Nat) :=
    .bind (Within.stepwise.rows primary) fun _ =>
      .bind (Within.stepwise.refile hF _ _) fun _ => .pure _
  exact hrefill c₃ n c' h

end Call

/-! ## Mutators -/

/-- A mutator that, if it ends with records, has done only what the frame allows. -/
def Mutator.Within {R : Type} (F : Frame) (mutator : Mutator σ R) : Prop :=
  ∀ n records c mutated c', mutator n records c = .ok mutated c' → F.holds c.store c'.store

/-- A mutator that puts an entry into a table and leaves the records as they are. -/
def Mutator.filing {R : Type} (index : String) (entry : Bytes) : Mutator σ R := fun _ records c =>
  .ok records { c with store := c.store.putEntry index entry }

theorem Mutator.filing_within {R : Type} {F : Frame} {indices : List String} (hF : F.Files indices)
    {index : String} (hindex : index ∈ indices) (entry : Bytes) :
    (filing index entry : Mutator σ R).Within F := by
  rintro n records c mutated c' ⟨⟩
  exact hF.putEntries hindex c.store [entry]

theorem Mutator.Within.mutate {R : Type} {F : Frame} {mutator : Mutator σ R}
    (h : mutator.Within F) (records : List R) : Call.Within F (Bucket.mutate mutator records) := by
  intro c mutated c' hrun
  obtain ⟨slice, hmutated, -⟩ := Bucket.of_mutate hrun
  exact h _ _ c slice c' hmutated

end IndexedStore
