import IndexedStore.Proofs.Stepwise
import IndexedStore.Bucket.Open

set_option autoImplicit false

/-! # Failed calls leave the store alone

A call that reads never changes the store (`Call.Reads`). A call that writes does so within one
transaction, does nothing that can fail after it, and so a failure leaves every table and the set
of tables as they were (`Call.Reverts`). Both are kept by sequencing, so each follows the text of a
call; where in it the failure happens, and whose it is, does not matter: a codec, a mutator, a
panic, a cancelled token, a rebuild that has dropped its tables already. -/

namespace IndexedStore

variable {σ α β : Type}

/-! ## How calls end -/

namespace Call

/-- The context that a computation ends with. -/
def context {ε : Type} : EStateM.Result ε (Context σ) α → Context σ
  | .ok _ c => c
  | .error _ c => c

/-- What the caller learns and what the store is after a call. -/
def outcome : EStateM.Result Stop (Context σ) α → Except Stop α × Store
  | .ok value c => (.ok value, c.store)
  | .error stop c => (.error stop, c.store)

theorem outcome_eq_error {r : EStateM.Result Stop (Context σ) α} {stop : Stop} {s : Store}
    (h : outcome r = (.error stop, s)) : ∃ c, r = .error stop c ∧ c.store = s := by
  cases r with
  | ok value c =>
    simp only [outcome, Prod.mk.injEq, reduceCtorEq, false_and] at h
  | error stop' c =>
    simp only [outcome, Prod.mk.injEq, Except.error.injEq] at h
    obtain ⟨rfl, rfl⟩ := h
    exact ⟨c, rfl, rfl⟩

/-- A call that is run and ends with a value, of which something is checked. -/
theorem ok_of_check {x : Call σ α} {c : Context σ} (p : α → Bool)
    (h : (match x c with | .ok a _ => p a | .error _ _ => false) = true) :
    ∃ a, x c = .ok a (context (x c)) ∧ p a = true := by
  cases hrun : x c with
  | ok a c' =>
    rw [hrun] at h
    exact ⟨a, rfl, h⟩
  | error stop c' =>
    rw [hrun] at h
    cases h

/-- A call that is run and ends, of which the context that it leaves is checked. -/
theorem ran_of_check {x : Call σ Unit} {c : Context σ} (p : Context σ → Bool)
    (h : (match x c with | .ok _ c' => p c' | .error _ _ => false) = true) :
    ∃ c', x c = .ok () c' ∧ p c' = true := by
  cases hrun : x c with
  | ok a c' =>
    rw [hrun] at h
    exact ⟨c', rfl, h⟩
  | error stop c' =>
    rw [hrun] at h
    cases h

/-- A call that is run and stops, of which the stop is checked. -/
theorem error_of_check {x : Call σ α} {c : Context σ} (p : Stop → Bool)
    (h : (match x c with | .ok _ _ => false | .error stop _ => p stop) = true) :
    ∃ stop, x c = .error stop (context (x c)) ∧ p stop = true := by
  cases hrun : x c with
  | ok a c' =>
    rw [hrun] at h
    cases h
  | error stop c' =>
    rw [hrun] at h
    exact ⟨stop, rfl, h⟩

/-- The call ends with the store it began with. -/
def Reads (x : Call σ α) : Prop :=
  ∀ c, (context (x c)).store = c.store

/-- If the call stops, the store is the one it began with. -/
def Reverts (x : Call σ α) : Prop :=
  ∀ c stop c', x c = .error stop c' → c'.store = c.store

/-! ## Calls that read -/

namespace Reads

theorem pure (a : α) : Reads (pure a : Call σ α) := fun _ => rfl

theorem fail (error : BucketError) : Reads (fail error : Call σ α) := fun _ => rfl

theorem log (event : Event) : Reads (log event : Call σ Unit) := fun _ => rfl

theorem store : Reads (store : Call σ Store) := fun _ => rfl

theorem bind {x : Call σ α} {f : α → Call σ β} (hx : Reads x) (hf : ∀ a, Reads (f a)) :
    Reads (x >>= f) := by
  intro c
  have hfirst := hx c
  cases h : x c with
  | ok a c' =>
    rw [h] at hfirst
    rw [bind_ok h, hf a c', ← hfirst]
    rfl
  | error stop c' =>
    rw [h] at hfirst
    rw [bind_error h, ← hfirst]
    rfl

theorem pass (point : Point) : Reads (pass point : Call σ Unit) := by
  intro c
  unfold Call.pass
  split
  · rfl
  · split
    · split
      · rfl
      · split <;> rfl
    · rfl

theorem look : Reads (look : Call σ Unit) := by
  refine bind (pass .look) fun _ => bind (fun _ => rfl) fun c => ?_
  split
  · exact fail .cancelled
  · exact pure ()

/-- A change that changes nothing. -/
theorem change {f : Store → Except BucketError Store} (h : ∀ s s', f s = .ok s' → s' = s) :
    Reads (change f : Call σ Unit) := by
  intro c
  cases hf : f c.store with
  | ok s =>
    rw [change_run hf]
    exact h c.store s hf
  | error error => rw [change_refused hf, context]

theorem atomically {x : Call σ α} (hx : Reads x) : Reads (atomically x) := by
  intro c
  have hsame := hx c
  unfold Call.atomically
  cases h : x c with
  | ok a c' =>
    rw [h] at hsame
    exact hsame
  | error stop c' => rfl

/-- **Every call that reads** ends with the store it began with, for its steps do. -/
theorem stepwise : Stepwise (σ := σ) .unchanged Reads :=
  ⟨⟨pure, fail, log, pass, look, bind⟩, store, change, atomically⟩

theorem of_ok {x : Call σ α} (hx : Reads x) {c c' : Context σ} {a : α}
    (h : x c = .ok a c') : c'.store = c.store := by
  have hstore := hx c
  rwa [h] at hstore

end Reads

/-! ## Calls that undo what they did -/

theorem Reads.reverts {x : Call σ α} (h : Reads x) : Reverts x := by
  intro c stop c' hstop
  have hstore := h c
  rw [hstop] at hstore
  exact hstore

namespace Reverts

theorem store_eq {x : Call σ α} (hx : Reverts x) {c : Context σ} {stop : Stop} {s : Store}
    (h : outcome (x c) = (.error stop, s)) : s = c.store := by
  obtain ⟨c', hstop, rfl⟩ := outcome_eq_error h
  exact hx c stop c' hstop

theorem atomically (x : Call σ α) : Reverts (atomically x) := by
  intro c stop c' h
  unfold Call.atomically at h
  cases hx : x c with
  | ok value c₁ =>
    rw [hx] at h
    cases h
  | error stop₁ c₁ =>
    rw [hx] at h
    cases h
    rfl

/-- A call may read before it does what can be undone. -/
theorem after_reads {x : Call σ α} {f : α → Call σ β} (hx : Reads x) (hf : ∀ a, Reverts (f a)) :
    Reverts (x >>= f) := by
  intro c stop c' h
  have hfirst := hx c
  cases hxc : x c with
  | ok a c₁ =>
    rw [hxc] at hfirst
    rw [bind_ok hxc] at h
    exact (hf a c₁ stop c' h).trans hfirst
  | error stop₁ c₁ =>
    rw [hxc] at hfirst
    rw [bind_error hxc] at h
    cases h
    exact hfirst

/-- Nothing that can fail may follow what is not undone any more. -/
theorem before_total {x : Call σ α} {f : α → Call σ β} (hx : Reverts x)
    (hf : ∀ a c, ∃ b c', f a c = .ok b c') : Reverts (x >>= f) := by
  intro c stop c' h
  cases hxc : x c with
  | ok a c₁ =>
    -- The second part always ends with a value, so it is not what stopped.
    obtain ⟨b, c₂, hb⟩ := hf a c₁
    rw [bind_ok hxc, hb] at h
    cases h
  | error stop₁ c₁ =>
    rw [bind_error hxc] at h
    cases h
    exact hx c _ _ hxc

/-- A transaction whose end is logged. -/
theorem logged {x : Call σ α} (event : α → Event) : Reverts (do
    look
    let a ← Call.atomically x
    Call.log (event a) : Call σ Unit) :=
  after_reads .look fun _ => before_total (atomically x) fun a c => ⟨(), _, log_run (event a) c⟩

theorem offloaded {x : Call σ α} (hx : Reverts x) : Reverts (offloaded x) := by
  intro c stop c' h
  have hlooked : Reverts (do Call.look; x : Call σ α) := after_reads .look fun _ => hx
  unfold Call.offloaded at h
  cases hr : (do Call.look; x : Call σ α) c with
  | ok value c₁ =>
    rw [hr] at h
    cases h
  | error stop₁ c₁ =>
    rw [hr] at h
    have hstore := hlooked c stop₁ c₁ hr
    -- A panic changes its name, not the context.
    cases stop₁ <;> cases h <;> exact hstore

end Reverts

end Call

/-! ## The calls of a bucket -/

variable {R : Type} [Record R]

/-- A call that changes a bucket is one transaction, whose end is logged. -/
theorem Write.reverts (b : Bucket R) (w : Write σ R) : Call.Reverts (w.call b) := by
  cases w with
  | insert records => exact .logged _
  | update records mutator =>
    exact .logged (α := Nat × Nat) fun counts => .updated counts.1 counts.2
  | delete keys => exact .logged (α := Nat × Nat) fun counts => .deleted counts.1 counts.2
  | reindex => exact .logged _

/-- **A call on a bucket that fails leaves the store as it was.** -/
theorem Operation.reverts (b : Bucket R) (op : Operation σ R α) : Call.Reverts (op.call b) := by
  cases op with
  | write w => exact w.reverts b
  | read keys => exact (Call.Reads.stepwise.read b keys).reverts
  | readRaw key => exact (Call.Reads.stepwise.readRaw b key).reverts
  | list offset limit => exact (Call.Reads.stepwise.list b offset limit).reverts
  | readIndex index values => exact (Call.Reads.stepwise.readIndex b index values).reverts
  | verify => exact (Call.Reads.stepwise.verify b).reverts

/-- **A bucket that is not opened leaves the store as it was.** -/
theorem Call.openBucket_reverts (config : BucketConfig) (codec : Codec R) :
    Call.Reverts (openBucket config codec : Call σ (Bucket R)) :=
  .after_reads (Reads.stepwise.lift _ _) fun _ => .before_total (.atomically _) fun reconciliation _ =>
    ⟨⟨config, codec, reconciliation⟩, _, rfl⟩

end IndexedStore
