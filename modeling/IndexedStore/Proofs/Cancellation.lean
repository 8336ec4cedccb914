import IndexedStore.Proofs.Rollback
import IndexedStore.Record.Card

set_option autoImplicit false

/-! # Cancelled or not called differently

A call with a token and the same call without one are the same program in two contexts. They are run
side by side here: as long as the token stays silent at the places where the call looks at it, both
do the same (`Matches`), and the first place where it does not stay silent ends the call as
cancelled (`Follows`). The steps are so and sequencing keeps it, so it holds of every call
(`Call.Steady.stepwise`), and a call of the facade is either cancelled without a trace or ends as the
call without a token does (`Call.Steady.offloaded`).

The token may fire at any moment: it may be cancelled before, an alarm may cancel it at any passage
through any point, the places where a call looks at it among them, and a mutator may cancel it. What
a mutator must not do is look at it: it is handed records and a transaction, no token. -/

namespace IndexedStore

variable {σ α β : Type}

/-! ## Contexts with and without a token -/

/-- Whether the reaction of an alarm is a failure of the codec. -/
def Alarm.fails (alarm : Alarm) : Bool :=
  match alarm.reaction with
  | .cancel => false
  | .fail _ => true

/-- An alarm that can be: a codec fails where it is called. -/
def Alarm.Possible (alarm : Alarm) : Prop :=
  alarm.fails = true → alarm.point = .encode ∨ alarm.point = .decode

namespace Context

/-- The context of the same call without a token. The codec fails where it did. -/
def withoutToken (c : Context σ) : Context σ :=
  { c with attentive := false, cancelled := false, alarm := c.alarm.filter Alarm.fails }

/-- The second context has no token, and the two agree on all else but the log. -/
structure SameButToken (c d : Context σ) : Prop where
  store : c.store = d.store
  carried : c.carried = d.carried
  failure : c.alarm.filter Alarm.fails = d.alarm.filter Alarm.fails
  deaf : d.attentive = false

theorem sameButToken_withoutToken (c : Context σ) : c.SameButToken c.withoutToken := by
  refine ⟨rfl, rfl, ?_, rfl⟩
  simp only [withoutToken, Option.filter_filter, Bool.and_self]

end Context

/-- Two computations end in the same way, in contexts that are the same but for the token. -/
inductive Matches {ε : Type} :
    EStateM.Result ε (Context σ) α → EStateM.Result ε (Context σ) α → Prop where
  | ok {c d : Context σ} (a : α) (h : c.SameButToken d) : Matches (.ok a c) (.ok a d)
  | error {c d : Context σ} (e : ε) (h : c.SameButToken d) : Matches (.error e c) (.error e d)

/-- The first call is cancelled, or ends as the second does. -/
inductive Follows :
    EStateM.Result Stop (Context σ) α → EStateM.Result Stop (Context σ) α → Prop where
  | same {r t : EStateM.Result Stop (Context σ) α} (h : Matches r t) : Follows r t
  | cancelled {c : Context σ} {t : EStateM.Result Stop (Context σ) α}
      (h : c.cancelled = true) : Follows (.error (.failed .cancelled) c) t

namespace Call

/-- With a token the call is cancelled, or does what it does without one. -/
def Steady (x : Call σ α) : Prop :=
  ∀ c d, c.SameButToken d → Follows (x c) (x d)

/-! ## Steps -/

namespace Steady

theorem pure (a : α) : Steady (pure a : Call σ α) := fun _ _ h => .same (.ok a h)

theorem fail (error : BucketError) : Steady (fail error : Call σ α) := fun _ _ h =>
  .same (.error _ h)

theorem log (event : Event) : Steady (log event : Call σ Unit) := fun _ _ h =>
  .same (.ok () ⟨h.store, h.carried, h.failure, h.deaf⟩)

theorem change (f : Store → Except BucketError Store) : Steady (change f : Call σ Unit) := by
  intro c d h
  cases hf : f d.store with
  | ok s =>
    rw [change_run (h.store ▸ hf), change_run hf]
    exact .same (.ok () ⟨rfl, h.carried, h.failure, h.deaf⟩)
  | error error =>
    rw [change_refused (h.store ▸ hf), change_refused hf]
    exact .same (.error _ h)

theorem store : Steady (store : Call σ Store) := by
  intro c d h
  rw [store_run, store_run, h.store]
  exact .same (.ok d.store h)

theorem bind {x : Call σ α} {f : α → Call σ β} (hx : Steady x) (hf : ∀ a, Steady (f a)) :
    Steady (x >>= f) := by
  intro c d h
  have hfirst := hx c d h
  revert hfirst
  cases hxc : x c with
  | ok a c' =>
    intro hfirst
    rw [bind_ok hxc]
    -- The first part was not cancelled, so without a token it ends with the same value.
    cases hxd : x d with
    | ok a' d' =>
      rw [hxd] at hfirst
      rw [bind_ok hxd]
      cases hfirst with
      | same hmatch =>
        cases hmatch with
        | ok _ hafter => exact hf a c' d' hafter
    | error stop d' =>
      rw [hxd] at hfirst
      cases hfirst with
      | same hmatch => cases hmatch
  | error stop c' =>
    intro hfirst
    rw [bind_error hxc]
    -- What is cancelled stays cancelled, whatever the call without a token goes on to do.
    cases hxd : x d with
    | ok a' d' =>
      rw [hxd] at hfirst
      cases hfirst with
      | same hmatch => cases hmatch
      | cancelled hcancelled => exact .cancelled hcancelled
    | error stop' d' =>
      rw [hxd] at hfirst
      rw [bind_error hxd]
      cases hfirst with
      | same hmatch =>
        cases hmatch with
        | error _ hafter => exact .same (.error stop hafter)
      | cancelled hcancelled => exact .cancelled hcancelled

/-- An alarm that only cancels passes every point. -/
theorem pass_of_no_failure (point : Point) {c : Context σ}
    (h : c.alarm.filter Alarm.fails = none) :
    ∃ c', Call.pass point c = .ok () c' ∧ c'.store = c.store ∧ c'.carried = c.carried ∧
      c'.alarm.filter Alarm.fails = none ∧ c'.attentive = c.attentive := by
  cases ha : c.alarm with
  | none => exact ⟨c, by simp [Call.pass, ha], rfl, rfl, h, rfl⟩
  | some alarm =>
    -- An alarm that the filter drops is one that cancels.
    have hcancel : alarm.reaction = .cancel := by
      rw [ha, Option.filter_some] at h
      cases hr : alarm.reaction with
      | cancel => rfl
      | fail error => simp [Alarm.fails, hr] at h
    by_cases hpoint : alarm.point = point
    · cases hdelay : alarm.delay with
      | zero =>
        refine ⟨{ c with alarm := none, cancelled := true }, ?_, rfl, rfl, rfl, rfl⟩
        simp [Call.pass, ha, hpoint, hdelay, hcancel]
      | succ delay =>
        refine ⟨{ c with alarm := some { alarm with delay } }, ?_, rfl, rfl, ?_, rfl⟩
        · simp [Call.pass, ha, hpoint, hdelay]
        · simp [Alarm.fails, hcancel]
    · exact ⟨c, by simp [Call.pass, ha, hpoint], rfl, rfl, h, rfl⟩

theorem pass (point : Point) : Steady (pass point : Call σ Unit) := by
  intro c d h
  cases hf : c.alarm.filter Alarm.fails with
  | none =>
    obtain ⟨c', hc, hcs, hcc, hca, _⟩ := pass_of_no_failure point hf
    obtain ⟨d', hd, hds, hdc, hda, hdeaf⟩ := pass_of_no_failure point (h.failure ▸ hf)
    rw [hc, hd]
    exact .same (.ok () ⟨by rw [hcs, hds, h.store], by rw [hcc, hdc, h.carried],
      by rw [hca, hda], by rw [hdeaf, h.deaf]⟩)
  | some alarm =>
    -- The codec is to fail, so the alarms are the same one.
    obtain ⟨hc, -⟩ := Option.filter_eq_some_iff.mp hf
    obtain ⟨hd, -⟩ := Option.filter_eq_some_iff.mp (h.failure ▸ hf)
    by_cases hpoint : alarm.point = point
    · cases hdelay : alarm.delay with
      | zero =>
        cases hr : alarm.reaction with
        | cancel =>
          simp only [Call.pass, hc, hd, hpoint, hdelay, hr, if_true]
          exact .same (.ok () ⟨h.store, h.carried, rfl, h.deaf⟩)
        | fail error =>
          simp only [Call.pass, hc, hd, hpoint, hdelay, hr, if_true]
          exact .same (.error _ ⟨h.store, h.carried, rfl, h.deaf⟩)
      | succ delay =>
        simp only [Call.pass, hc, hd, hpoint, hdelay, if_true]
        exact .same (.ok () ⟨h.store, h.carried, rfl, h.deaf⟩)
    · simp only [Call.pass, hc, hd, hpoint, if_false]
      exact .same (.ok () h)

/-- **Looking** at the token either finds it cancelled or changes nothing that matters. -/
theorem look : Steady (look : Call σ Unit) := by
  refine bind (pass .look) fun _ => ?_
  intro c d h
  show Follows ((if c.attentive && c.cancelled then Call.fail .cancelled else Pure.pure ()) c)
    ((if d.attentive && d.cancelled then Call.fail .cancelled else Pure.pure ()) d)
  rw [h.deaf, Bool.false_and, if_neg Bool.false_ne_true]
  split
  next hc => exact .cancelled (Bool.and_eq_true_iff.mp hc).2
  next => exact .same (.ok () h)

/-- A transaction that is undone on both sides is undone to the same store. -/
theorem atomically {x : Call σ α} (hx : Steady x) : Steady (atomically x) := by
  intro c d h
  have hends := hx c d h
  unfold Call.atomically
  revert hends
  generalize x c = r
  generalize x d = t
  intro hends
  cases hends with
  | same hmatch =>
    cases hmatch with
    | ok a hafter => exact .same (.ok a hafter)
    | error stop hafter =>
      -- Both stores go back to where they agreed.
      exact .same (.error stop ⟨h.store, hafter.carried, hafter.failure, hafter.deaf⟩)
  | cancelled hcancelled => exact .cancelled hcancelled

/-- **Every call is steady**, for its steps are. -/
theorem stepwise : Stepwise (σ := σ) .any Steady :=
  ⟨⟨pure, fail, log, pass, look, bind⟩, store, fun _ => change _, atomically⟩

end Steady

end Call

/-! ## Mutators -/

/-- The mutator does the same in contexts that are the same but for the token and the log, neither
of which it is handed. It may cancel the token. -/
def Mutator.IgnoresToken {R : Type} (mutator : Mutator σ R) : Prop :=
  ∀ n records c d, c.SameButToken d → Matches (mutator n records c) (mutator n records d)

namespace Bucket

open Call

theorem mutate_steady {R : Type} {mutator : Mutator σ R} (h : mutator.IgnoresToken)
    (records : List R) : Steady (mutate mutator records) := by
  refine .bind (fun c d hcd => ?_) fun mutated => .pure mutated.val
  have hends := h _ (.whole records) c d hcd
  unfold EStateM.adaptExcept
  revert hends
  generalize mutator records.length (.whole records) c = r
  generalize mutator records.length (.whole records) d = t
  intro hends
  cases hends with
  | ok a hafter => exact .same (.ok a hafter)
  | error stop hafter => exact .same (.error stop.toStop hafter)

end Bucket

/-! ## The facade -/

variable {R : Type} [Record R]

theorem Operation.steady (b : Bucket R) {op : Operation σ R α}
    (h : op.Mutators Mutator.IgnoresToken) : Call.Steady (op.call b) :=
  Call.Steady.stepwise.operation b (Frame.any_edits b.config) (Call.Steady.stepwise.reindex b)
    (h.imp fun _ => Bucket.mutate_steady)

namespace Call

/-- What the facade makes of the end of a call: a panic is reported as an error. -/
def reported : Except Stop α × Store → Except Stop α × Store
  | (.error .panicked, s) =>
    (.error (.failed (.internal "blocking task failed: task panicked")), s)
  | ended => ended

/-- Without a token, looking at it finds nothing. -/
theorem look_withoutToken {c : Context σ} (h : ∀ alarm ∈ c.alarm, alarm.Possible) :
    (look : Call σ Unit) c.withoutToken = .ok () c.withoutToken := by
  have hpass : pass .look c.withoutToken = .ok () c.withoutToken := by
    cases ha : c.alarm.filter Alarm.fails with
    | none => simp only [pass, Context.withoutToken, ha]
    | some alarm =>
      obtain ⟨hmem, hfails⟩ := Option.filter_eq_some_iff.mp ha
      have hpoint : alarm.point ≠ .look := by
        rcases h alarm hmem hfails with hp | hp <;> rw [hp] <;> decide
      simp only [pass, Context.withoutToken, ha, if_neg hpoint]
  rw [look, bind_ok hpass]
  rfl

/-- A steady call that the facade makes is cancelled, or ends as the call without a token. -/
theorem Steady.offloaded {x : Call σ α} (hx : Steady x) {c : Context σ}
    (h : ∀ alarm ∈ c.alarm, alarm.Possible) :
    (∃ c', Call.offloaded x c = .error (.failed .cancelled) c' ∧ c'.cancelled = true) ∨
      outcome (Call.offloaded x c) = reported (outcome (x c.withoutToken)) := by
  have hlooked : Steady (do Call.look; x : Call σ α) := bind look fun _ => hx
  have hfollows := hlooked c c.withoutToken c.sameButToken_withoutToken
  rw [bind_ok (look_withoutToken h)] at hfollows
  unfold Call.offloaded
  revert hfollows
  generalize (do Call.look; x : Call σ α) c = r
  generalize x c.withoutToken = t
  intro hfollows
  cases hfollows with
  | cancelled hcancelled => exact .inl ⟨_, rfl, hcancelled⟩
  | same hmatch =>
    right
    cases hmatch with
    | ok a hafter => simp only [outcome, reported, hafter.store]
    | error stop hafter =>
      -- A panic is told from other ends only here.
      cases stop <;> simp only [outcome, reported, hafter.store]

end Call

/-- **All or nothing.** A call through the facade, whenever its token fires, is cancelled and leaves
the store as it was, or answers and leaves the store as the call without a token does, a panic being
reported as an error. And whatever a call on a bucket or the opening of one fails for, with a token
or without, the store is as it was. -/
theorem Operation.all_or_nothing (b : Bucket R) (op : Operation σ R α) (config : BucketConfig)
    (codec : Codec R) (c : Context σ) :
    (op.Mutators Mutator.IgnoresToken → (∀ alarm ∈ c.alarm, alarm.Possible) →
      (∃ c', (op.call b).offloaded c = .error (.failed .cancelled) c' ∧ c'.cancelled = true ∧
        c'.store = c.store) ∨
      Call.outcome ((op.call b).offloaded c)
        = Call.reported (Call.outcome (op.call b c.withoutToken))) ∧
    (∀ stop s, Call.outcome ((op.call b).offloaded c) = (.error stop, s) → s = c.store) ∧
    (∀ stop s, Call.outcome (op.call b c) = (.error stop, s) → s = c.store) ∧
    (∀ stop s, Call.outcome (Call.openBucket config codec c) = (.error stop, s) → s = c.store) := by
  have hfacade : Call.Reverts (op.call b).offloaded := .offloaded (op.reverts b)
  refine ⟨fun hop hc => ?_, ?_, ?_, ?_⟩
  · rcases (op.steady b hop).offloaded hc with ⟨c', hcancelled, htoken⟩ | hsame
    · exact .inl ⟨c', hcancelled, htoken, hfacade c _ c' hcancelled⟩
    · exact .inr hsame
  · exact fun stop s h => hfacade.store_eq h
  · exact fun stop s h => (op.reverts b).store_eq h
  · exact fun stop s h => (Call.openBucket_reverts config codec).store_eq h

/-! ### A mutator that cancels its own update -/

/-- A mutator that gives all cards a suit, notes that it has run and cancels the token. -/
def Mutator.cancelling (suit : UInt8) : Mutator Bool Card := fun _ cards => do
  modify fun c => { c with cancelled := true, carried := true }
  return ⟨cards.val.map fun card => { card with suit }, by rw [List.length_map, cards.property]⟩

theorem Mutator.cancelling_ignoresToken (suit : UInt8) : (Mutator.cancelling suit).IgnoresToken :=
  fun _ _ _ _ h => .ok _ ⟨h.store, rfl, h.failure, h.deaf⟩

/-- A card is stored, and a call is to come with a token and with a codec that is to fail when a
second record is encoded. -/
def Context.dealt : Context Bool :=
  let cards : BucketConfig := ⟨"cards", ["suit"]⟩
  let c := Call.context (Call.openBucket cards Codec.cards (Call.quiet .empty [] false))
  let b : Bucket Card := ⟨cards, .cards, ⟨none, [], [], 0⟩⟩
  { Call.context (b.insert [⟨[7], 1⟩] c) with
    attentive := true, alarm := some ⟨.encode, 1, .fail (.encode .unexpectedEnd)⟩ }

theorem Operation.all_or_nothing_of_cancelling_mutator :
    let b : Bucket Card := ⟨⟨"cards", ["suit"]⟩, .cards, ⟨none, [], [], 0⟩⟩
    let op : Operation Bool Card Unit := .write (.update [⟨[7], 1⟩] (.cancelling 3))
    let c : Context Bool := .dealt
    op.Mutators Mutator.IgnoresToken ∧ (∀ alarm ∈ c.alarm, alarm.Possible) ∧
      c.carried = false ∧ c.store.rowsIn "cards" = .ofList [([7], [1, 7])] ∧
      (∃ c', (op.call b).offloaded c = .error (.failed .cancelled) c' ∧ c'.cancelled = true ∧
        c'.carried = true ∧ c'.store = c.store) ∧
      ∃ c', op.call b c.withoutToken = .ok () c' ∧
        c'.store.rowsIn "cards" = .ofList [([7], [3, 7])] := by
  intro b op c
  have hmutator : op.Mutators Mutator.IgnoresToken := Mutator.cancelling_ignoresToken 3
  have halarm : ∀ alarm ∈ c.alarm, alarm.Possible := by
    rintro _ ⟨⟩ -
    exact .inl rfl
  obtain ⟨c₁, hrun, hrows⟩ := Call.ran_of_check (x := op.call b) (c := c.withoutToken)
    (fun c' => decide (c'.store.rowsIn "cards" = .ofList [([7], [3, 7])])) (by decide +kernel)
  obtain ⟨stop, hstopped, -⟩ := Call.error_of_check (x := (op.call b).offloaded) (c := c)
    (fun _ => true) (by decide +kernel)
  have hnoted : (Call.context ((op.call b).offloaded c)).carried = true := by decide +kernel
  obtain ⟨c', hcancelled, htoken, hstore⟩ | hsame :=
    (Operation.all_or_nothing b op b.config .cards c).1 hmutator halarm
  · rw [hcancelled] at hnoted
    exact ⟨hmutator, halarm, by decide +kernel, by decide +kernel,
      ⟨c', hcancelled, htoken, hnoted, hstore⟩, c₁, hrun, of_decide_eq_true hrows⟩
  · -- Without the token the call succeeds, but with it it has stopped.
    rw [hstopped, hrun] at hsame
    cases hsame

end IndexedStore
