import IndexedStore.Proofs.Stepwise
import IndexedStore.Proofs.Tables

set_option autoImplicit false

/-! # Calls that succeed

A token and an alarm can make a call fail, and nothing else: they are never asked what to do to the
store. So a call that succeeds, in whatever context, does the same in the quiet context with the same
store and the same log (`Call.Undisturbed`), and what is known of calls in quiet contexts holds of
it. -/

namespace IndexedStore

variable {σ α β : Type}

/-- The context with nothing in it that could disturb a call. -/
def Context.undisturbed (c : Context σ) : Context σ :=
  { c with attentive := false, cancelled := false, alarm := none }

theorem Context.quiet_undisturbed (c : Context σ) : c.undisturbed.Quiet :=
  ⟨rfl, rfl⟩

namespace Call

/-- Where the call succeeds, it does the same undisturbed. -/
def Undisturbed (x : Call σ α) : Prop :=
  ∀ c a c', x c = .ok a c' → x c.undisturbed = .ok a c'.undisturbed

namespace Undisturbed

theorem pure (a : α) : Undisturbed (pure a : Call σ α) := by
  rintro c _ _ ⟨⟩
  rfl

theorem fail (error : BucketError) : Undisturbed (fail error : Call σ α) := by
  rintro c a c' ⟨⟩

theorem log (event : Event) : Undisturbed (log event : Call σ Unit) := by
  rintro c _ _ ⟨⟩
  rfl

theorem store : Undisturbed (store : Call σ Store) := by
  rintro c _ _ ⟨⟩
  rfl

theorem change (f : Store → Except BucketError Store) :
    Undisturbed (change f : Call σ Unit) := by
  intro c a c' h
  obtain ⟨hchanged, hc'⟩ := of_change h
  rw [hc', change_run (c := c.undisturbed) hchanged]
  rfl

theorem bind {x : Call σ α} {f : α → Call σ β} (hx : Undisturbed x) (hf : ∀ a, Undisturbed (f a)) :
    Undisturbed (x >>= f) := by
  intro c b c' h
  obtain ⟨a, c₁, hfirst, hrest⟩ := of_bind_ok h
  exact (bind_ok (hx c a c₁ hfirst)).trans (hf a c₁ b c' hrest)

/-- A point that is passed leaves its mark on the alarm and the token only. -/
theorem pass (point : Point) : Undisturbed (pass point : Call σ Unit) := by
  intro c a c' h
  have hpass : Call.pass point c.undisturbed = .ok () c.undisturbed :=
    pass_ok c.quiet_undisturbed point
  rw [hpass]
  unfold Call.pass at h
  split at h
  · cases h
    rfl
  · split at h
    · split at h
      · cases h
        rfl
      · split at h
        · cases h
          rfl
        · cases h
    · cases h
      rfl

theorem look : Undisturbed (look : Call σ Unit) := by
  refine bind (pass .look) fun _ c a c' h => ?_
  change (if c.attentive && c.cancelled then Call.fail .cancelled else Pure.pure ()) c
    = .ok a c' at h
  split at h
  · cases h
  · cases h
    rfl

theorem atomically {x : Call σ α} (hx : Undisturbed x) : Undisturbed (atomically x) := by
  intro c a c' h
  exact atomically_ok (hx c a c' (of_atomically_ok h))

/-- **Every call** that succeeds does the same undisturbed, for its steps do. -/
theorem stepwise : Stepwise (σ := σ) .any Undisturbed :=
  ⟨⟨pure, fail, log, pass, look, bind⟩, store, fun _ => change _, atomically⟩

end Undisturbed

/-- A transaction that was committed and logged is one in the quiet context, which only adds the event
to the log. -/
theorem of_transaction {x : Call σ α} (hx : Undisturbed x) {event : α → Event} {c c' : Context σ}
    (h : (do
      look
      let a ← atomically x
      log (event a) : Call σ Unit) c = .ok () c') :
    ∃ a c₂, x c.undisturbed = .ok a c₂ ∧ c'.store = c₂.store ∧ c'.log = c₂.log ++ [event a] := by
  have hquiet := Undisturbed.stepwise.logged hx event c () c' h
  rw [bind_ok (look_ok c.quiet_undisturbed)] at hquiet
  obtain ⟨a, c₂, hatomic, hlog⟩ := of_bind_ok hquiet
  have hend : ({ c₂ with log := c₂.log ++ [event a] } : Context σ) = c'.undisturbed :=
    (EStateM.Result.ok.inj hlog).2
  refine ⟨a, c₂, of_atomically_ok hatomic, ?_, ?_⟩
  · show c'.undisturbed.store = c₂.store
    rw [← hend]
  · show c'.undisturbed.log = c₂.log ++ [event a]
    rw [← hend]

end Call

end IndexedStore
