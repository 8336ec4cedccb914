import IndexedStore.Proofs.Agreement
import IndexedStore.Proofs.Collisions

set_option autoImplicit false

/-! # Buckets beside each other

An index table has the name of its index and nothing of the bucket, so two buckets whose
configurations name the same index share its table. What a call on one of them does to the other is
done through these tables alone: all others stay as they are (`Deed.Leaves.index_eq`,
`Deed.Leaves.primary_eq`), and with them what the other bucket answers about its other indices, and
what a scrub of it finds in them (`Done.isolated`). If the two share no index, all of it stays.

Two things are asked for throughout. No index is built that has the name of the other bucket, for it
takes the place of its rows. And the mutators of updates, which may change any table, leave those that
the other bucket answers from as they are (`Bucket.Uses`). Neither can be done without
(`Done.not_isolated`). -/

namespace IndexedStore

variable {R σ α β : Type}

/-! ## Tables of the other bucket -/

/-- The tables that a bucket answers from: that of its rows and those of its indices. -/
def Bucket.Uses (b : Bucket R) (name : String) : Prop :=
  name = b.name ∨ name ∈ b.indices

namespace Deed

variable {deed : Deed} {s s' : Store} {b : Bucket R} {name : String} {spared : String → Prop}

/-- **An index table** that mutators spare stays as it is unless the index was touched. -/
theorem Leaves.index_eq (h : deed.Leaves spared s' s) {index : String} (hspared : spared index)
    {entries : OrderedSet Bytes} (hindex : s.table? index = some (.index entries))
    (hnot : index ∉ deed.touched) : s'.table? index = s.table? index := by
  cases deed with
  | nothing => rw [show s' = s from h]
  | edit config => exact h.other _ hspared (h.primary.1.ne hindex (by simp [Table.kind])) hnot
  | rebuild config => exact h.other _ (h.kind.ne hindex (by simp [Table.kind])) hnot
  | opening config built =>
    exact h.other _ (h.kinds.1.ne hindex (by simp [Table.kind]))
      (h.kinds.2.ne hindex (by simp [Table.kind])) hnot

/-- **The rows of another bucket** that mutators spare stay as they are, unless an index of its name
was built. -/
theorem Leaves.primary_eq (h : deed.Leaves spared s' s) (hspared : spared name)
    {rows : OrderedMap Bytes Bytes} (hrows : s.table? name = some (.primary rows))
    (hother : ¬ deed.On name) (hbuilt : name ∉ deed.built) :
    s'.table? name = s.table? name := by
  cases deed with
  | nothing => rw [show s' = s from h]
  | edit config =>
    refine h.other _ hspared (fun he => hother he.symm) fun hmem => ?_
    exact (Store.ofKind_of_index ((h.index _ hmem).1 hspared)).ne hrows (by simp [Table.kind]) rfl
  | rebuild config => exact h.other _ (fun he => hother he.symm) hbuilt
  | opening config built =>
    exact h.other _ (fun he => hother he.symm) (h.kinds.2.ne hrows (by simp [Table.kind])) hbuilt

/-- A bucket that a call was made on has rows. -/
theorem Leaves.primary_on (h : deed.Leaves spared s' s) (hspared : spared name)
    (hon : deed.On name) (hthere : s.table? name ≠ none) : ∃ rows, s'.table? name = some (.primary rows) := by
  cases deed with
  | nothing => exact hon.elim
  | edit config =>
    obtain rfl : config.name = name := hon
    obtain ⟨t, ht⟩ := Option.ne_none_iff_exists'.mp (h.lasting config.name hspared hthere)
    have hkind : t.kind = .primary := h.primary.2 t ht
    cases t with
    | primary rows => exact ⟨rows, ht⟩
    | index entries => cases hkind
    | metadata rows => cases hkind
  | rebuild config =>
    obtain rfl : config.name = name := hon
    exact ⟨_, h.rows⟩
  | opening config built =>
    obtain rfl : config.name = name := hon
    exact ⟨_, h.rows⟩

/-- **The tables of a bucket** that mutators spare are there after whatever call, unless an index of
its name was built. -/
theorem Leaves.present (h : deed.Leaves b.Uses s' s) (hb : b.Present s)
    (hbuilt : b.name ∉ deed.built) : b.Present s' := by
  obtain ⟨⟨rows, hrows⟩, hindices⟩ := hb
  refine ⟨?_, fun index hindex => ?_⟩
  · by_cases hon : deed.On b.name
    · exact h.primary_on (.inl rfl) hon (by simp [hrows])
    · exact ⟨rows, (h.primary_eq (.inl rfl) hrows hon hbuilt).trans hrows⟩
  · by_cases hmem : index ∈ deed.touched
    · exact h.index_touched hmem
    · obtain ⟨entries, hentries⟩ := hindices index hindex
      exact ⟨entries, (h.index_eq (.inr hindex) hentries hmem).trans hentries⟩

end Deed

/-- The tables of a bucket that mutators spare are there after any run, unless an index of its name
was built. -/
theorem Run.present {s s' : Store} {deeds : List Deed} {b : Bucket R} (h : Run b.Uses s deeds s')
    (hb : b.Present s) (hbuilt : ∀ deed ∈ deeds, b.name ∉ deed.built) : b.Present s' := by
  induction h with
  | nil s => exact hb
  | cons first rest ih =>
    obtain ⟨hfirst, hrest⟩ := List.forall_mem_cons.mp hbuilt
    exact ih (first.leaves.present hb hfirst) hrest

/-! ## Calls that do not look at the store -/

namespace Call

/-- The end of a call, on another store. -/
def moved (s : Store) : EStateM.Result Stop (Context σ) α → EStateM.Result Stop (Context σ) α
  | .ok a c => .ok a { c with store := s }
  | .error stop c => .error stop { c with store := s }

theorem outcome_moved (s : Store) (r : EStateM.Result Stop (Context σ) α) :
    (outcome (moved s r)).1 = (outcome r).1 := by
  cases r <;> rfl

/-- On another store the call goes as it goes, and leaves that store as it is. -/
def Blind (x : Call σ α) : Prop :=
  ∀ c s, x { c with store := s } = moved s (x c)

namespace Blind

theorem pure (a : α) : Blind (pure a : Call σ α) := fun _ _ => rfl

theorem fail (error : BucketError) : Blind (fail error : Call σ α) := fun _ _ => rfl

theorem bind {x : Call σ α} {f : α → Call σ β} (hx : Blind x) (hf : ∀ a, Blind (f a)) :
    Blind (x >>= f) := by
  intro c s
  have hfirst := hx c s
  cases h : x c with
  | ok a c' =>
    rw [h] at hfirst
    rw [bind_ok h, bind_ok hfirst]
    exact hf a c' s
  | error stop c' =>
    rw [h] at hfirst
    rw [bind_error h, bind_error hfirst]
    rfl

theorem log (event : Event) : Blind (log event : Call σ Unit) := fun _ _ => rfl

theorem pass (point : Point) : Blind (pass point : Call σ Unit) := by
  intro c s
  unfold Call.pass
  dsimp only
  split
  · rfl
  · split
    · split
      · rfl
      · split <;> rfl
    · rfl

theorem look : Blind (look : Call σ Unit) := by
  refine bind (pass .look) fun _ c s => ?_
  show (if c.attentive && c.cancelled then Call.fail .cancelled else Pure.pure ())
    { c with store := s } = moved s ((if c.attentive && c.cancelled then Call.fail .cancelled
      else Pure.pure ()) c)
  split <;> rfl

/-- **Every part of a call** that does not come to the store is blind, for its steps are. -/
theorem sequential : Sequential (σ := σ) Blind := ⟨pure, fail, log, pass, look, bind⟩

end Blind

end Call

namespace Bucket

open Call

/-- What is done with the table of an index once it was looked for. -/
def foundTable (index : String) : Except TableError (OrderedSet Bytes) → Call σ (OrderedSet Bytes)
  | .ok table => return table
  | .error (.absent _) => do
    log .indexMissing
    fail (.missingIndex index)
  | .error error => fail (.table error)

theorem foundTable_blind (index : String) (r : Except TableError (OrderedSet Bytes)) :
    Blind (foundTable index r : Call σ (OrderedSet Bytes)) := by
  unfold foundTable
  split
  · exact .pure _
  · exact .bind (fun _ _ => rfl) fun _ => .fail _
  · exact .fail _

theorem indexTable_eq (index : String) (c : Context σ) :
    indexTable index c = foundTable index (c.store.readIndex index) c := by
  rw [indexTable, bind_ok (store_run c)]
  rfl

/-- Looking at the token does not come between a call and its table. -/
theorem look_indexTable_eq (index : String) (c : Context σ)
    (f : OrderedSet Bytes → Call σ β) :
    (look >>= fun _ => indexTable index >>= f : Call σ β) c
      = (look >>= fun _ => foundTable index (c.store.readIndex index) >>= f : Call σ β) c := by
  cases hlook : (look : Call σ Unit) c with
  | error stop c' => rw [bind_error hlook, bind_error hlook]
  | ok a c' =>
    have htable := indexTable_eq index c'
    rw [Reads.look.of_ok hlook] at htable
    rw [bind_ok hlook, bind_ok hlook]
    cases hfound : foundTable index (c.store.readIndex index) c' with
    | error stop c'' => rw [bind_error hfound, bind_error (htable.trans hfound)]
    | ok table c'' => rw [bind_ok hfound, bind_ok (htable.trans hfound)]

variable (b : Bucket R)

/-- **An index is read** from its own table alone. -/
theorem readIndex_moved {c : Context σ} {s : Store} {index : String}
    (h : index ∈ b.indices → s.table? index = c.store.table? index) (values : List Bytes) :
    b.readIndex index values { c with store := s } = moved s (b.readIndex index values c) := by
  unfold readIndex
  split
  · rfl
  · next hactive =>
    have hread : s.readIndex index = c.store.readIndex index := by
      simp only [Store.readIndex, h (by simpa using hactive)]
    show (look >>= fun _ => indexTable index >>= fun table => lookupEach table .empty values)
        { c with store := s } = moved s ((look >>= fun _ => indexTable index >>= fun table =>
          lookupEach table .empty values) c)
    rw [look_indexTable_eq, look_indexTable_eq, hread]
    exact Blind.bind .look (fun _ => .bind (foundTable_blind _ _) fun table =>
      Blind.sequential.lookupEach table .empty values) c s

end Bucket

/-! ## What a scrub finds -/

/-- What is found in a table is said by the table and by what is expected. -/
theorem IndexIntegrity.Exact.eq {finding finding' : IndexIntegrity} {s s' : Store}
    {expected : OrderedSet Bytes} (h : finding.Exact s expected) (h' : finding'.Exact s' expected)
    (hindex : finding'.index = finding.index)
    (htable : s'.table? finding.index = s.table? finding.index) : finding' = finding := by
  have hentries : s'.entriesIn finding'.index = s.entriesIn finding.index := by
    rw [hindex, Store.entriesIn_congr htable]
  have hmissing : finding'.missing = finding.missing := by
    have hboth := h'.missing
    rw [hentries, h.missing] at hboth
    exact ((List.map_inj_right fun _ _ => Option.some.inj).mp hboth).symm
  have habsent : finding'.tableMissing = finding.tableMissing := by
    rw [Bool.eq_iff_iff, h'.absent, h.absent, hindex, htable]
  have horphaned : finding'.orphaned = finding.orphaned := by
    rw [h'.orphaned, h.orphaned, hentries]
  cases finding
  cases finding'
  cases hindex
  cases hmissing
  cases habsent
  cases horphaned
  rfl

/-- Of two lists with the same keys, the members whose keys are chosen are the same if the key of a
chosen member tells which it is. -/
theorem filter_eq_of_keys {κ ν : Type} {key : ν → κ} (p : κ → Bool) {l l' : List ν}
    (hkeys : l'.map key = l.map key)
    (heq : ∀ x ∈ l, ∀ y ∈ l', key y = key x → p (key x) = true → y = x) :
    (l'.filter fun x => p (key x)) = l.filter fun x => p (key x) := by
  induction l generalizing l' with
  | nil => rw [List.map_eq_nil_iff.mp hkeys]
  | cons x rest ih =>
    cases l' with
    | nil => cases hkeys
    | cons y rest' =>
      rw [List.map_cons, List.map_cons, List.cons.injEq] at hkeys
      have hrest := ih hkeys.2 fun x hx y hy =>
        heq x (List.mem_cons_of_mem _ hx) y (List.mem_cons_of_mem _ hy)
      cases hp : p (key x) with
      | true =>
        have hsame := heq x List.mem_cons_self y List.mem_cons_self hkeys.1 hp
        simp only [List.filter_cons, hsame, hp, if_true, hrest]
      | false =>
        have hp' : p (key y) = false := by rw [hkeys.1, hp]
        simp only [List.filter_cons, hp, hp', Bool.false_eq_true, if_false, hrest]

/-- What a report says apart from some indices. -/
def IntegrityReport.apart (touched : List String) (report : IntegrityReport) : IntegrityReport :=
  { report with indices := report.indices.filter fun finding => finding.index ∉ touched }

theorem IntegrityReport.apart_eq {touched indices : List String} {report : IntegrityReport}
    (hnames : report.indices.map (·.index) = indices) (h : ∀ index ∈ indices, index ∉ touched) :
    report.apart touched = report := by
  rw [apart, List.filter_eq_self.mpr]
  intro finding hfinding
  exact decide_eq_true (h _ (hnames ▸ List.mem_map_of_mem hfinding))

namespace Bucket

open Call

variable [Record R] (b : Bucket R) {c : Context σ} {s : Store} {touched : List String}

/-- **A scrub finds the same** in the indices whose tables are the same, where the rows are. -/
theorem verify_moved (hc : c.Quiet) (hb : b.Present c.store) (hs : b.Present s)
    (hrows : s.table? b.name = c.store.table? b.name)
    (htables : ∀ index ∈ b.indices, index ∉ touched → s.table? index = c.store.table? index) :
    (∃ report report' c₁ c₂, b.verify c = .ok report c₁ ∧
        b.verify { c with store := s } = .ok report' c₂ ∧
        report.indices.map (·.index) = b.indices ∧ report'.indices.map (·.index) = b.indices ∧
        report'.apart touched = report.apart touched) ∨
      ∃ stop c₁ c₂, b.verify c = .error stop c₁ ∧
        b.verify { c with store := s } = .error stop c₂ := by
  obtain ⟨stored, hstored⟩ := hb.rows
  have hmoved := Blind.sequential.expectEach b (.none b.indices) stored.toList c s
  cases hgather : b.expectEach (.none b.indices) stored.toList c with
  | error stop c₁ =>
    rw [hgather] at hmoved
    refine .inr ⟨stop, c₁, { c₁ with store := s }, ?_, ?_⟩
    · rw [verify, bind_ok (look_ok hc), bind_ok (rows_ok hstored), bind_error hgather]
    · rw [verify, bind_ok (look_ok (hc.setStore s)), bind_ok (rows_ok (hrows.trans hstored)),
        bind_error hmoved]
  | ok expected c₁ =>
    obtain ⟨records, hdecode, hfits⟩ := b.of_expectEach hc (gathered_none b.indices) hgather
    obtain ⟨report, log, hrun, hcount, hexact⟩ := b.verify_ok hc hstored hdecode hfits hb.ofKind
    obtain ⟨report', log', hrun', hcount', hexact'⟩ :=
      b.verify_ok (hc.setStore s) (hrows.trans hstored) hdecode hfits hs.ofKind
    refine .inl ⟨report, report', _, _, hrun, hrun', hexact.order, hexact'.order, ?_⟩
    have hsame : ∀ finding ∈ report.indices, ∀ finding' ∈ report'.indices,
        finding'.index = finding.index → decide (finding.index ∉ touched) = true →
          finding' = finding := by
      intro finding hfinding finding' hfinding' hindex huntouched
      have hmem : finding.index ∈ b.indices := hexact.order ▸ List.mem_map_of_mem hfinding
      have hfound' := hexact'.findings finding' hfinding'
      rw [hindex] at hfound'
      exact (hexact.findings finding hfinding).eq hfound' hindex
        (htables _ hmem (of_decide_eq_true huntouched))
    have hfiltered := filter_eq_of_keys (fun index => decide (index ∉ touched))
      (hexact'.order.trans hexact.order.symm) hsame
    simp only [IntegrityReport.apart, hcount, hcount', hfiltered]

end Bucket

/-! ## Two buckets -/

/-- **Buckets beside each other.** A bucket was found consistent, whatever calls were made on the
store since then, and then one is made on another bucket. No index was built that has the name of the
first bucket, and the mutators of updates, then and now, have left the tables that it answers from as
they are, whatever they did to others. If the call fails, nothing has changed. If it succeeds, the
answers from each index of the first bucket that it did not touch are what they were, and so is the
outcome of a scrub but for the indices that it did touch; if it has touched none of them, the whole
outcome. -/
theorem Done.isolated {R τ : Type} [Record R] {b : Bucket R} (hvalid : b.config.validate = .ok ())
    {c₀ c₁ : Context τ} {report : IntegrityReport} (hc₀ : c₀.Quiet)
    (hverify : b.verify c₀ = .ok report c₁) (hconsistent : report.consistent = true)
    {s s' : Store} {deeds : List Deed} (hrun : Run b.Uses c₀.store deeds s)
    (hbuilt : ∀ deed ∈ deeds, b.name ∉ deed.built) {deed : Deed} (hdone : Done b.Uses s deed s')
    (hother : ¬ deed.On b.name) (hnot : b.name ∉ deed.built) :
    (deed = .nothing → s' = s) ∧
    ∀ {σ : Type} (c : Context σ), c.store = s →
      (∀ index values, index ∉ deed.touched ∨ index ∉ b.indices →
        (Call.outcome (b.readIndex index values { c with store := s' })).1
          = (Call.outcome (b.readIndex index values c)).1) ∧
      (c.Quiet →
        (Call.outcome (b.verify { c with store := s' })).1.map (·.apart deed.touched)
          = (Call.outcome (b.verify c)).1.map (·.apart deed.touched)) ∧
      (c.Quiet → (∀ index ∈ b.indices, index ∉ deed.touched) →
        (Call.outcome (b.verify { c with store := s' })).1 = (Call.outcome (b.verify c)).1) := by
  have hpresent : b.Present c₀.store := by
    obtain ⟨⟨rows, hrows⟩, hkinds⟩ :=
      Operation.found b (show (Operation.verify : Operation τ R IntegrityReport).Mutators
        (Mutator.Within (.leaving b.Uses)) from trivial) hvalid hverify
    obtain ⟨records, -, -, htables⟩ := (b.verify_consistent_iff hc₀ hrows hkinds).mp
      ⟨report, c₁, hverify, hconsistent⟩
    exact ⟨⟨rows, hrows⟩, fun index hindex => ⟨_, htables index hindex⟩⟩
  have hs := hrun.present hpresent hbuilt
  have hs' := hdone.leaves.present hs hnot
  obtain ⟨rows, hprimary⟩ := hs.rows
  have hrows := hdone.leaves.primary_eq (.inl rfl) hprimary hother hnot
  have htables : ∀ index ∈ b.indices, index ∉ deed.touched →
      s'.table? index = s.table? index := fun index hindex huntouched => by
    obtain ⟨entries, hentries⟩ := hs.index index hindex
    exact hdone.leaves.index_eq (.inr hindex) hentries huntouched
  refine ⟨fun hnothing => ?_, ?_⟩
  · subst hnothing
    exact hdone.leaves
  rintro σ c rfl
  have hmoved (hc : c.Quiet) := b.verify_moved hc hs hs' hrows htables
  refine ⟨fun index values huntouched => ?_, fun hc => ?_, fun hc huntouched => ?_⟩
  · rw [b.readIndex_moved (fun hindex => htables index hindex
      (huntouched.resolve_right (not_not_intro hindex))) values, Call.outcome_moved]
  · obtain ⟨r, r', c₂, c₃, hrun, hrun', -, -, hapart⟩ | ⟨stop, c₂, c₃, hrun, hrun'⟩ := hmoved hc
    · rw [hrun, hrun']
      exact congrArg Except.ok hapart
    · rw [hrun, hrun']
      rfl
  · obtain ⟨r, r', c₂, c₃, hrun, hrun', hnames, hnames', hapart⟩ | ⟨stop, c₂, c₃, hrun, hrun'⟩ :=
      hmoved hc
    · rw [IntegrityReport.apart_eq hnames huntouched,
        IntegrityReport.apart_eq hnames' huntouched] at hapart
      rw [hrun, hrun']
      exact congrArg Except.ok hapart
    · rw [hrun, hrun']
      rfl

/-! ### Two buckets of words -/

/-- A bucket of words. -/
def Bucket.ofWords (name : String) (indices : List String) : Bucket Word :=
  ⟨⟨name, indices⟩, .words, ⟨none, [], [], 0⟩⟩

/-- Open two buckets of words. -/
def Call.openBeside (left right : BucketConfig) : Call Unit Unit := do
  let _ ← openBucket left Codec.words
  let _ ← openBucket right Codec.words

/-- A context of the store that two buckets of words were opened on, which was empty before. -/
@[irreducible]
def Context.besides (left right : BucketConfig) : Context Unit :=
  Call.quiet (Call.context (Call.openBeside left right (Call.quiet .empty [] ()))).store [] ()

theorem Done.isolated_words :
    let left := Bucket.ofWords "left" ["initial", "mark"]
    let right := Bucket.ofWords "right" ["initial", "letter"]
    let c := Context.besides left.config right.config
    right.config.validate = .ok () ∧ c.Quiet ∧
      (∃ report c', right.verify c = .ok report c' ∧ report.consistent = true) ∧
      ∃ s s', Run right.Uses c.store [.edit left.config] s ∧
        (∀ deed ∈ [Deed.edit left.config], right.name ∉ deed.built) ∧
        Done right.Uses s (.edit left.config) s' ∧ ¬ (Deed.edit left.config).On right.name ∧
        right.name ∉ (Deed.edit left.config).built ∧ s ≠ c.store ∧ s' ≠ s ∧
        ∀ values, (Call.outcome (right.readIndex "letter" values { c with store := s' })).1
          = (Call.outcome (right.readIndex "letter" values { c with store := s })).1 := by
  intro left right c
  let inserting : Operation Unit Word Unit := .write (.insert [⟨[7]⟩])
  let marking : Operation Unit Word Unit := .write (.update [⟨[7]⟩] (.filing "mark" [1, 9, 7]))
  let c₁ := Call.context (inserting.call left c)
  obtain ⟨report, hverify, hconsistent⟩ := Call.ok_of_check (x := right.verify) (c := c)
    (fun report => report.consistent) (by decide +kernel)
  obtain ⟨⟨⟩, hinsert, -⟩ := Call.ok_of_check (x := inserting.call left) (c := c)
    (fun _ => true) (by decide +kernel)
  obtain ⟨⟨⟩, hmark, -⟩ := Call.ok_of_check (x := marking.call left) (c := c₁)
    (fun _ => true) (by decide +kernel)
  have hrun : Run right.Uses c.store [.edit left.config] c₁.store :=
    .cons (.called rfl (show inserting.Mutators _ from trivial) (.inl rfl) hinsert) (.nil _)
  -- The mutator marks in an index of the first bucket, which is none of the second.
  have hfiles : (Frame.leaving right.Uses).Files ["mark"] := Frame.leaving_files (by
    simp [right, Bucket.Uses, Bucket.ofWords, Bucket.name, Bucket.indices])
  have hmarking : marking.Mutators (Mutator.Within (.leaving right.Uses)) :=
    Mutator.filing_within hfiles List.mem_cons_self _
  have hdone : Done right.Uses c₁.store (.edit left.config)
      (Call.context (marking.call left c₁)).store := .called rfl hmarking (.inl rfl) hmark
  have hnone : ∀ deed ∈ [Deed.edit left.config], right.name ∉ deed.built := by simp [Deed.built]
  have hother : ¬ (Deed.edit left.config).On right.name :=
    show ¬ left.config.name = right.name by decide
  have hquiet : c.Quiet := by
    simp only [c, Context.besides]
    exact Context.quiet_quiet _ _ _
  obtain ⟨-, hsame⟩ := Done.isolated rfl hquiet hverify hconsistent hrun hnone hdone hother
    List.not_mem_nil
  exact ⟨rfl, hquiet, ⟨_, _, hverify, hconsistent⟩, _, _, hrun, hnone, hdone, hother,
    List.not_mem_nil, by decide +kernel, by decide +kernel,
    fun values => (hsame { c with store := c₁.store } rfl).1 "letter" values (.inl (by decide))⟩

/-! ### What buckets do to each other -/

/-- What a call answers; nothing if it stops. -/
def Call.answer? (x : Call σ α) (c : Context σ) : Option α :=
  match x c with
  | .ok a _ => some a
  | .error _ _ => none

/-- Two buckets of words with different names were opened on the empty store, one after the other,
and both are consistent. -/
structure Bucket.Beside (left right : Bucket Word) (c : Context Unit) : Prop where
  valid : left.config.validate = .ok () ∧ right.config.validate = .ok ()
  names : left.name ≠ right.name
  opened : ∃ c₀, Call.openBeside left.config right.config (Call.quiet .empty [] ()) = .ok () c₀ ∧
    c₀.store = c.store
  consistent : (Call.answer? left.verify c).map (·.consistent) = some true ∧
    (Call.answer? right.verify c).map (·.consistent) = some true

theorem Bucket.Beside.of_opened {left right : Bucket Word} {c : Context Unit}
    (hc : c = .besides left.config right.config)
    (hvalid : left.config.validate = .ok () ∧ right.config.validate = .ok ())
    (hnames : left.name ≠ right.name)
    (hopened : Call.answer? (Call.openBeside left.config right.config) (Call.quiet .empty [] ())
      = some ())
    (hconsistent : (Call.answer? left.verify c).map (·.consistent) = some true ∧
      (Call.answer? right.verify c).map (·.consistent) = some true) : Beside left right c := by
  refine ⟨hvalid, hnames, ?_, hconsistent⟩
  cases hrun : Call.openBeside left.config right.config (Call.quiet .empty [] ()) with
  | ok a c₀ =>
    refine ⟨c₀, rfl, ?_⟩
    rw [hc, Context.besides, hrun]
    rfl
  | error stop c₀ =>
    rw [Call.answer?, hrun] at hopened
    cases hopened

/-- In a bucket without words one is found, where none was before, and a scrub says so. -/
structure Bucket.Misled (b : Bucket Word) (c c' : Context Unit) : Prop where
  before : Call.answer? (b.readIndex "letter" [[7]]) c = some (.ofList [([7], [])])
  after : Call.answer? (b.readIndex "letter" [[7]]) c' = some (.ofList [([7], [[7]])])
  found : (Call.answer? b.verify c').map (·.consistent) = some false

/-- A bucket is disturbed by the other in three ways: through an index that they share, by a mutator
that puts an entry into an index of the other, and by the building of an index that has its name. -/
theorem Done.not_isolated :
    let right := Bucket.ofWords "right" ["letter"]
    (let left := Bucket.ofWords "left" ["letter"]
      ∃ c c', left.Beside right c ∧ left.insert [⟨[7]⟩] c = .ok () c' ∧ right.Misled c c') ∧
    let left := Bucket.ofWords "left" []
    (∃ c c', left.Beside right c ∧ left.update [] (.filing "letter" [1, 7, 7]) c = .ok () c' ∧
      right.Misled c c') ∧
    ∃ c b c' c'', left.Beside right c ∧
      Call.openBucket ⟨"left", ["right"]⟩ Codec.words c = .ok b c' ∧
      right.verify c' = .error (.failed (.table (.otherKind "right" .index))) c'' := by
  intro right
  refine ⟨?_, ?_⟩
  · intro left
    let c := Context.besides left.config right.config
    have hbeside : left.Beside right c := .of_opened rfl ⟨rfl, rfl⟩ (by decide)
      (by decide +kernel) ⟨by decide +kernel, by decide +kernel⟩
    obtain ⟨⟨⟩, hinsert, -⟩ := Call.ok_of_check (x := left.insert [⟨[7]⟩]) (c := c)
      (fun _ => true) (by decide +kernel)
    exact ⟨c, _, hbeside, hinsert, by decide +kernel, by decide +kernel, by decide +kernel⟩
  · intro left
    let c := Context.besides left.config right.config
    have hbeside : left.Beside right c := .of_opened rfl ⟨rfl, rfl⟩ (by decide)
      (by decide +kernel) ⟨by decide +kernel, by decide +kernel⟩
    obtain ⟨⟨⟩, hupdate, -⟩ := Call.ok_of_check
      (x := left.update [] (.filing "letter" [1, 7, 7])) (c := c) (fun _ => true)
      (by decide +kernel)
    obtain ⟨b, hopen, -⟩ := Call.ok_of_check
      (x := Call.openBucket ⟨"left", ["right"]⟩ Codec.words) (c := c) (fun _ => true)
      (by decide +kernel)
    obtain ⟨stop, hverify, hstop⟩ := Call.error_of_check (x := right.verify)
      (c := Call.context (Call.openBucket ⟨"left", ["right"]⟩ Codec.words c))
      (fun stop => stop = .failed (.table (.otherKind "right" .index))) (by decide +kernel)
    rw [of_decide_eq_true hstop] at hverify
    exact ⟨⟨c, _, hbeside, hupdate, by decide +kernel, by decide +kernel, by decide +kernel⟩,
      c, b, _, _, hbeside, hopen, hverify⟩

end IndexedStore
