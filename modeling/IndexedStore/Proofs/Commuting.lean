import IndexedStore.Proofs.Locality
import IndexedStore.Proofs.Replacing

set_option autoImplicit false

/-! # Independent batches commute

Two calls with disjoint keys may both put entries into the table of one index, even under the same
value. They do not meet there, for no two record keys share an entry. So each goes by what the other
leaves alone (`Contents.Local.commute`): in either order both calls end as they would have ended
first, with the same errors, and leave the same store (`Bucket.commute_of_disjoint`).

It follows that a batch is no more than its members. Where it succeeds, so it does in every order
and in any pieces, and the store is the same in the end (`Bucket.independent_batches_commute`). A
batch that fails is another matter: it leaves nothing, and some of its pieces may succeed. -/

namespace IndexedStore

variable {R σ : Type}

/-! ## Contents -/

namespace Contents

variable {ε ε' : Type} {I J : Contents → Prop} {keys others : List Bytes}

/-- What there is after something was made of contents, or was to be and could not. -/
def after (h : Contents) : Except ε Contents → Contents
  | .ok h' => h'
  | .error _ => h

variable {F : Contents → Except ε Contents} {G : Contents → Except ε' Contents} {h g : Contents}

theorem Local.frame_after (hF : Local I keys F) (hI : I h) : SameOff keys h (h.after (F h)) := by
  cases hrun : F h with
  | error e => exact .refl h
  | ok h' => exact hF.frame h h' hI hrun

theorem Local.blind_after (hF : Local I keys F) (hs : SameAt keys h g) :
    (F h).map (fun _ => ()) = (F g).map (fun _ => ()) ∧
      SameAt keys (h.after (F h)) (g.after (F g)) := by
  have halike := hF.blind h g hs
  revert halike
  generalize F h = r, F g = r'
  rintro (⟨hs'⟩ | e)
  · exact ⟨rfl, hs'⟩
  · exact ⟨rfl, hs⟩

/-- What is the same but for some keys is the same at keys that are none of them. -/
theorem Same.at_of_off (hd : ∀ k ∈ others, k ∉ keys) (hs : SameOff keys h g) :
    SameAt others h g :=
  hs.mono hd fun _ he => he.not_of hd

/-- The same but for some keys and others. -/
abbrev SameOffBoth (keys others : List Bytes) : Contents → Contents → Prop :=
  Same (fun k => k ∉ keys ∧ k ∉ others)
    (fun e => ¬ CompositeKey.IsOf keys e ∧ ¬ CompositeKey.IsOf others e)

/-- Contents that are the same at some keys, at others, and but for both, are the same. -/
theorem eq_of_same (hkeys : SameAt keys h g) (hothers : SameAt others h g)
    (hrest : SameOffBoth keys others h g) : h = g := by
  have hrows : h.rows = g.rows := by
    refine OrderedMap.ext_get? fun k => ?_
    by_cases hk : k ∈ keys
    · exact hkeys.rows k hk
    · by_cases ho : k ∈ others
      · exact hothers.rows k ho
      · exact hrest.rows k ⟨hk, ho⟩
  have hentries : h.entries = g.entries := by
    funext index
    refine OrderedMap.ext_contains fun e => ?_
    by_cases hk : CompositeKey.IsOf keys e
    · exact hkeys.entries index e hk
    · by_cases ho : CompositeKey.IsOf others e
      · exact hothers.entries index e ho
      · exact hrest.entries index e ⟨hk, ho⟩
  cases h
  cases g
  cases hrows
  cases hentries
  rfl

theorem Local.commute_at (hF : Local I keys F) (hG : Local J others G)
    (hd : ∀ k ∈ keys, k ∉ others) (hJ : J h) (hJ' : J (h.after (F h))) :
    (F h).map (fun _ => ()) = (F (h.after (G h))).map (fun _ => ()) ∧
      SameAt keys ((h.after (F h)).after (G (h.after (F h))))
        ((h.after (G h)).after (F (h.after (G h)))) := by
  obtain ⟨hends, hs⟩ := hF.blind_after (Same.at_of_off hd (hG.frame_after hJ))
  exact ⟨hends, (Same.at_of_off hd (hG.frame_after hJ')).symm.trans hs⟩

/-- **What is made of contents at disjoint keys** is made in either order, with the same ends and the
same contents. The properties that frames need hold at the start and are about these keys only. -/
theorem Local.commute (hF : Local I keys F) (hG : Local J others G)
    (hd : ∀ k ∈ keys, k ∉ others) (hI : ∀ g, SameAt keys h g → I g)
    (hJ : ∀ g, SameAt others h g → J g) :
    (F h).map (fun _ => ()) = (F (h.after (G h))).map (fun _ => ()) ∧
      (G h).map (fun _ => ()) = (G (h.after (F h))).map (fun _ => ()) ∧
      (h.after (F h)).after (G (h.after (F h))) = (h.after (G h)).after (F (h.after (G h))) := by
  have hd' : ∀ k ∈ others, k ∉ keys := fun k hk hmem => hd k hmem hk
  have hfirst := hF.frame_after (hI h (.refl h))
  have hsecond := hG.frame_after (hJ h (.refl h))
  have hI' : I (h.after (G h)) := hI _ (Same.at_of_off hd hsecond)
  have hJ' : J (h.after (F h)) := hJ _ (Same.at_of_off hd' hfirst)
  obtain ⟨hends, hkeys⟩ := hF.commute_at hG hd (hJ h (.refl h)) hJ'
  obtain ⟨hends', hothers⟩ := hG.commute_at hF hd' (hI h (.refl h)) hI'
  refine ⟨hends, hends', eq_of_same hkeys hothers.symm ?_⟩
  -- Both ways around, nothing else has been touched.
  have hoff : ∀ {h g : Contents}, SameOff keys h g → SameOffBoth keys others h g := fun hs =>
    hs.mono (fun _ hk => hk.1) fun _ he => he.1
  have hoff' : ∀ {h g : Contents}, SameOff others h g → SameOffBoth keys others h g := fun hs =>
    hs.mono (fun _ hk => hk.2) fun _ he => he.2
  exact ((hoff hfirst).trans (hoff' (hG.frame_after hJ'))).symm.trans
    ((hoff' hsecond).trans (hoff (hF.frame_after hI')))

/-- So they can change places where both succeed one after the other. -/
theorem Local.swap {G : Contents → Except ε Contents} (hF : Local I keys F) (hG : Local J others G)
    (hd : ∀ k ∈ keys, k ∉ others) (hI : ∀ g, SameAt keys h g → I g)
    (hJ : ∀ g, SameAt others h g → J g) {h' : Contents} (hrun : F h >>= G = .ok h') :
    G h >>= F = .ok h' := by
  obtain ⟨hends, hends', heq⟩ := hF.commute hG hd hI hJ
  obtain ⟨h₁, hfirst, hsecond⟩ := exists_of_bind_eq_ok hrun
  simp only [hfirst, after, hsecond] at hends hends' heq
  cases hother : G h with
  | error e => simp [hother, Except.map] at hends'
  | ok h₂ =>
    simp only [hother] at hends heq
    cases hlast : F h₂ with
    | error e => simp [hlast, Except.map] at hends
    | ok h₃ =>
      simp only [hlast] at heq
      rw [heq]
      exact hlast

end Contents

/-! ## Members of a batch -/

namespace Contents

variable [Record R] {b : Bucket R} {h h' : Contents}

/-- A record that has been inserted is there then. -/
theorem contains_of_insertOne {record : R} (hrun : h.insertOne b record = .ok h') :
    h'.rows.contains (Record.key record) = true := by
  obtain ⟨-, bytes, -, hfile⟩ := of_insertOne hrun
  rw [eq_of_file hfile, rows_editEach]
  exact (OrderedMap.contains_insert _ _ _ _).mpr (.inl rfl)

theorem insertOne_swap {record other : R}
    (hrun : h.insertOne b record >>= (·.insertOne b other) = .ok h') :
    h.insertOne b other >>= (·.insertOne b record) = .ok h' := by
  have hne : Record.key other ≠ Record.key record := by
    intro he
    obtain ⟨h₁, hfirst, hsecond⟩ := exists_of_bind_eq_ok hrun
    have hfresh := (of_insertOne hsecond).1
    rw [he, contains_of_insertOne hfirst] at hfresh
    cases hfresh
  exact (local_insertOne b (List.mem_singleton_self (Record.key record))).swap
    (local_insertOne b (List.mem_singleton_self (Record.key other)))
    (by simpa [eq_comm] using hne) (fun _ _ => trivial) (fun _ _ => trivial) hrun

theorem deleteOne_swap (hplace : ∀ keys, h.PlacedAt b.codec keys) {key other : Bytes}
    (hrun : h.deleteOne b key >>= (·.deleteOne b other) = .ok h') :
    h.deleteOne b other >>= (·.deleteOne b key) = .ok h' := by
  by_cases he : key = other
  · subst he
    exact hrun
  · exact (local_deleteOne b (List.mem_singleton_self key)).swap
      (local_deleteOne b (List.mem_singleton_self other)) (by simpa using he)
      (fun _ => (hplace [key]).of_sameAt) (fun _ => (hplace [other]).of_sameAt) hrun

/-- **Inserting** in any order makes the same contents. -/
theorem insertAll_perm {records order : List R} (hperm : records.Perm order)
    (hrun : h.insertAll b records = .ok h') : h.insertAll b order = .ok h' :=
  foldlM_perm (I := fun _ => True) (fun _ _ _ _ _ => trivial) (fun _ _ _ _ _ => insertOne_swap)
    hperm trivial hrun

/-- **Deleting** in any order makes the same contents. -/
theorem deleteAll_perm (hplace : ∀ keys, h.PlacedAt b.codec keys) {keys order : List Bytes}
    (hperm : keys.Perm order) (hrun : h.deleteAll b keys = .ok h') :
    h.deleteAll b order = .ok h' := by
  refine foldlM_perm (f := deleteOne b) (I := fun h => ∀ keys, h.PlacedAt b.codec keys) ?_
    (fun _ _ _ _ hplace => deleteOne_swap hplace) hperm hplace hrun
  intro s key s' hs hdelete keys k hk bytes hrow
  exact hs keys k hk bytes (get?_of_deleteOne hdelete hrow)

end Contents

/-! ## Calls -/

namespace Call

variable {c : Context σ} {config : BucketConfig} {h : Contents}

/-- How a call ends and what it leaves, by what it makes of the contents. -/
theorem Writes.ends {x : Call σ Unit} {r : Except Stop Contents} (hx : x.Writes c config r)
    (hs : c.store.Holds config h) : ending (x c) = r.map (fun _ => ()) ∧ (context (x c)).Quiet ∧
      (context (x c)).store = c.store.place config (h.after r) := by
  cases r with
  | error stop =>
    obtain ⟨c', hrun, hquiet, hstore⟩ := hx
    rw [hrun]
    exact ⟨rfl, hquiet, hstore.trans hs.place_eq.symm⟩
  | ok h' =>
    obtain ⟨c', hrun, hquiet, hstore⟩ := hx
    rw [hrun]
    exact ⟨rfl, hquiet, hstore⟩

/-- **Batches one after the other** make what their members make one after the other. -/
theorem forM_writes {α : Type} {x : List α → Call σ Unit}
    {f : Contents → α → Except BucketError Contents} (hname : config.name ∉ config.indices)
    (hx : ∀ c h l, c.Quiet → c.store.Holds config h →
      Writes (x l) c config ((l.foldlM f h).mapError .failed))
    (pieces : List (List α)) (hc : c.Quiet) (hs : c.store.Holds config h) {h' : Contents}
    (hrun : pieces.flatten.foldlM f h = .ok h') :
    ∃ c', pieces.forM x c = .ok () c' ∧ c'.store = c.store.place config h' := by
  induction pieces generalizing c h with
  | nil =>
    cases hrun
    exact ⟨c, rfl, hs.place_eq.symm⟩
  | cons piece rest ih =>
    rw [List.flatten_cons, List.foldlM_append] at hrun
    obtain ⟨h₁, hfirst, hrest⟩ := exists_of_bind_eq_ok hrun
    have hwrites := hx c h piece hc hs
    rw [hfirst] at hwrites
    obtain ⟨c₁, hcall, hquiet, hstore⟩ := hwrites
    have hholds : c₁.store.Holds config h₁ := hstore ▸ Store.holds_place hname c.store h₁
    obtain ⟨c', hcalls, hend⟩ := ih hquiet hholds hrest
    refine ⟨c', (bind_ok hcall).trans hcalls, ?_⟩
    rw [hend, hstore, Store.place_place]

end Call

namespace Bucket

open Call

variable [Record R] {b : Bucket R} {c : Context σ} {h : Contents}

/-- Two calls with disjoint keys: how they end, and what they leave, is the same in either order. -/
theorem commute_of_disjoint (hd : b.config.Disjoint) (hc : c.Quiet)
    (hs : c.store.Holds b.config h) (hplace : b.codec.InPlace h.rows.toList) {w₁ w₂ : Write σ R}
    (hw₁ : w₁.OfRecords) (hw₂ : w₂.OfRecords) (hkeys : ∀ k ∈ w₁.keys, k ∉ w₂.keys) :
    ending (w₁.call b (context (w₂.call b c))) = ending (w₁.call b c) ∧
      ending (w₂.call b (context (w₁.call b c))) = ending (w₂.call b c) ∧
      (context (w₂.call b (context (w₁.call b c)))).store
        = (context (w₁.call b (context (w₂.call b c)))).store := by
  -- What each call makes of the contents does not depend on the context it is made in.
  have hcall : ∀ {w : Write σ R}, w.OfRecords → ∀ {c' : Context σ} {h' : Contents}, c'.Quiet →
      c'.store.Holds b.config h' →
      ending (w.call b c') = (w.contents b c h').map (fun _ => ()) ∧
        (context (w.call b c')).Quiet ∧
        (context (w.call b c')).store = c'.store.place b.config (h'.after (w.contents b c h')) := by
    intro w hw c' h' hc' hs'
    have hwrites := (w.call_writes b hc' hs' hd.primary hd.distinct hw.tame).ends hs'
    rwa [hw.contents_congr b hc' hc] at hwrites
  obtain ⟨hends₁, hquiet₁, hstore₁⟩ := hcall hw₁ hc hs
  obtain ⟨hends₂, hquiet₂, hstore₂⟩ := hcall hw₂ hc hs
  have hholds : ∀ {s : Store} {h' : Contents}, s = c.store.place b.config h' →
      s.Holds b.config h' := fun hs' => hs' ▸ Store.holds_place hd.primary c.store _
  obtain ⟨hends₁₂, -, hstore₁₂⟩ := hcall hw₂ hquiet₁ (hholds hstore₁)
  obtain ⟨hends₂₁, -, hstore₂₁⟩ := hcall hw₁ hquiet₂ (hholds hstore₂)
  obtain ⟨hfirst, hsecond, hend⟩ := (hw₁.isLocal b c).commute (hw₂.isLocal b c) hkeys
    (fun _ => (Contents.placedAt_of_inPlace hplace w₁.keys).of_sameAt)
    (fun _ => (Contents.placedAt_of_inPlace hplace w₂.keys).of_sameAt)
  refine ⟨?_, ?_, ?_⟩
  · rw [hends₂₁, hends₁, hfirst]
  · rw [hends₁₂, hends₂, hsecond]
  · rw [hstore₁₂, hstore₂₁, hstore₁, hstore₂, Store.place_place, Store.place_place, hend]

/-- A batch of insertions that succeeds, in pieces. -/
theorem insert_pieces (hd : b.config.Disjoint) (hc : c.Quiet) (hs : c.store.Holds b.config h)
    {records : List R} {c' : Context σ} (hrun : b.insert records c = .ok () c')
    {pieces : List (List R)} (hpieces : pieces.flatten.Perm records) :
    ∃ c'', pieces.forM b.insert c = .ok () c'' ∧ c''.store = c'.store := by
  obtain ⟨h', hmade, -, hstore⟩ := (b.insert_writes hc hs hd.primary records).of_ok hrun
  obtain ⟨c'', hcalls, hend⟩ := forM_writes hd.primary
    (fun _ _ l hc hs => b.insert_writes hc hs hd.primary l) pieces hc hs
    (Contents.insertAll_perm hpieces.symm (of_mapError_ok hmade))
  exact ⟨c'', hcalls, hend.trans hstore.symm⟩

/-- A batch of deletions that succeeds, in pieces. -/
theorem delete_pieces (hd : b.config.Disjoint) (hc : c.Quiet) (hs : c.store.Holds b.config h)
    (hplace : b.codec.InPlace h.rows.toList) {keys : List Bytes} {c' : Context σ}
    (hrun : b.delete keys c = .ok () c') {pieces : List (List Bytes)}
    (hpieces : pieces.flatten.Perm keys) :
    ∃ c'', pieces.forM b.delete c = .ok () c'' ∧ c''.store = c'.store := by
  obtain ⟨h', hmade, -, hstore⟩ := (b.delete_writes hc hs hd.primary keys).of_ok hrun
  obtain ⟨c'', hcalls, hend⟩ := forM_writes hd.primary
    (fun _ _ l hc hs => b.delete_writes hc hs hd.primary l) pieces hc hs
    (Contents.deleteAll_perm (Contents.placedAt_of_inPlace hplace) hpieces.symm
      (of_mapError_ok hmade))
  exact ⟨c'', hcalls, hend.trans hstore.symm⟩

/-- **Independent batches commute.** Of the state no more is asked than that the tables are there and
that each row that is read as a record has the key that the record reports. Then insertions,
deletions and updates with disjoint keys end in the same way in either order and leave the same
store, if mutators are functions of the records they are handed. And a batch of insertions or of
deletions that succeeds does so in every order and in any pieces, with the same store in the end. -/
theorem independent_batches_commute (hvalid : b.config.validate = .ok ()) (hc : c.Quiet)
    (hs : c.store.Holds b.config h) (hplace : b.codec.InPlace h.rows.toList) :
    (∀ w₁ w₂ : Write σ R, w₁.OfRecords → w₂.OfRecords → (∀ k ∈ w₁.keys, k ∉ w₂.keys) →
      ending (w₁.call b (context (w₂.call b c))) = ending (w₁.call b c) ∧
      ending (w₂.call b (context (w₁.call b c))) = ending (w₂.call b c) ∧
      (context (w₂.call b (context (w₁.call b c)))).store
        = (context (w₁.call b (context (w₂.call b c)))).store) ∧
    (∀ records c', b.insert records c = .ok () c' →
      ∀ pieces : List (List R), pieces.flatten.Perm records →
        ∃ c'', pieces.forM b.insert c = .ok () c'' ∧ c''.store = c'.store) ∧
    ∀ keys c', b.delete keys c = .ok () c' →
      ∀ pieces : List (List Bytes), pieces.flatten.Perm keys →
        ∃ c'', pieces.forM b.delete c = .ok () c'' ∧ c''.store = c'.store := by
  have hd := b.config.disjoint_of_validate hvalid
  exact ⟨fun _ _ hw₁ hw₂ => commute_of_disjoint hd hc hs hplace hw₁ hw₂,
    fun _ _ hrun _ => insert_pieces hd hc hs hrun,
    fun _ _ hrun _ => delete_pieces hd hc hs hplace hrun⟩

end Bucket

/-! ### Cards that are recolored while others come -/

theorem Mutator.recoloring_ofRecords (suit : UInt8) :
    (recoloring suit : Mutator σ Card).OfRecords :=
  ⟨recoloring_tame suit, fun _ _ _ _ _ _ => rfl⟩

theorem Bucket.independent_batches_commute_cards :
    let b : Bucket Card := ⟨⟨"cards", ["suit"]⟩, .cards, ⟨none, [], [], 0⟩⟩
    let h : Contents := .of b.codec (.ofList [([7], ⟨[7], 0⟩), ([8], ⟨[8], 0⟩)])
    let c : Context Unit := Call.quiet (Store.empty.place b.config h) [] ()
    let w₁ : Write Unit Card := .update [⟨[7], 0⟩] (.recoloring 3)
    let w₂ : Write Unit Card := .insert [⟨[9], 3⟩, ⟨[8], 3⟩]
    b.config.validate = .ok () ∧ c.Quiet ∧ c.store.Holds b.config h ∧
      b.codec.InPlace h.rows.toList ∧ w₁.OfRecords ∧ w₂.OfRecords ∧
      (∀ k ∈ w₁.keys, k ∉ w₂.keys) ∧
      Call.ending (w₁.call b (Call.context (w₂.call b c))) = .ok () ∧
      Call.ending (w₂.call b (Call.context (w₁.call b c)))
        = .error (.failed (.keyConflict [8])) ∧
      (Call.context (w₂.call b (Call.context (w₁.call b c)))).store
        = (Call.context (w₁.call b (Call.context (w₂.call b c)))).store ∧
      (∃ c', b.insert [⟨[5], 0⟩, ⟨[6], 0⟩, ⟨[9], 3⟩] c = .ok () c' ∧
        ∃ c'', [[⟨[9], 3⟩], [⟨[6], 0⟩, ⟨[5], 0⟩]].forM b.insert c = .ok () c'' ∧
          c''.store = c'.store) ∧
      ∃ c', b.delete [[7], [9], [8]] c = .ok () c' ∧
        ∃ c'', [[[8]], [[9], [7]]].forM b.delete c = .ok () c'' ∧ c''.store = c'.store := by
  intro b h c w₁ w₂
  have hvalid : b.config.validate = .ok () := rfl
  have hc : c.Quiet := Context.quiet_quiet _ _ _
  have hs : c.store.Holds b.config h := Store.holds_place (by decide) _ _
  have hplace : b.codec.InPlace h.rows.toList := by
    have hrows : h.rows.toList = [([7], [0, 7]), ([8], [0, 8])] := by decide +kernel
    intro row hrow card hdecode
    rw [hrows] at hrow
    rcases List.mem_cons.mp hrow with rfl | hrow
    · cases hdecode
      rfl
    · obtain rfl := List.mem_singleton.mp hrow
      cases hdecode
      rfl
  have hkeys : ∀ k ∈ w₁.keys, k ∉ w₂.keys := by decide
  have hw₁ : w₁.OfRecords := ⟨Mutator.recoloring_ofRecords 3, nofun⟩
  have hw₂ : w₂.OfRecords := ⟨trivial, nofun⟩
  obtain ⟨hcommute, hinsert, hdelete⟩ := Bucket.independent_batches_commute hvalid hc hs hplace
  obtain ⟨hends₁, hends₂, hstore⟩ := hcommute w₁ w₂ hw₁ hw₂ hkeys
  obtain ⟨⟨⟩, hupdated, -⟩ := Call.ok_of_check (x := w₁.call b) (c := c) (fun _ => true)
    (by decide +kernel)
  obtain ⟨stop, hstopped, hconflict⟩ := Call.error_of_check (x := w₂.call b) (c := c)
    (· = .failed (.keyConflict [8])) (by decide +kernel)
  obtain ⟨⟨⟩, hinserted, -⟩ := Call.ok_of_check
    (x := b.insert [⟨[5], 0⟩, ⟨[6], 0⟩, ⟨[9], 3⟩]) (c := c) (fun _ => true) (by decide +kernel)
  obtain ⟨⟨⟩, hdeleted, -⟩ := Call.ok_of_check (x := b.delete [[7], [9], [8]]) (c := c)
    (fun _ => true) (by decide +kernel)
  refine ⟨hvalid, hc, hs, hplace, hw₁, hw₂, hkeys, ?_, ?_, hstore,
    ⟨_, hinserted, hinsert _ _ hinserted _ (by decide +kernel)⟩,
    ⟨_, hdeleted, hdelete _ _ hdeleted _ (by decide +kernel)⟩⟩
  · rw [hends₁, hupdated]
    rfl
  · rw [hends₂, hstopped, of_decide_eq_true hconflict]
    rfl

end IndexedStore
