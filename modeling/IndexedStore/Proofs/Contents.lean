import IndexedStore.Proofs.Entries
import IndexedStore.Proofs.Failing

set_option autoImplicit false

/-! # What the tables of a bucket hold

A bucket works on one primary table and one table per index. What these hold is a value of its own
(`Contents`), apart from the store: a store `Holds` it, and is given other contents by placing them
(`Store.place`), which touches no other table. Editing an open table is placing what an edit makes
of the contents.

In a quiet context a call on a bucket depends on the contents only. It is understood once a
function is known that says what the call makes of them, or what error it ends with
(`Call.Makes`); the functions of calls in sequence are put together as the calls are. -/

namespace IndexedStore

variable {R σ α β : Type}

/-- What the tables of a bucket hold: rows, and entries in the indices. -/
structure Contents where
  /-- The rows of the primary table. -/
  rows : OrderedMap Bytes Bytes
  /-- The entries in the table of an index. -/
  entries : String → OrderedSet Bytes

namespace Contents

/-- The contents with other entries in one index. -/
def setIndex (h : Contents) (index : String) (entries : OrderedSet Bytes) : Contents :=
  { h with entries := fun other => if other = index then entries else h.entries other }

theorem entries_setIndex (h : Contents) (index : String) (entries : OrderedSet Bytes) :
    (h.setIndex index entries).entries index = entries := by
  simp only [setIndex, if_pos]

theorem setIndex_setIndex (h : Contents) (index : String) (entries later : OrderedSet Bytes) :
    (h.setIndex index entries).setIndex index later = h.setIndex index later := by
  simp only [setIndex, mk.injEq, true_and]
  funext other
  split <;> rfl

end Contents

/-! ## Stores -/

namespace Store

/-- The tables that a configuration names hold the given contents. -/
structure Holds (s : Store) (config : BucketConfig) (h : Contents) : Prop where
  primary : s.table? config.name = some (.primary h.rows)
  index : ∀ index ∈ config.indices, s.table? index = some (.index (h.entries index))

/-- The store with the given contents in the tables that a configuration names. -/
def place (s : Store) (config : BucketConfig) (h : Contents) : Store :=
  (config.indices.foldl (fun s index => s.put index (.index (h.entries index))) s).put config.name
    (.primary h.rows)

variable {s : Store} {config : BucketConfig} {h h' : Contents}

theorem table?_putEach (f : String → Table) (indices : List String) (s : Store) (name : String) :
    (indices.foldl (fun s index => s.put index (f index)) s).table? name
      = if name ∈ indices then some (f name) else s.table? name := by
  induction indices generalizing s with
  | nil => rfl
  | cons index rest ih =>
    rw [List.foldl_cons, ih, table?_put]
    by_cases hrest : name ∈ rest
    · rw [if_pos hrest, if_pos (List.mem_cons_of_mem _ hrest)]
    · by_cases hname : name = index
      · subst hname
        rw [if_neg hrest, if_pos rfl, if_pos List.mem_cons_self]
      · have hnot : name ∉ index :: rest := by simp [hname, hrest]
        rw [if_neg hrest, if_neg hname, if_neg hnot]

/-- **Placing** contents changes the tables that the configuration names and no others. -/
theorem table?_place (s : Store) (config : BucketConfig) (h : Contents) (name : String) :
    (s.place config h).table? name
      = if name = config.name then some (.primary h.rows)
        else if name ∈ config.indices then some (.index (h.entries name)) else s.table? name := by
  rw [place, table?_put, table?_putEach fun index => .index (h.entries index)]

theorem holds_place (hname : config.name ∉ config.indices) (s : Store) (h : Contents) :
    (s.place config h).Holds config h := by
  refine ⟨by rw [table?_place, if_pos rfl], fun index hindex => ?_⟩
  have hne : index ≠ config.name := fun he => hname (he ▸ hindex)
  rw [table?_place, if_neg hne, if_pos hindex]

/-- Placing what is there already changes nothing. -/
theorem Holds.place_eq (hs : s.Holds config h) : s.place config h = s := by
  refine ext_table? fun name => ?_
  rw [table?_place]
  by_cases hname : name = config.name
  · rw [if_pos hname, hname, hs.primary]
  · by_cases hindex : name ∈ config.indices
    · rw [if_neg hname, if_pos hindex, hs.index name hindex]
    · rw [if_neg hname, if_neg hindex]

/-- What is placed last counts. -/
theorem place_place (s : Store) (config : BucketConfig) (h h' : Contents) :
    (s.place config h).place config h' = s.place config h' := by
  refine ext_table? fun name => ?_
  rw [table?_place, table?_place, table?_place]
  by_cases hname : name = config.name
  · rw [if_pos hname, if_pos hname]
  · by_cases hindex : name ∈ config.indices
    · rw [if_neg hname, if_pos hindex, if_neg hname, if_pos hindex]
    · simp only [if_neg hname, if_neg hindex]

theorem place_congr (hrows : h.rows = h'.rows)
    (hentries : ∀ index ∈ config.indices, h.entries index = h'.entries index) :
    s.place config h = s.place config h' := by
  refine ext_table? fun name => ?_
  rw [table?_place, table?_place, hrows]
  by_cases hindex : name ∈ config.indices
  · rw [if_pos hindex, if_pos hindex, hentries name hindex]
  · rw [if_neg hindex, if_neg hindex]

/-! ## Edits -/

theorem put_self {name : String} {t : Table} (h : s.table? name = some t) : s.put name t = s := by
  refine ext_table? fun other => ?_
  rw [table?_put]
  split
  · next hother => rw [hother, h]
  · rfl

theorem put_put (s : Store) (name : String) (t u : Table) :
    (s.put name t).put name u = s.put name u := by
  refine ext_table? fun other => ?_
  rw [table?_put, table?_put, table?_put]
  split <;> rfl

theorem putEntry_eq {index : String} {table : OrderedSet Bytes}
    (h : s.table? index = some (.index table)) (entry : Bytes) :
    s.putEntry index entry = s.put index (.index (table.insert entry ())) := by
  simp only [putEntry, h]

theorem eraseEntry_eq {index : String} {table : OrderedSet Bytes}
    (h : s.table? index = some (.index table)) (entry : Bytes) :
    s.eraseEntry index entry = s.put index (.index (table.erase entry)) := by
  simp only [eraseEntry, h]

/-- Entries that are edited one by one are edited in the table. -/
theorem foldl_edit_eq {edit : Store → Bytes → Store}
    {f : OrderedSet Bytes → Bytes → OrderedSet Bytes} {index : String}
    (hedit : ∀ {s : Store} {table : OrderedSet Bytes}, s.table? index = some (.index table) →
      ∀ entry, edit s entry = s.put index (.index (f table entry)))
    {table : OrderedSet Bytes} (h : s.table? index = some (.index table)) (entries : List Bytes) :
    entries.foldl edit s = s.put index (.index (entries.foldl f table)) := by
  induction entries generalizing s table with
  | nil => exact (put_self h).symm
  | cons entry rest ih =>
    have hafter : (s.put index (.index (f table entry))).table? index
        = some (.index (f table entry)) := by
      rw [table?_put, if_pos rfl]
    rw [List.foldl_cons, List.foldl_cons, hedit h, ih hafter, put_put]

theorem putEntries_eq {index : String} {table : OrderedSet Bytes}
    (h : s.table? index = some (.index table)) (entries : List Bytes) :
    s.putEntries index entries
      = s.put index (.index (entries.foldl (fun t entry => t.insert entry ()) table)) :=
  foldl_edit_eq (fun hs entry => putEntry_eq hs entry) h entries

theorem eraseEntries_eq {index : String} {table : OrderedSet Bytes}
    (h : s.table? index = some (.index table)) (entries : List Bytes) :
    s.eraseEntries index entries
      = s.put index (.index (entries.foldl (fun t entry => t.erase entry) table)) :=
  foldl_edit_eq (fun hs entry => eraseEntry_eq hs entry) h entries

theorem Holds.put_primary (hs : s.Holds config h) (rows : OrderedMap Bytes Bytes) :
    s.put config.name (.primary rows) = s.place config { h with rows := rows } := by
  refine ext_table? fun name => ?_
  rw [table?_place, table?_put]
  by_cases hname : name = config.name
  · rw [if_pos hname, if_pos hname]
  · rw [if_neg hname, if_neg hname]
    split
    · next hindex => exact hs.index name hindex
    · rfl

theorem Holds.putRow (hs : s.Holds config h) (key value : Bytes) :
    s.putRow config.name key value = s.place config { h with rows := h.rows.insert key value } := by
  simp only [Store.putRow, hs.primary]
  exact hs.put_primary _

theorem Holds.eraseRow (hs : s.Holds config h) (key : Bytes) :
    s.eraseRow config.name key = s.place config { h with rows := h.rows.erase key } := by
  simp only [Store.eraseRow, hs.primary]
  exact hs.put_primary _

theorem Holds.put_index (hs : s.Holds config h) (hname : config.name ∉ config.indices)
    {index : String} (hindex : index ∈ config.indices) (table : OrderedSet Bytes) :
    s.put index (.index table) = s.place config (h.setIndex index table) := by
  refine ext_table? fun name => ?_
  rw [table?_place, table?_put]
  by_cases hn : name = config.name
  · have hne : name ≠ index := fun he => hname (hn ▸ he ▸ hindex)
    rw [if_neg hne, if_pos hn, hn]
    exact hs.primary
  · rw [if_neg hn]
    by_cases hi : name = index
    · subst hi
      rw [if_pos rfl, if_pos hindex]
      simp only [Contents.setIndex, if_pos]
    · rw [if_neg hi]
      split
      · next hmem => simp only [Contents.setIndex, if_neg hi, hs.index name hmem]
      · rfl

end Store

/-! ## Calls as functions of contents -/

namespace Call

/-- The call gives the tables the contents that `r` says, or fails for what `r` says. -/
def Makes (x : Call σ α) (c : Context σ) (config : BucketConfig)
    (r : Except BucketError Contents) : Prop :=
  match r with
  | .ok h => ∃ a, x c = .ok a { c with store := c.store.place config h }
  | .error e => ∃ s, x c = .error (.failed e) { c with store := s }

namespace Makes

variable {c : Context σ} {config : BucketConfig} {h : Contents}

theorem pure (hs : c.store.Holds config h) (a : α) :
    Makes (pure a : Call σ α) c config (.ok h) := by
  refine ⟨a, ?_⟩
  rw [hs.place_eq]
  rfl

theorem edit {f : Store → Store} (hf : f c.store = c.store.place config h) :
    Makes (edit f : Call σ Unit) c config (.ok h) := by
  refine ⟨(), ?_⟩
  rw [edit_run, hf]

/-- What comes after a call that only answers. -/
theorem after {x : Call σ α} {f : α → Call σ β} {a : α} {r : Except BucketError Contents}
    (hx : x c = .ok a c) (hf : Makes (f a) c config r) : Makes (x >>= f) c config r := by
  unfold Makes at hf ⊢
  rw [bind_ok hx]
  exact hf

/-- What comes after a call that touches no other tables. -/
theorem ran {x : Call σ α} {f : α → Call σ β} {a : α} {s : Store} {r : Except BucketError Contents}
    (hx : x c = .ok a { c with store := s })
    (hplace : ∀ h, s.place config h = c.store.place config h)
    (hf : Makes (f a) { c with store := s } config r) : Makes (x >>= f) c config r := by
  unfold Makes at hf ⊢
  rw [bind_ok hx]
  cases r with
  | error e => exact hf
  | ok h => simpa only [hplace] using hf

/-- What comes after a call that fails is not reached. -/
theorem failed {x : Call σ α} {f : α → Call σ β} {e : BucketError}
    (hx : x c = .error (.failed e) c) : Makes (x >>= f) c config (.error e) :=
  ⟨c.store, bind_error hx⟩

/-- What comes after a call that gives the tables known contents works on these. -/
theorem step {x : Call σ α} {f : α → Call σ β} {r : Except BucketError Contents}
    (hx : Makes x c config (.ok h))
    (hf : ∀ a, Makes (f a) { c with store := c.store.place config h } config r) :
    Makes (x >>= f) c config r := by
  obtain ⟨a, hrun⟩ := hx
  exact ran hrun (fun h' => Store.place_place _ _ _ _) (hf a)

/-- **In sequence**, functions of contents are put together as the calls are. -/
theorem bind {x : Call σ α} {f : α → Call σ β} {r : Except BucketError Contents}
    {g : Contents → Except BucketError Contents} (hx : Makes x c config r)
    (hf : ∀ a h, Makes (f a) { c with store := c.store.place config h } config (g h)) :
    Makes (x >>= f) c config (r >>= g) := by
  cases r with
  | error e =>
    obtain ⟨s, hstop⟩ := hx
    exact ⟨s, bind_error hstop⟩
  | ok h => exact hx.step fun a => hf a h

/-- What ends a call and only answers does not change what it makes. -/
theorem andThen {x : Call σ α} {f : α → Call σ β} {r : Except BucketError Contents}
    (hx : Makes x c config r)
    (hf : ∀ a s, ∃ b, f a { c with store := s } = .ok b { c with store := s }) :
    Makes (x >>= f) c config r := by
  cases r with
  | error e =>
    obtain ⟨s, hstop⟩ := hx
    exact ⟨s, bind_error hstop⟩
  | ok h =>
    obtain ⟨a, hrun⟩ := hx
    obtain ⟨b, hend⟩ := hf a (c.store.place config h)
    exact ⟨b, (bind_ok hrun).trans hend⟩

theorem map {x : Call σ α} {r : Except BucketError Contents} (hx : Makes x c config r)
    (f : α → β) : Makes (x >>= fun a => Pure.pure (f a)) c config r :=
  hx.andThen fun a _ => ⟨f a, rfl⟩

/-- A call that looks at the token last. -/
theorem looked (hc : c.Quiet) {x : Call σ α} {r : Except BucketError Contents}
    (hx : Makes x c config r) :
    Makes (x >>= fun a => look >>= fun _ => Pure.pure a) c config r :=
  hx.andThen fun a s => ⟨a, bind_ok (look_ok (hc.setStore s))⟩

/-- A call that fails first if something is wrong. -/
theorem guarded {p : Prop} [Decidable p] {e : BucketError} {f : α → Call σ β} {x : Call σ β}
    {r : Except BucketError Contents} (hx : ¬ p → Makes x c config r) :
    Makes (if p then fail e >>= f else x) c config (if p then .error e else r) := by
  by_cases hp : p
  · rw [if_pos hp, if_pos hp]
    exact failed (fail_run e c)
  · rw [if_neg hp, if_neg hp]
    exact hx hp

end Makes

/-- A call that succeeds has given the tables the contents that it makes, and has done nothing else. -/
theorem Makes.of_ok {c c' : Context σ} {config : BucketConfig} {x : Call σ α}
    {r : Except BucketError Contents} {a : α} (hx : Makes x c config r) (hrun : x c = .ok a c') :
    ∃ h, r = .ok h ∧ c' = { c with store := c.store.place config h } := by
  cases r with
  | error e =>
    obtain ⟨s, hstop⟩ := hx
    rw [hrun] at hstop
    cases hstop
  | ok h =>
    obtain ⟨a', hok⟩ := hx
    rw [hrun] at hok
    cases hok
    exact ⟨h, rfl, rfl⟩

/-! ### Transactions -/

/-- The call ends in a quiet context and has given the tables the contents that `r` says, or it
stops for what `r` says and the store is as it was. -/
def Writes (x : Call σ Unit) (c : Context σ) (config : BucketConfig) (r : Except Stop Contents) :
    Prop :=
  match r with
  | .ok h => ∃ c', x c = .ok () c' ∧ c'.Quiet ∧ c'.store = c.store.place config h
  | .error stop => ∃ c', x c = .error stop c' ∧ c'.Quiet ∧ c'.store = c.store

variable {c : Context σ} {config : BucketConfig}

/-- A transaction that comes down to a call that fails is undone. -/
theorem Makes.run_error {c' : Context σ} (hstore : c'.store = c.store) {x y : Call σ α}
    (hxy : x c = y c') {e : BucketError} (hy : Makes y c' config (.error e)) (event : α → Event) :
    (atomically x >>= fun a => log (event a)) c = .error (.failed e) c' := by
  obtain ⟨s, hstop⟩ := hy
  refine (bind_error (atomically_error (hxy.trans hstop))).trans ?_
  rw [← hstore]

/-- A transaction that comes down to a call that succeeds is kept and logged. -/
theorem Makes.run_ok {c' : Context σ} (hstore : c'.store = c.store) {x y : Call σ α}
    (hxy : x c = y c') {h : Contents} (hy : Makes y c' config (.ok h)) (event : α → Event) :
    ∃ a, (atomically x >>= fun a => log (event a)) c
      = .ok () { c' with store := c.store.place config h, log := c'.log ++ [event a] } := by
  obtain ⟨a, hrun⟩ := hy
  rw [hstore] at hrun
  exact ⟨a, (bind_ok (atomically_ok (hxy.trans hrun))).trans (log_run _ _)⟩

/-- A transaction that comes down to a call makes of the contents what that call makes of them, or
nothing at all. -/
theorem Makes.writes_of_eq {c' : Context σ} (hc' : c'.Quiet) (hstore : c'.store = c.store)
    {x y : Call σ α} (hxy : x c = y c') {r : Except BucketError Contents}
    (hy : Makes y c' config r) (event : α → Event) :
    Writes (atomically x >>= fun a => log (event a)) c config (r.mapError .failed) := by
  cases r with
  | error e => exact ⟨c', hy.run_error hstore hxy event, hc', hstore⟩
  | ok h =>
    obtain ⟨a, hrun⟩ := hy.run_ok hstore hxy event
    exact ⟨_, hrun, ⟨hc'.deaf, hc'.calm⟩, rfl⟩

theorem Makes.writes (hc : c.Quiet) {x : Call σ α} {r : Except BucketError Contents}
    (hx : Makes x c config r) (event : α → Event) :
    Writes (atomically x >>= fun a => log (event a)) c config (r.mapError .failed) :=
  writes_of_eq hc rfl rfl hx event

theorem Writes.after {x : Call σ α} {f : α → Call σ Unit} {a : α} {r : Except Stop Contents}
    (hx : x c = .ok a c) (hf : Writes (f a) c config r) : Writes (x >>= f) c config r := by
  unfold Writes at hf ⊢
  rw [bind_ok hx]
  exact hf

/-- A call that succeeds has given the tables the contents that it makes. -/
theorem Writes.of_ok {x : Call σ Unit} {c' : Context σ} {r : Except Stop Contents}
    (hx : x.Writes c config r) (hrun : x c = .ok () c') :
    ∃ h, r = .ok h ∧ c'.Quiet ∧ c'.store = c.store.place config h := by
  cases r with
  | error stop =>
    obtain ⟨c'', hstop, -⟩ := hx
    rw [hrun] at hstop
    cases hstop
  | ok h =>
    obtain ⟨c'', hok, hquiet, hstore⟩ := hx
    rw [hrun] at hok
    cases hok
    exact ⟨h, rfl, hquiet, hstore⟩

end Call

end IndexedStore
