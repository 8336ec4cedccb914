import IndexedStore.Proofs.Answers
import IndexedStore.Record.Card

set_option autoImplicit false

/-! # Pages of records

A page is cut out of the rows before anything is decoded, so what it shows, and whether it is shown
at all, depends on the rows at its own positions (`Bucket.list_eq`). A caller who asks for one page
after the other until one is empty (`Bucket.Paged`) gets the pages of what a listing without limit
shows. Each step moves by the size of a page and what it shows is what it moved over; from this the
pages that follow an offset make up the rest from there on (`Bucket.Paged.flatten_eq`). The rest
gets shorter with each page that is not empty, so an empty one is reached
(`Bucket.exists_paged`). -/

namespace IndexedStore

variable {R σ : Type}

/-! ## Rows that do not decode -/

/-- Why a row does not decode, if it does not. -/
def Codec.undecodable? (codec : Codec R) (row : Bytes × Bytes) : Option CodecError :=
  match codec.decode row.2 with
  | .ok _ => none
  | .error e => some e

namespace Codec

variable {codec : Codec R}

theorem undecodable?_eq_some_iff {row : Bytes × Bytes} {e : CodecError} :
    codec.undecodable? row = some e ↔ codec.decode row.2 = .error e := by
  unfold undecodable?
  cases codec.decode row.2 <;> simp

theorem undecodable?_eq_none_iff {row : Bytes × Bytes} :
    codec.undecodable? row = none ↔ ∃ record, codec.decode row.2 = .ok record := by
  unfold undecodable?
  cases codec.decode row.2 <;> simp

/-- Rows that all decode are those of some records. -/
theorem exists_decoded {rows : List (Bytes × Bytes)}
    (h : rows.findSome? codec.undecodable? = none) :
    ∃ records : List R, rows.map (fun row => codec.decode row.2) = records.map .ok := by
  induction rows with
  | nil => exact ⟨[], rfl⟩
  | cons row rest ih =>
    rw [List.findSome?_eq_none_iff, List.forall_mem_cons] at h
    obtain ⟨record, hrecord⟩ := undecodable?_eq_none_iff.mp h.1
    obtain ⟨records, hrecords⟩ := ih (List.findSome?_eq_none_iff.mpr h.2)
    exact ⟨record :: records, by rw [List.map_cons, List.map_cons, hrecord, hrecords]⟩

end Codec

namespace Bucket

open Call

/-! ## Positions -/

/-- The positions that a page shows. -/
def InPage (offset : Nat) (limit : Option Nat) (i : Nat) : Prop :=
  offset ≤ i ∧ ∀ l ∈ limit, i < offset + l

instance (offset : Nat) (limit : Option Nat) (i : Nat) : Decidable (InPage offset limit i) :=
  inferInstanceAs (Decidable (_ ∧ _))

section

variable {α : Type}

theorem getElem?_page (offset : Nat) (limit : Option Nat) (l : List α) (i : Nat) :
    (page offset limit l)[i]? = if InPage offset limit (offset + i) then l[offset + i]? else none := by
  cases limit with
  | none => simp [page, InPage]
  | some limit => simp [page, InPage, List.getElem?_take]

theorem mem_page_iff {offset : Nat} {limit : Option Nat} {l : List α} {a : α} :
    a ∈ page offset limit l ↔ ∃ i, InPage offset limit i ∧ l[i]? = some a := by
  rw [List.mem_iff_getElem?]
  simp only [getElem?_page, Option.ite_none_right_eq_some]
  constructor
  · rintro ⟨i, hi, ha⟩
    exact ⟨offset + i, hi, ha⟩
  · rintro ⟨i, hi, ha⟩
    obtain ⟨k, rfl⟩ := Nat.exists_eq_add_of_le hi.1
    exact ⟨k, hi, ha⟩

/-- A limit that reaches the end is none. -/
theorem page_of_le {offset limit : Nat} {l : List α} (h : l.length ≤ offset + limit) :
    page offset (some limit) l = page offset none l := by
  refine List.take_of_length_le ?_
  rw [List.length_drop]
  omega

theorem page_append_drop (offset size : Nat) (l : List α) :
    page offset (some size) l ++ l.drop (offset + size) = l.drop offset := by
  rw [← List.drop_drop]
  exact List.take_append_drop size (l.drop offset)

theorem page_eq_nil_iff {offset size : Nat} (hsize : 1 ≤ size) {l : List α} :
    page offset (some size) l = [] ↔ l.length ≤ offset := by
  have hpos : size ≠ 0 := by omega
  simp [page, List.take_eq_nil_iff, hpos, List.drop_eq_nil_iff]

end

/-! ## One page -/

variable (b : Bucket R) {c : Context σ} {stored : OrderedMap Bytes Bytes}

theorem decodeEach_of_decoded (hc : c.Quiet) {rows : List (Bytes × Bytes)} {records : List R}
    (h : rows.map (fun row => b.codec.decode row.2) = records.map .ok) :
    b.decodeEach rows c = .ok records c := by
  induction rows generalizing records with
  | nil =>
    obtain rfl := List.map_eq_nil_iff.mp h.symm
    rfl
  | cons row rest ih =>
    cases records with
    | nil => cases h
    | cons record records =>
      rw [List.map_cons, List.map_cons, List.cons.injEq] at h
      rw [decodeEach, bind_ok (look_ok hc), bind_ok (decode_ok hc h.1), bind_ok (ih h.2)]
      rfl

theorem decodeEach_of_undecodable (hc : c.Quiet) {rows : List (Bytes × Bytes)} {e : CodecError}
    (h : rows.findSome? b.codec.undecodable? = some e) :
    b.decodeEach rows c = .error (.failed (.codec e)) c := by
  induction rows with
  | nil => cases h
  | cons row rest ih =>
    rw [List.findSome?_cons] at h
    rw [decodeEach, bind_ok (look_ok hc)]
    cases hrow : b.codec.undecodable? row with
    | some found =>
      rw [hrow] at h
      cases h
      have hdecode := Codec.undecodable?_eq_some_iff.mp hrow
      rw [bind_error ((decode_eq hc _ _).trans (lift_error hdecode c))]
    | none =>
      rw [hrow] at h
      obtain ⟨record, hrecord⟩ := Codec.undecodable?_eq_none_iff.mp hrow
      rw [bind_ok (decode_ok hc hrecord), bind_error (ih h)]

theorem list_run (hc : c.Quiet) (hstored : c.store.table? b.name = some (.primary stored))
    (offset : Nat) (limit : Option Nat) :
    b.list offset limit c = (do
      let records ← b.decodeEach (page offset limit stored.toList)
      return (records, stored.size) : Call σ (List R × Nat)) c := by
  rw [list, bind_ok (look_ok hc), bind_ok (rows_ok hstored), bind_ok (lookEach_ok hc _)]
  cases limit <;> rfl

/-- **A page** shows what its own rows decode to, and fails for the first of them that does not
decode. -/
theorem list_eq (hc : c.Quiet) (hstored : c.store.table? b.name = some (.primary stored))
    (offset : Nat) (limit : Option Nat) :
    match (page offset limit stored.toList).findSome? b.codec.undecodable? with
    | some e => b.list offset limit c = .error (.failed (.codec e)) c
    | none => ∃ shown, b.list offset limit c = .ok (shown, stored.size) c ∧
        (page offset limit stored.toList).map (fun row => b.codec.decode row.2)
          = shown.map .ok := by
  rw [b.list_run hc hstored]
  cases hpage : (page offset limit stored.toList).findSome? b.codec.undecodable? with
  | some e => exact bind_error (b.decodeEach_of_undecodable hc hpage)
  | none =>
    obtain ⟨shown, hshown⟩ := Codec.exists_decoded hpage
    exact ⟨shown, bind_ok (b.decodeEach_of_decoded hc hshown), hshown⟩

/-- Where all rows decode, a page shows the records at its positions. -/
theorem list_of_decoded (hc : c.Quiet) (hstored : c.store.table? b.name = some (.primary stored))
    {records : List R}
    (hdecoded : stored.toList.map (fun row => b.codec.decode row.2) = records.map .ok)
    (offset : Nat) (limit : Option Nat) :
    b.list offset limit c = .ok (page offset limit records, stored.size) c := by
  have hpage : (page offset limit stored.toList).map (fun row => b.codec.decode row.2)
      = (page offset limit records).map .ok := by
    rw [← page_map, ← page_map, hdecoded]
  rw [b.list_run hc hstored, bind_ok (b.decodeEach_of_decoded hc hpage)]
  rfl

/-- **A page fails** exactly if one of its own positions has a row that does not decode. -/
theorem list_fails_iff (hc : c.Quiet)
    (hstored : c.store.table? b.name = some (.primary stored)) (offset : Nat)
    (limit : Option Nat) :
    (∃ stop c', b.list offset limit c = .error stop c') ↔
      ∃ i row e, InPage offset limit i ∧ stored.toList[i]? = some row ∧
        b.codec.decode row.2 = .error e := by
  have heq := b.list_eq hc hstored offset limit
  constructor
  · rintro ⟨stop, c', hstop⟩
    cases hpage : (page offset limit stored.toList).findSome? b.codec.undecodable? with
    | none =>
      rw [hpage] at heq
      obtain ⟨shown, hrun, -⟩ := heq
      rw [hrun] at hstop
      cases hstop
    | some e =>
      obtain ⟨row, hrow, hfault⟩ := List.exists_of_findSome?_eq_some hpage
      obtain ⟨i, hi, hat⟩ := mem_page_iff.mp hrow
      exact ⟨i, row, e, hi, hat, Codec.undecodable?_eq_some_iff.mp hfault⟩
  · rintro ⟨i, row, e, hi, hat, hfault⟩
    cases hpage : (page offset limit stored.toList).findSome? b.codec.undecodable? with
    | none =>
      have hnone := List.findSome?_eq_none_iff.mp hpage row (mem_page_iff.mpr ⟨i, hi, hat⟩)
      rw [Codec.undecodable?_eq_some_iff.mpr hfault] at hnone
      cases hnone
    | some first =>
      rw [hpage] at heq
      exact ⟨_, c, heq⟩

/-! ## One page after the other -/

/-- The pages of a size that a caller gets from an offset on, up to the first empty one. -/
inductive Paged (b : Bucket R) (size : Nat) :
    Nat → Context σ → List (List R) → Context σ → Prop where
  /-- The page is empty, and no other is asked for. -/
  | done {offset total : Nat} {c c' : Context σ} :
    b.list offset (some size) c = .ok ([], total) c' → Paged b size offset c [] c'
  /-- The page is not empty, and the next one is asked for. -/
  | next {offset total : Nat} {c c' c'' : Context σ} {shown : List R} {pages : List (List R)} :
    b.list offset (some size) c = .ok (shown, total) c' → shown ≠ [] →
    Paged b size (offset + size) c' pages c'' → Paged b size offset c (shown :: pages) c''

variable {b} {size : Nat} {records : List R} {total : Nat}

/-- **The pages from an offset on** make up the rest from there on. -/
theorem Paged.flatten_eq (hsize : 1 ≤ size)
    (hlist : ∀ offset limit, b.list offset limit c = .ok (page offset limit records, total) c)
    {offset : Nat} {pages : List (List R)} {c' : Context σ}
    (h : b.Paged size offset c pages c') : c' = c ∧ pages.flatten = records.drop offset := by
  induction h with
  | done hpage =>
    rw [hlist] at hpage
    simp only [EStateM.Result.ok.injEq, Prod.mk.injEq] at hpage
    obtain ⟨⟨hempty, -⟩, rfl⟩ := hpage
    exact ⟨rfl, (List.drop_eq_nil_of_le ((page_eq_nil_iff hsize).mp hempty)).symm⟩
  | next hpage _ _ ih =>
    rw [hlist] at hpage
    simp only [EStateM.Result.ok.injEq, Prod.mk.injEq] at hpage
    obtain ⟨⟨rfl, -⟩, rfl⟩ := hpage
    obtain ⟨rfl, hrest⟩ := ih hlist
    exact ⟨rfl, by rw [List.flatten_cons, hrest, page_append_drop]⟩

/-- **An empty page is reached.** -/
theorem exists_paged (hsize : 1 ≤ size)
    (hlist : ∀ offset limit, b.list offset limit c = .ok (page offset limit records, total) c)
    (offset : Nat) : ∃ pages, b.Paged size offset c pages c := by
  induction hrest : records.length - offset using Nat.strongRecOn generalizing offset with
  | ind rest ih =>
    by_cases hempty : page offset (some size) records = []
    · exact ⟨[], .done (hempty ▸ hlist offset (some size))⟩
    · have hmore : ¬ records.length ≤ offset := fun hle => hempty ((page_eq_nil_iff hsize).mpr hle)
      obtain ⟨pages, hpages⟩ := ih (records.length - (offset + size)) (by omega) _ rfl
      exact ⟨_, .next (hlist offset (some size)) hempty hpages⟩

/-- **Paging shows every record once.** The number of records is the total of every page. Where all
rows decode, a page shows the records at its positions, in the order of their keys and as far as
there are any; asking for one page of some size after the other comes to an empty page, and what was
shown until then is what a listing without limit shows. No limit is the same as one that reaches the
end. A page fails for the first of its own rows that does not decode, and not for others. -/
theorem list_covers (b : Bucket R) (hc : c.Quiet)
    (hstored : c.store.table? b.name = some (.primary stored)) :
    b.size c = .ok stored.size c ∧
    stored.keys.Pairwise (fun k l => compare k l = .lt) ∧
    (∀ records, stored.toList.map (fun row => b.codec.decode row.2) = records.map .ok →
      (∀ offset limit, ∃ shown, b.list offset limit c = .ok (shown, stored.size) c ∧
        ∀ i, shown[i]? = if InPage offset limit (offset + i) then records[offset + i]? else none) ∧
      b.list 0 none c = .ok (records, stored.size) c ∧
      ∀ size, 1 ≤ size → (∃ pages, b.Paged size 0 c pages c) ∧
        ∀ pages c', b.Paged size 0 c pages c' → c' = c ∧ pages.flatten = records) ∧
    (∀ offset limit, stored.size ≤ offset + limit →
      b.list offset (some limit) c = b.list offset none c) ∧
    ∀ offset limit,
      ((∃ stop c', b.list offset limit c = .error stop c') ↔
        ∃ i row e, InPage offset limit i ∧ stored.toList[i]? = some row ∧
          b.codec.decode row.2 = .error e) ∧
      ∀ stop c', b.list offset limit c = .error stop c' → c' = c ∧
        ∃ e, stop = .failed (.codec e) ∧
          (page offset limit stored.toList).findSome? b.codec.undecodable? = some e := by
  refine ⟨?_, stored.keys_ascending, fun records hdecoded => ?_, fun offset limit hlimit => ?_,
    fun offset limit => ⟨b.list_fails_iff hc hstored offset limit, fun stop c' hstop => ?_⟩⟩
  · rw [size, bind_ok (rows_ok hstored)]
    rfl
  · have hlist := b.list_of_decoded hc hstored hdecoded
    refine ⟨fun offset limit => ⟨_, hlist offset limit, getElem?_page offset limit records⟩,
      hlist 0 none, fun size hsize => ⟨exists_paged hsize hlist 0, fun pages c' hpaged => ?_⟩⟩
    exact hpaged.flatten_eq hsize hlist
  · rw [b.list_run hc hstored, b.list_run hc hstored, page_of_le hlimit]
  · have heq := b.list_eq hc hstored offset limit
    cases hpage : (page offset limit stored.toList).findSome? b.codec.undecodable? with
    | none =>
      rw [hpage] at heq
      obtain ⟨shown, hrun, -⟩ := heq
      rw [hrun] at hstop
      cases hstop
    | some e =>
      rw [hpage] at heq
      rw [heq] at hstop
      cases hstop
      exact ⟨rfl, e, rfl, rfl⟩

/-! ### Three cards in pages of two, and a page before a card that does not decode -/

theorem list_covers_cards :
    let b : Bucket Card := ⟨⟨"cards", []⟩, .cards, ⟨none, [], [], 0⟩⟩
    let cards : List Card := [⟨[7], 1⟩, ⟨[8], 2⟩, ⟨[9], 1⟩]
    let stored : OrderedMap Bytes Bytes := .ofList [([7], [1, 7]), ([8], [2, 8]), ([9], [1, 9])]
    let damaged : OrderedMap Bytes Bytes := .ofList [([7], [1, 7]), ([8], [2, 8]), ([9], [])]
    let c : Context Unit := quiet (Store.empty.put "cards" (.primary stored)) [] ()
    let d : Context Unit := quiet (Store.empty.put "cards" (.primary damaged)) [] ()
    c.Quiet ∧ c.store.table? b.name = some (.primary stored) ∧ d.Quiet ∧
      d.store.table? b.name = some (.primary damaged) ∧
      stored.toList.map (fun row => b.codec.decode row.2) = cards.map .ok ∧
      b.list 0 none c = .ok (cards, 3) c ∧
      (∃ pages, b.Paged 2 0 c pages c ∧ pages.flatten = cards) ∧
      (∃ stop c', b.list 1 none d = .error stop c') ∧
      ¬ ∃ stop c', b.list 0 (some 2) d = .error stop c' := by
  intro b cards stored damaged c d
  have hc : c.Quiet := Context.quiet_quiet _ _ _
  have hd : d.Quiet := Context.quiet_quiet _ _ _
  have hstored : c.store.table? b.name = some (.primary stored) := by decide +kernel
  have hdamaged : d.store.table? b.name = some (.primary damaged) := by decide +kernel
  have hrows : stored.toList = [([7], [1, 7]), ([8], [2, 8]), ([9], [1, 9])] := by decide +kernel
  have hdecoded : stored.toList.map (fun row => b.codec.decode row.2) = cards.map .ok := by
    rw [hrows]
    rfl
  obtain ⟨-, -, hpages, -⟩ := Bucket.list_covers b hc hstored
  obtain ⟨-, hall, hpaged⟩ := hpages cards hdecoded
  obtain ⟨⟨pages, hwalk⟩, hunique⟩ := hpaged 2 (by decide)
  obtain ⟨-, -, -, -, hfails⟩ := Bucket.list_covers b hd hdamaged
  refine ⟨hc, hstored, hd, hdamaged, hdecoded, hall, ⟨pages, hwalk, (hunique _ _ hwalk).2⟩,
    (hfails 1 none).1.mpr ⟨2, ([9], []), _, by decide, rfl, rfl⟩, fun hstop => ?_⟩
  -- The row that does not decode is behind the page.
  obtain ⟨i, row, e, ⟨-, hlimit⟩, hrow, hfault⟩ := (hfails 0 (some 2)).1.mp hstop
  have hi : i < 2 := by simpa using hlimit 2 rfl
  obtain rfl | rfl : i = 0 ∨ i = 1 := by omega
  all_goals
    cases hrow
    cases hfault

end Bucket

end IndexedStore
