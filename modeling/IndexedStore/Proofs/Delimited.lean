import IndexedStore.Binary
import IndexedStore.Proofs.CompositeKey
import IndexedStore.Proofs.Failing
import IndexedStore.Proofs.OrderedMap

set_option autoImplicit false

/-! # Values tell where they end

A reader of the compact format takes a value off the front of the bytes. Here is what makes that
safe (`Binary.Takes`): given the bytes of the value and anything after them, the reader finds the
value and leaves the rest; given no more than a beginning of the bytes, it finds that they end too
early. Both are kept when one reader goes on where another has stopped (`Takes.bind`), so a structure
is delimited if its fields are, and a list if its members are.

A number has to be below the bound of its width, and so has a count. No other count occurs in a
machine: where the bytes of a value can be counted, so can its parts (`Binary.Regular`). -/

namespace IndexedStore

/-! ## Numbers -/

namespace Varint

/-- Numbers of a width are below this bound. -/
def Width.bound (w : Width) : Nat :=
  (w.lastGroup + 1) <<< (7 * (w.groups - 1))

/-- A number that does not fit in the last group is not left for it, and the rest of it fits in the
groups after this one. -/
theorem Width.rest_fits {w : Width} (hw : w.lastGroup < 128) {i n : Nat} (hi : i < w.groups)
    (hn : n < (w.lastGroup + 1) <<< (7 * (w.groups - 1 - i))) (hlarge : ¬ n < 128) :
    i + 1 < w.groups ∧ n / 128 < (w.lastGroup + 1) <<< (7 * (w.groups - 1 - (i + 1))) := by
  have hmore : i + 1 < w.groups := by
    refine Nat.lt_of_le_of_ne hi fun hend => ?_
    rw [← hend, Nat.add_sub_cancel, Nat.sub_self, Nat.mul_zero, Nat.shiftLeft_zero] at hn
    omega
  have hexp : 7 * (w.groups - 1 - i) = 7 * (w.groups - 1 - (i + 1)) + 7 := by omega
  rw [hexp, Nat.shiftLeft_add, Nat.shiftLeft_eq _ 7] at hn
  exact ⟨hmore, Nat.div_lt_of_lt_mul (Nat.mul_comm 128 _ ▸ hn)⟩

/-- **A number that is left** for the groups from `i` on is read, if they can hold it. -/
theorem takeFrom_encode_of_lt {w : Width} (hw : w.lastGroup < 128) {i low n : Nat}
    (hi : i < w.groups) (hn : n < (w.lastGroup + 1) <<< (7 * (w.groups - 1 - i))) (rest : Bytes) :
    takeFrom w i low (encode n ++ rest) = .ok (low + n <<< (7 * i), rest) := by
  induction n using Nat.strongRecOn generalizing i low with
  | ind n ih =>
    by_cases hlast : n < 128
    · have hfits : ¬ (i + 1 = w.groups ∧ w.lastGroup < n) := by
        rintro ⟨hend, hlt⟩
        rw [← hend, Nat.add_sub_cancel, Nat.sub_self, Nat.mul_zero, Nat.shiftLeft_zero] at hn
        omega
      rw [encode_of_lt hlast, List.cons_append, List.nil_append, takeFrom, if_pos hi]
      simp only [if_pos (lastGroup_lt hlast), toNat_lastGroup hlast, Nat.mod_eq_of_lt hlast,
        if_neg hfits]
    · obtain ⟨hmore, hrest⟩ := Width.rest_fits hw hi hn hlast
      rw [encode_of_le hlast, List.cons_append, takeFrom, if_pos hi]
      simp only [if_neg (not_group_lt n), toNat_group, Nat.add_mod_right, Nat.mod_mod]
      rw [ih (n / 128) (by omega) hmore hrest, Nat.add_assoc, split_group]

/-- **A beginning** of such a number ends too early. -/
theorem takeFrom_of_cut {w : Width} (hw : w.lastGroup < 128) {i low n : Nat} (hi : i < w.groups)
    (hn : n < (w.lastGroup + 1) <<< (7 * (w.groups - 1 - i))) {front back : Bytes}
    (hback : back ≠ []) (h : front ++ back = encode n) :
    takeFrom w i low front = .error .unended := by
  induction n using Nat.strongRecOn generalizing i low front with
  | ind n ih =>
    cases front with
    | nil => rw [takeFrom, if_pos hi]
    | cons b front =>
      by_cases hlast : n < 128
      · -- The only group is not cut.
        rw [encode_of_lt hlast, List.cons_append, List.cons.injEq, List.append_eq_nil_iff] at h
        exact absurd h.2.2 hback
      · obtain ⟨hmore, hrest⟩ := Width.rest_fits hw hi hn hlast
        rw [encode_of_le hlast, List.cons_append, List.cons.injEq] at h
        obtain ⟨rfl, hcut⟩ := h
        rw [takeFrom, if_pos hi]
        simp only [if_neg (not_group_lt n)]
        exact ih (n / 128) (by omega) hmore hrest hcut

/-- A number with fewer groups is below the least one with all of them. -/
theorem Width.lt_bound_of_more {w : Width} {i n : Nat} (hmore : i + 1 < w.groups)
    (hn : n < 1 <<< (7 * (i + 1))) : n < w.bound := by
  rw [Nat.one_shiftLeft] at hn
  calc n < 2 ^ (7 * (i + 1)) := hn
    _ ≤ 2 ^ (7 * (w.groups - 1)) := Nat.pow_le_pow_right (by decide) (by omega)
    _ ≤ w.bound := by
      rw [Width.bound, Nat.shiftLeft_eq]
      exact Nat.le_mul_of_pos_left _ (Nat.succ_pos _)

/-- A number whose last group is not too large is below the bound. -/
theorem Width.lt_bound_of_last {w : Width} {i low n : Nat} (hend : i + 1 = w.groups)
    (hlow : low < 1 <<< (7 * i)) (hn : n ≤ w.lastGroup) : low + (n % 128) <<< (7 * i) < w.bound := by
  have hlast : w.groups - 1 = i := by omega
  have hle : (n % 128) * 2 ^ (7 * i) ≤ w.lastGroup * 2 ^ (7 * i) :=
    Nat.mul_le_mul_right _ (Nat.le_trans (Nat.mod_le _ _) hn)
  rw [Nat.one_shiftLeft] at hlow
  rw [Width.bound, hlast, Nat.shiftLeft_eq, Nat.shiftLeft_eq, Nat.add_mul, Nat.one_mul]
  omega

/-- **What is read** is below the bound. -/
theorem lt_of_takeFrom {w : Width} {i low : Nat} (hlow : low < 1 <<< (7 * i)) {bytes : Bytes}
    {found : Nat × Bytes} (h : takeFrom w i low bytes = .ok found) : found.1 < w.bound := by
  induction bytes generalizing i low with
  | nil =>
    rw [takeFrom] at h
    split at h <;> cases h
  | cons b rest ih =>
    rw [takeFrom] at h
    split at h
    · next hi =>
      dsimp only at h
      split at h
      · split at h
        · cases h
        · next hwide =>
          cases h
          rcases Nat.lt_or_eq_of_le hi with hmore | hend
          · exact Width.lt_bound_of_more hmore (add_group_lt hlow b.toNat)
          · exact Width.lt_bound_of_last hend hlow (Nat.not_lt.mp fun hlt => hwide ⟨hend, hlt⟩)
      · exact ih (add_group_lt hlow b.toNat) h
    · cases h

theorem encode_pos (n : Nat) : 0 < (encode n).length := by
  rw [encode]
  split <;> simp

end Varint

namespace Binary

/-! ## Readers -/

/-- The reader takes the value off the front of its bytes, whatever follows them, and finds that
they end too early if it is given no more than a beginning of them. -/
structure Takes {α : Type} (reader : Bytes → Except Fault (α × Bytes)) (bytes : Bytes) (value : α) :
    Prop where
  whole : ∀ rest, reader (bytes ++ rest) = .ok (value, rest)
  cut : ∀ front back, back ≠ [] → front ++ back = bytes → reader front = .error .unexpectedEnd

namespace Takes

variable {α β : Type}

theorem pure (value : α) : Takes (fun bytes => .ok (value, bytes)) [] value := by
  refine ⟨fun rest => rfl, fun front back hback h => ?_⟩
  exact absurd (List.append_eq_nil_iff.mp h).2 hback

/-- **One reader after the other** takes one value after the other. -/
theorem bind {x : Bytes → Except Fault (α × Bytes)} {xs : Bytes} {a : α} (hx : Takes x xs a)
    {f : α × Bytes → Except Fault (β × Bytes)} {ys : Bytes} {b : β}
    (hf : Takes (fun rest => f (a, rest)) ys b) : Takes (fun bytes => x bytes >>= f) (xs ++ ys) b := by
  constructor
  · intro rest
    show x (xs ++ ys ++ rest) >>= f = _
    rw [List.append_assoc, hx.whole]
    exact hf.whole rest
  · intro front back hback h
    show x front >>= f = _
    rcases List.append_eq_append_iff.mp h with ⟨tail, rfl, rfl⟩ | ⟨head, rfl, rfl⟩
    · by_cases htail : tail = []
      -- All of the first value is there, and nothing of the second.
      · subst htail
        have hwhole := hx.whole []
        rw [List.append_nil, List.append_nil] at hwhole
        rw [hwhole]
        exact hf.cut [] ys hback rfl
      · rw [hx.cut front tail htail rfl]
        rfl
    · rw [hx.whole]
      exact hf.cut head back hback rfl

theorem map {x : Bytes → Except Fault (α × Bytes)} {xs : Bytes} {a : α} (hx : Takes x xs a)
    (g : α → β) : Takes (fun bytes => (x bytes).map fun found => (g found.1, found.2)) xs (g a) := by
  constructor
  · intro rest
    show (x (xs ++ rest)).map _ = _
    rw [hx.whole]
    rfl
  · intro front back hback h
    show (x front).map _ = _
    rw [hx.cut front back hback h]
    rfl

theorem number {w : Varint.Width} (hw : w.lastGroup < 128) (hgroups : 0 < w.groups) {n : Nat}
    (hn : n < w.bound) : Takes (takeNumber w) (Varint.encode n) n := by
  constructor
  · intro rest
    rw [takeNumber, Varint.take, Varint.takeFrom_encode_of_lt hw hgroups hn, Nat.mul_zero,
      Nat.shiftLeft_zero, Nat.zero_add]
  · intro front back hback h
    rw [takeNumber, Varint.take, Varint.takeFrom_of_cut hw hgroups hn hback h]

/-- A count is a number of 64 bits. -/
theorem count {n : Nat} (hn : n < UInt64.size) : Takes (takeNumber .w64) (Varint.encode n) n :=
  number (by decide) (by decide) hn

end Takes

/-- A number that is read is below the bound of its width. -/
theorem lt_of_takeNumber {w : Varint.Width} {bytes : Bytes} {found : Nat × Bytes}
    (h : takeNumber w bytes = .ok found) : found.1 < w.bound := by
  rw [takeNumber, Varint.take] at h
  cases hread : Varint.takeFrom w 0 0 bytes with
  | error fault => cases fault <;> simp [hread] at h
  | ok number =>
    rw [hread] at h
    cases h
    exact Varint.lt_of_takeFrom (by decide) hread

/-! ## Values -/

variable {α β : Type} [Form α] [Form β]

/-- The value is read off the front of whatever begins with its bytes, and no shorter beginning is
read. -/
def Delimited (value : α) : Prop :=
  Takes Form.take (Form.write value) value

theorem delimited_uInt8 (n : UInt8) : Delimited n := by
  refine ⟨fun rest => rfl, fun front back hback h => ?_⟩
  cases front with
  | nil => rfl
  | cons b front =>
    simp only [Form.write, List.cons_append, List.cons.injEq, List.append_eq_nil_iff] at h
    exact absurd h.2.2 hback

theorem delimited_uInt16 (n : UInt16) : Delimited n := by
  have h := (Takes.number (w := .w16) (by decide) (by decide) n.toNat_lt).map UInt16.ofNat
  rw [UInt16.ofNat_toNat] at h
  exact h

theorem delimited_uInt32 (n : UInt32) : Delimited n := by
  have h := (Takes.number (w := .w32) (by decide) (by decide) n.toNat_lt).map UInt32.ofNat
  rw [UInt32.ofNat_toNat] at h
  exact h

theorem delimited_uInt64 (n : UInt64) : Delimited n := by
  have h := (Takes.number (w := .w64) (by decide) (by decide) n.toNat_lt).map UInt64.ofNat
  rw [UInt64.ofNat_toNat] at h
  exact h

/-! ### Texts -/

/-- The text of a length in front, and the bytes after it. The bytes are counted before they are
read as a text. -/
def takeBody (length : Nat) (bytes : Bytes) : Except Fault (String × Bytes) :=
  if (bytes.take length).length < length then .error .unexpectedEnd
  else
    match Utf8.decode? (bytes.take length) with
    | none => .error .badUtf8
    | some text => .ok (text, bytes.drop length)

theorem take_string (bytes : Bytes) :
    Form.take bytes = takeNumber .w64 bytes >>= fun found => takeBody found.1 found.2 := by
  simp only [Form.take]
  cases takeNumber .w64 bytes with
  | error fault => rfl
  | ok found =>
    simp only [bind, Except.bind, takeBody]
    split
    · rfl
    · cases Utf8.decode? (found.2.take found.1) <;> rfl

theorem Takes.body (text : String) :
    Takes (takeBody (Utf8.encode text).length) (Utf8.encode text) text := by
  constructor
  · intro rest
    simp [takeBody]
  · intro front back hback h
    have hlength := congrArg List.length h
    have hpos := List.length_pos_iff.mpr hback
    rw [List.length_append] at hlength
    refine if_pos ?_
    rw [List.length_take]
    omega

/-- **A text** is delimited if its length is a number of 64 bits. -/
theorem delimited_string {text : String} (h : (Utf8.encode text).length < UInt64.size) :
    Delimited text := by
  have hparts := (Takes.count h).bind (f := fun found => takeBody found.1 found.2) (Takes.body text)
  constructor
  · intro rest
    rw [take_string]
    exact hparts.whole rest
  · intro front back hback hfront
    rw [take_string]
    exact hparts.cut front back hback hfront

/-- A text that is read is delimited. -/
theorem delimited_of_take_string {bytes : Bytes} {found : String × Bytes}
    (h : Form.take bytes = .ok found) : Delimited found.1 := by
  rw [take_string] at h
  obtain ⟨count, hcount, hbody⟩ := exists_of_bind_eq_ok h
  have hbound : count.1 < UInt64.size := lt_of_takeNumber hcount
  simp only [takeBody] at hbody
  split at hbody
  · cases hbody
  · split at hbody
    · cases hbody
    · next text hdecode =>
      cases hbody
      refine delimited_string ?_
      rw [Utf8.encode_of_decode? hdecode, List.length_take]
      omega

/-! ### Compound values -/

theorem delimited_pair {pair : α × β} (hfst : Delimited pair.1) (hsnd : Delimited pair.2) :
    Delimited pair :=
  hfst.bind (hsnd.map fun second => (pair.1, second))

theorem Takes.many (taken : List α) {values : List α} (h : ∀ value ∈ values, Delimited value) :
    Takes (takeMany α taken values.length) (values.flatMap Form.write) (taken.reverse ++ values) := by
  induction values generalizing taken with
  | nil =>
    rw [List.append_nil]
    exact Takes.pure taken.reverse
  | cons value values ih =>
    obtain ⟨hvalue, hvalues⟩ := List.forall_mem_cons.mp h
    have hparts := Takes.bind hvalue
      (f := fun found => takeMany α (found.1 :: taken) values.length found.2)
      (ih (value :: taken) hvalues)
    have heq : takeMany α taken (value :: values).length = fun bytes =>
        Form.take bytes >>= fun found => takeMany α (found.1 :: taken) values.length found.2 := by
      funext bytes
      rw [List.length_cons, takeMany]
      cases (Form.take bytes : Except Fault (α × Bytes)) <;> rfl
    rw [List.reverse_cons, List.append_assoc, List.singleton_append] at hparts
    rw [heq]
    exact hparts

/-- **A list** is delimited if its members are and its length is a number of 64 bits. -/
theorem delimited_list {values : List α} (hlength : values.length < UInt64.size)
    (h : ∀ value ∈ values, Delimited value) : Delimited values :=
  (Takes.count hlength).bind (Takes.many [] h)

theorem delimited_option {value : Option α} (h : ∀ inner, value = some inner → Delimited inner) :
    Delimited value := by
  cases value with
  | none =>
    refine ⟨fun rest => rfl, fun front back hback hfront => ?_⟩
    cases front with
    | nil => rfl
    | cons b front =>
      simp only [Form.write, List.cons_append, List.cons.injEq, List.append_eq_nil_iff] at hfront
      exact absurd hfront.2.2 hback
  | some inner =>
    have hinner := (h inner rfl).map some
    refine ⟨fun rest => hinner.whole rest, fun front back hback hfront => ?_⟩
    cases front with
    | nil => rfl
    | cons b front =>
      simp only [Form.write, List.cons_append, List.cons.injEq] at hfront
      obtain ⟨rfl, hfront⟩ := hfront
      exact hinner.cut front back hback hfront

/-- **A map** is delimited if the list of its rows is. -/
theorem delimited_map {m : OrderedMap String α} (h : Delimited m.toList) : Delimited m := by
  have hrows := h.map OrderedMap.ofList
  rw [OrderedMap.ofList_toList] at hrows
  exact hrows

end Binary

end IndexedStore
