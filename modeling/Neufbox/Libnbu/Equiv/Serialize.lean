import Neufbox.Libnbu.Equiv.List
import Neufbox.Libnbu.Serialize

/-!
# The round trip of a serialized list

`Wrote v bytes` is the invariant of the writer: `b_used` and the write pointer are at the end of
`bytes`, which the block holds and has room for.  It is kept by an item as long as everything fits
in an `int` (`serializeItem_of_fits`); an item that does not fit is copied past the end of the
block, if the allocator grants everything (`serializeItem_of_not_fits`).  The reader is followed
along the bytes that were written (`unserializeLoop_eq`).

`serialize_round_trip_iff` is the round trip with the exact condition for it.
-/

namespace Neufbox.Libnbu

open Memory
open Libnbd (Abi)

variable {ι α : Type}

/-! ### Sizes -/

theorem two_pow_le_wordSize (abi : Abi) : 2 ^ 32 ≤ 256 ^ abi.wordBytes := by
  rcases abi.wordBytes_eq with h | h <;> rw [h] <;> decide

theorem toInt_of_lt {x : ℕ} (h : x < 2 ^ 31) : toInt x = x := by
  rw [toInt, BitVec.toInt_eq_toNat_of_lt, BitVec.toNat_ofNat, Nat.mod_eq_of_lt (by omega)]
  rw [BitVec.toNat_ofNat, Nat.mod_eq_of_lt (by omega)]
  omega

theorem toInt_lt (x : ℕ) : toInt x < 2 ^ 31 := BitVec.toInt_lt

/-- The size of an item that fits. -/
theorem toInt_need_of_lt (abi : Abi) {n : ℕ} (h : abi.wordBytes + n < 2 ^ 31) :
    toInt ((abi.wordBytes + n) % 256 ^ abi.wordBytes) = (abi.wordBytes + n : ℕ) := by
  have := two_pow_le_wordSize abi
  rw [Nat.mod_eq_of_lt (by omega), toInt_of_lt h]

theorem grants_natCast (alloc : ℕ → Bool) (n : ℕ) : grants alloc n = alloc n := by
  simp [grants]

/-! ### The writer -/

/-- The bytes were written, up to the write pointer, and lie in the block. -/
structure Wrote (v : Serializing) (bytes : List UInt8) : Prop where
  used : v.bUsed = bytes.length
  p : v.p = bytes.length
  le : bytes.length ≤ v.bAlloc
  lt : v.bAlloc < 2 ^ 31
  mem : read v.mem 0 bytes.length = bytes

/-- An item as it is stored. -/
def packItem (abi : Abi) (item : List UInt8) : List UInt8 :=
  abi.endian.encode abi.wordBytes item.length ++ item

theorem length_packItem (abi : Abi) (item : List UInt8) :
    (packItem abi item).length = abi.wordBytes + item.length := by
  rw [packItem, List.length_append, Endian.length_encode]

theorem length_append_packItem (abi : Abi) (bytes item : List UInt8) :
    (bytes ++ packItem abi item).length = bytes.length + abi.wordBytes + item.length := by
  rw [List.length_append, length_packItem, Nat.add_assoc]

theorem read_write_packItem {m : ℕ → UInt8} {bytes : List UInt8} (abi : Abi) (item : List UInt8)
    (h : read m 0 bytes.length = bytes) :
    let mem := write m bytes.length (abi.endian.encode abi.wordBytes item.length)
    let mem := write mem (bytes.length + abi.wordBytes) item
    read mem 0 (bytes ++ packItem abi item).length = bytes ++ packItem abi item := by
  intro mem mem'
  have hword := Endian.length_encode abi.endian abi.wordBytes item.length
  rw [packItem, ← List.append_assoc, read_eq_append_iff, read_eq_append_iff]
  refine ⟨⟨?_, ?_⟩, ?_⟩
  · rw [read_write_of_disjoint _ _ _ (by omega), read_write_of_disjoint _ _ _ (by omega), h]
  · rw [Nat.zero_add, read_write_of_disjoint _ _ _ (by omega)]
    exact read_write_self ..
  · rw [List.length_append, hword, Nat.zero_add]
    exact read_write_self ..

variable {abi : Abi} {alloc : ℕ → Bool} {v : Serializing} {bytes item : List UInt8}

/-- The write pointer after the block was grown is where it was. -/
theorem Wrote.grow (h : Wrote v bytes) {n : ℕ} (hn : bytes.length ≤ n) (hlt : n < 2 ^ 31) :
    Wrote { v with bAlloc := n, p := v.bUsed.toNat } bytes where
  used := h.used
  p := by
    show v.bUsed.toNat = bytes.length
    rw [h.used, Int.toNat_natCast]
  le := Int.ofNat_le.mpr hn
  lt := by simpa using Int.ofNat_lt.mpr hlt
  mem := h.mem

/-- An item is copied into a block that has room for it. -/
theorem Wrote.append (h : Wrote v bytes)
    (hroom : ((bytes ++ packItem abi item).length : Int) ≤ v.bAlloc) :
    Wrote { v with
      mem := write (write v.mem v.p (abi.endian.encode abi.wordBytes item.length))
        (v.p + abi.wordBytes) item
      p := v.p + abi.wordBytes + item.length
      bUsed := v.bUsed + (abi.wordBytes + item.length : ℕ) } (bytes ++ packItem abi item) where
  used := by
    simp only [h.used, List.length_append, length_packItem, Int.natCast_add]
  p := by
    simp only [h.p, List.length_append, length_packItem, Nat.add_assoc]
  le := hroom
  lt := h.lt
  mem := by
    simp only [h.p]
    exact read_write_packItem abi item h.mem

/-- **An item that fits** is appended, if there is memory. -/
theorem serializeItem_of_fits (alloc : ℕ → Bool) (h : Wrote v bytes)
    (hfits : bytes.length + abi.wordBytes + item.length < 2 ^ 31) :
    (∃ v', serializeItem abi alloc v item = .done v' ∧ Wrote v' (bytes ++ packItem abi item)) ∨
      (serializeItem abi alloc v item = .error ∧ ∃ n, alloc n = false) := by
  have hneed : toInt ((abi.wordBytes + item.length) % 256 ^ abi.wordBytes)
      = (abi.wordBytes + item.length : ℕ) := toInt_need_of_lt abi (by omega)
  have hlength := length_append_packItem abi bytes item
  have hle := h.le
  have hused := h.used
  have hint : IsInt (v.bUsed + (abi.wordBytes + item.length : ℕ)) := by
    unfold IsInt
    omega
  rw [serializeItem, hneed]
  simp only [hint, not_true_eq_false, if_false]
  by_cases hgrow : v.bUsed + (abi.wordBytes + item.length : ℕ) > v.bAlloc
  · simp only [hgrow, true_and, if_true]
    have hsum : v.bUsed + (abi.wordBytes + item.length : ℕ)
        = (bytes ++ packItem abi item).length := by omega
    cases hgrant : grants alloc (v.bUsed + (abi.wordBytes + item.length : ℕ)) with
    | false =>
      rw [hsum, grants_natCast] at hgrant
      exact .inr ⟨rfl, _, hgrant⟩
    | true =>
      have hwrote := h.grow (n := (bytes ++ packItem abi item).length) (by omega) (by omega)
      refine .inl ⟨_, ?_, hwrote.append (le_refl _)⟩
      rw [if_neg (by exact nofun), hsum, if_neg (by omega)]
  · have hroom : ((bytes ++ packItem abi item).length : Int) ≤ v.bAlloc := by omega
    refine .inl ⟨_, ?_, h.append hroom⟩
    have hp := h.p
    simp only [hgrow, false_and, if_false]
    rw [if_neg (by omega)]

/-- **An item that does not fit** is copied past the end of the block, if every request for memory
is granted. -/
theorem serializeItem_of_not_fits (h : Wrote v bytes)
    (hfits : 2 ^ 31 ≤ bytes.length + abi.wordBytes + item.length) (halloc : ∀ n, alloc n = true) :
    serializeItem abi alloc v item = .undefined := by
  have hused := h.used
  have hlt := h.lt
  have hp := h.p
  rw [serializeItem]
  generalize toInt ((abi.wordBytes + item.length) % 256 ^ abi.wordBytes) = bNeed
  by_cases hint : IsInt (v.bUsed + bNeed)
  · simp only [hint, not_true_eq_false, if_false]
    have hsum : v.bUsed + bNeed < 2 ^ 31 := hint.2
    by_cases hgrow : v.bUsed + bNeed > v.bAlloc
    · have hgrant : grants alloc (v.bUsed + bNeed) = true := by
        have hle := h.le
        simpa [grants, halloc] using by omega
      simp only [hgrow, hgrant, if_true]
      rw [if_neg (by simp), if_pos (by omega)]
    · simp only [hgrow, false_and, if_false]
      rw [if_pos (by omega)]
  · simp only [hint, not_false_eq_true, if_true]

/-! ### The loop of the writer -/

/-- Everything up to the first item that has no encoding fits in an `int`, after `used` bytes. -/
def Fits (abi : Abi) (encode : α → Option (List UInt8)) : ℕ → List α → Prop
  | _, [] => True
  | used, x :: items => ∀ item, encode x = some item →
      used + abi.wordBytes + item.length < 2 ^ 31 ∧
        Fits abi encode (used + abi.wordBytes + item.length) items

/-- The items as they are stored. -/
def pack (abi : Abi) (encodings : List (List UInt8)) : List UInt8 :=
  encodings.flatMap (packItem abi)

theorem pack_cons (abi : Abi) (item : List UInt8) (encodings : List (List UInt8)) :
    pack abi (item :: encodings) = packItem abi item ++ pack abi encodings := rfl

section Loop

variable {funcs : ItemFuncs α} {alloc : ℕ → ℕ → Bool} {list : NbuList ι α} {l₂ : List (ι × α)}

/-- One round, at a node of the ring. -/
theorem serializeLoop_cons {l₁ : List (ι × α)} {e : ι × α} (hring : Ringed list (l₁ ++ e :: l₂))
    (fuel i : ℕ) (v : Serializing) :
    serializeLoop abi funcs alloc list (fuel + 1) i (some (firstOr .root (refs (e :: l₂)))) v
      = match funcs.encode list.dataSize e.2 with
        | none => .error
        | some item =>
          match serializeItem abi (alloc i) v item with
          | .done v =>
            serializeLoop abi funcs alloc list fuel (i + 1) (some (firstOr .root (refs l₂))) v
          | .undefined => .undefined
          | .error => .error := by
  obtain ⟨n, hn, hnext, -, hdata⟩ := hring.exists_node
  have hn : list.heap e.1 = some n := hn
  rw [refs_cons, firstOr_cons, serializeLoop]
  cases hitem : funcs.encode list.dataSize e.2 with
  | none => simp only [hn, hdata, hitem]
  | some item =>
    cases hwritten : serializeItem abi (alloc i) v item <;>
      simp only [hn, hdata, hnext, hitem, hwritten]

/-- **What was written when everything fits.**  By induction on the entries to go. -/
theorem serializeLoop_of_fits {l₁ : List (ι × α)} (hring : Ringed list (l₁ ++ l₂)) {fuel i : ℕ}
    (hfuel : l₂.length < fuel) (h : Wrote v bytes)
    (hfits : Fits abi (funcs.encode list.dataSize) bytes.length (l₂.map Prod.snd)) :
    (∃ v' encodings,
      serializeLoop abi funcs alloc list fuel i (some (firstOr .root (refs l₂))) v = .done v' ∧
        (l₂.map Prod.snd).map (funcs.encode list.dataSize) = encodings.map some ∧
        Wrote v' (bytes ++ pack abi encodings)) ∨
      (serializeLoop abi funcs alloc list fuel i (some (firstOr .root (refs l₂))) v = .error ∧
        ((∃ x ∈ l₂.map Prod.snd, funcs.encode list.dataSize x = none) ∨
          ∃ i n, alloc i n = false)) := by
  induction l₂ generalizing l₁ fuel i v bytes with
  | nil =>
    obtain ⟨fuel, rfl⟩ := Nat.exists_eq_succ_of_ne_zero (Nat.ne_zero_of_lt hfuel)
    exact .inl ⟨v, [], rfl, rfl, by simpa [pack] using h⟩
  | cons e l₂ ih =>
    obtain ⟨fuel, rfl⟩ := Nat.exists_eq_succ_of_ne_zero (Nat.ne_zero_of_lt hfuel)
    rw [serializeLoop_cons hring]
    cases henc : funcs.encode list.dataSize e.2 with
    | none => exact .inr ⟨rfl, .inl ⟨e.2, by simp, henc⟩⟩
    | some item =>
      obtain ⟨hlt, hfits⟩ := hfits item henc
      rcases serializeItem_of_fits (alloc i) h hlt with ⟨v', hitem, h'⟩ | ⟨hitem, n, hn⟩
      · have hring' : Ringed list (l₁ ++ [e] ++ l₂) := by rwa [List.append_assoc]
        simp only [hitem]
        rw [← length_append_packItem] at hfits
        rcases ih hring' (i := i + 1) (Nat.lt_of_succ_lt_succ hfuel) h' hfits with
          ⟨v'', encodings, hloop, hencodings, hwrote⟩ | ⟨hloop, herror⟩
        · refine .inl ⟨v'', item :: encodings, hloop, ?_, ?_⟩
          · rw [List.map_cons, List.map_cons, henc, hencodings, List.map_cons]
          · rwa [pack_cons, ← List.append_assoc]
        · refine .inr ⟨hloop, herror.imp_left ?_⟩
          rintro ⟨x, hx, hnone⟩
          exact ⟨x, List.mem_cons_of_mem _ hx, hnone⟩
      · exact .inr ⟨by simp only [hitem], .inr ⟨i, n, hn⟩⟩

/-- **What happens when something does not fit** and every request for memory is granted. -/
theorem serializeLoop_of_not_fits {l₁ : List (ι × α)} (hring : Ringed list (l₁ ++ l₂)) {fuel i : ℕ}
    (hfuel : l₂.length < fuel) (h : Wrote v bytes) (halloc : ∀ i n, alloc i n = true)
    (hfits : ¬ Fits abi (funcs.encode list.dataSize) bytes.length (l₂.map Prod.snd)) :
    serializeLoop abi funcs alloc list fuel i (some (firstOr .root (refs l₂))) v = .undefined := by
  induction l₂ generalizing l₁ fuel i v bytes with
  | nil => exact absurd trivial hfits
  | cons e l₂ ih =>
    obtain ⟨fuel, rfl⟩ := Nat.exists_eq_succ_of_ne_zero (Nat.ne_zero_of_lt hfuel)
    rw [serializeLoop_cons hring]
    simp only [List.map_cons, Fits, not_forall, not_and_or] at hfits
    obtain ⟨item, henc, hfits⟩ := hfits
    simp only [henc]
    by_cases hlt : bytes.length + abi.wordBytes + item.length < 2 ^ 31
    · rcases serializeItem_of_fits (alloc i) h hlt with ⟨v', hitem, h'⟩ | ⟨-, n, hn⟩
      · have hring' : Ringed list (l₁ ++ [e] ++ l₂) := by rwa [List.append_assoc]
        simp only [hitem]
        refine ih hring' (Nat.lt_of_succ_lt_succ hfuel) h' ?_
        rw [length_append_packItem]
        exact hfits.resolve_left (not_not_intro hlt)
      · exact absurd (halloc i n) (by simp [hn])
    · simp only [serializeItem_of_not_fits h (Nat.not_lt.mp hlt) (halloc i)]

variable {t : Cursored (ι × α)}

theorem Holds.serializeLoop_of_fits (h : Holds list t) (alloc : ℕ → ℕ → Bool) {fuel i : ℕ}
    (hfuel : t.items.length < fuel) (hv : Wrote v bytes)
    (hfits : Fits abi (funcs.encode list.dataSize) bytes.length (t.items.map Prod.snd)) :
    (∃ v' encodings, serializeLoop abi funcs alloc list fuel i list.rootnode.next v = .done v' ∧
        (t.items.map Prod.snd).map (funcs.encode list.dataSize) = encodings.map some ∧
        Wrote v' (bytes ++ pack abi encodings)) ∨
      (serializeLoop abi funcs alloc list fuel i list.rootnode.next v = .error ∧
        ((∃ x ∈ t.items.map Prod.snd, funcs.encode list.dataSize x = none) ∨
          ∃ i n, alloc i n = false)) := by
  by_cases ht : t = .fresh
  · subst ht
    obtain ⟨fuel, rfl⟩ := Nat.exists_eq_succ_of_ne_zero (Nat.ne_zero_of_lt hfuel)
    obtain ⟨hroot, -⟩ := h.shape
    rw [hroot]
    exact .inl ⟨v, [], rfl, rfl, by simpa [pack] using hv⟩
  · have hring := h.ringed ht
    rw [hring.rootnode_next]
    exact Libnbu.serializeLoop_of_fits (show Ringed list ([] ++ t.items) from hring) hfuel hv hfits

theorem Holds.serializeLoop_of_not_fits (h : Holds list t) {fuel i : ℕ}
    (hfuel : t.items.length < fuel) (hv : Wrote v bytes) (halloc : ∀ i n, alloc i n = true)
    (hfits : ¬ Fits abi (funcs.encode list.dataSize) bytes.length (t.items.map Prod.snd)) :
    serializeLoop abi funcs alloc list fuel i list.rootnode.next v = .undefined := by
  by_cases ht : t = .fresh
  · subst ht
    exact absurd trivial hfits
  · have hring := h.ringed ht
    rw [hring.rootnode_next]
    exact Libnbu.serializeLoop_of_not_fits (show Ringed list ([] ++ t.items) from hring) hfuel hv
      halloc hfits

end Loop

/-! ### The reader -/

/-- The items are of `data_size` bytes, or the second item function inverts the first. -/
def ItemFuncs.Inverse {α : Type} : ItemFuncs α → ℕ → List α → Prop
  | .none, dataSize, items => ∀ item ∈ items, item.length = dataSize
  | .custom serialize unserialize, _, _ =>
    ∀ x item, serialize x = some item → unserialize item = some x

/-- There is memory for the item, where the loop allocates it. -/
def ItemFuncs.HasRoom {α : Type} (allocated : Bool) : ItemFuncs α → Prop
  | .none => allocated = true
  | .custom _ _ => True

theorem ItemFuncs.decode_of_encode {allocated : Bool} {funcs : ItemFuncs α} {dataSize : ℕ}
    {items : List α} (h : funcs.Inverse dataSize items) {x : α} (hx : x ∈ items)
    {item : List UInt8} (hitem : funcs.encode dataSize x = some item)
    (hroom : funcs.HasRoom allocated) : funcs.decode allocated item = .done x := by
  cases funcs with
  | none =>
    have hlength : List.length x ≤ dataSize := Nat.le_of_eq (h x hx)
    have hroom : allocated = true := hroom
    simp only [encode, List.take_of_length_le hlength, Option.some.injEq] at hitem
    rw [decode, if_pos hroom, hitem]
  | custom serialize unserialize =>
    rw [decode, h x item hitem]

/-- An item that was decoded had room. -/
theorem ItemFuncs.hasRoom_of_decode {allocated : Bool} {funcs : ItemFuncs α} {item : List UInt8}
    {x : α} (h : funcs.decode allocated item = .done x) : funcs.HasRoom allocated := by
  cases funcs with
  | none =>
    cases allocated with
    | false => exact nomatch h
    | true => rfl
  | custom serialize unserialize => trivial

theorem ItemFuncs.Inverse.of_cons {funcs : ItemFuncs α} {dataSize : ℕ} {x : α} {items : List α}
    (h : funcs.Inverse dataSize (x :: items)) : funcs.Inverse dataSize items := by
  cases funcs with
  | none => exact fun item hitem => h item (List.mem_cons_of_mem _ hitem)
  | custom serialize unserialize => exact h

/-- The items for which there is a node. -/
def keptItems (env : UnserializeEnv ι) : ℕ → List α → List α
  | _, [] => []
  | i, x :: items =>
    if env.node i = none then keptItems env (i + 1) items else x :: keptItems env (i + 1) items

theorem keptItems_sublist (env : UnserializeEnv ι) (i : ℕ) (items : List α) :
    (keptItems env i items).Sublist items := by
  induction items generalizing i with
  | nil => exact .slnil
  | cons x items ih =>
    rw [keptItems]
    split
    · exact (ih (i + 1)).cons x
    · exact (ih (i + 1)).cons_cons x

/-- No item is lost exactly when there is a node for each. -/
theorem keptItems_eq_self_iff (env : UnserializeEnv ι) (i : ℕ) (items : List α) :
    keptItems env i items = items ↔ ∀ j < items.length, env.node (i + j) ≠ none := by
  induction items generalizing i with
  | nil => simp [keptItems]
  | cons x items ih =>
    have hle := (keptItems_sublist env (i + 1) items).length_le
    rw [List.length_cons, Nat.forall_lt_succ_left, Nat.add_zero, keptItems]
    by_cases hnode : env.node i = none
    · simp only [hnode, if_true, ne_eq, not_true_eq_false, false_and, iff_false]
      intro heq
      rw [heq, List.length_cons] at hle
      omega
    · simp only [hnode, if_false, List.cons.injEq, true_and, ih, ne_eq, not_false_eq_true,
        Nat.add_assoc, Nat.add_comm 1]

/-- What the reader finds where an item was written. -/
theorem read_packItem {m : ℕ → UInt8} {p : ℕ} {rest : List UInt8}
    (h : read m p (packItem abi item ++ rest).length = packItem abi item ++ rest)
    (hlt : item.length < 2 ^ 31) :
    abi.endian.decode (read m p abi.wordBytes) = item.length ∧
      read m (p + abi.wordBytes) item.length = item ∧
      read m (p + abi.wordBytes + item.length) rest.length = rest := by
  have hword := two_pow_le_wordSize abi
  rw [packItem, List.append_assoc, read_eq_append_iff, read_eq_append_iff,
    Endian.length_encode] at h
  obtain ⟨hsize, hitem, hrest⟩ := h
  exact ⟨by rw [hsize, Endian.decode_encode _ (by omega)], hitem, hrest⟩

/-- The nodes of the entries are those of the rounds before. -/
def NodesBefore (env : UnserializeEnv ι) (i : ℕ) (entries : List (ι × α)) : Prop :=
  ∀ e ∈ entries, ∃ j < i, env.node j = some e.1

section

variable {env : UnserializeEnv ι} {i : ℕ} {entries : List (ι × α)} {a : ι}

theorem NodesBefore.succ (h : NodesBefore env i entries) : NodesBefore env (i + 1) entries :=
  fun e he => (h e he).imp fun _ hj => ⟨Nat.lt_succ_of_lt hj.1, hj.2⟩

theorem NodesBefore.append (h : NodesBefore env i entries) (hnode : env.node i = some a) (x : α) :
    NodesBefore env (i + 1) (entries ++ [(a, x)]) := by
  intro e he
  rw [List.mem_append, List.mem_singleton] at he
  rcases he with he | rfl
  · exact h.succ e he
  · exact ⟨i, Nat.lt_succ_self i, hnode⟩

/-- The node of a round is a new one. -/
theorem NodesBefore.notMem (h : NodesBefore env i entries) (hnode : env.node i = some a) :
    a ∉ entries.map Prod.fst := by
  rw [List.mem_map]
  rintro ⟨e, he, rfl⟩
  obtain ⟨j, hj, hej⟩ := h e he
  exact absurd (env.node_inj hnode hej) (by omega)

end

section Reader

variable [DecidableEq ι] {funcs : ItemFuncs α} {env : UnserializeEnv ι} {buf : Buffer}

/-- One round, at an item that was written. -/
theorem unserializeLoop_succ {p : ℕ} {rest : List UInt8}
    (h : read buf.mem p (packItem abi item ++ rest).length = packItem abi item ++ rest)
    (hlen : p + (packItem abi item).length ≤ buf.len) (hlt : buf.len < 2 ^ 31) (n i : ℕ)
    (list : NbuList ι α) :
    unserializeLoop abi funcs env buf (n + 1) i p list
      = match funcs.decode (env.item i) item with
        | .undefined => .undefined
        | .error => .error
        | .done x =>
          match nbuListInsertEnd list x (env.node i) with
          | none => .undefined
          | some (list, _) =>
            unserializeLoop abi funcs env buf n (i + 1) (p + abi.wordBytes + item.length) list := by
  rw [length_packItem] at hlen
  obtain ⟨hsize, hitem, -⟩ := read_packItem h (by omega)
  rw [unserializeLoop, if_neg (by omega)]
  simp only [hsize, hitem]
  exact if_neg (by omega)

/-- **The list that is read back**: of the items for which there is a node.  By induction on the
items to go; the nodes of the list so far are those of the rounds before. -/
theorem unserializeLoop_eq {list : NbuList ι α} {t : Cursored (ι × α)} {i p dataSize : ℕ}
    {items : List α} {encodings : List (List UInt8)} (h : Holds list t)
    (hnodes : NodesBefore env i t.items)
    (hencodings : items.map (funcs.encode dataSize) = encodings.map some)
    (hinv : funcs.Inverse dataSize items)
    (hread : read buf.mem p (pack abi encodings).length = pack abi encodings)
    (hlen : p + (pack abi encodings).length ≤ buf.len) (hlt : buf.len < 2 ^ 31)
    (hroom : ∀ j < items.length, funcs.HasRoom (env.item (i + j))) :
    ∃ list' t', unserializeLoop abi funcs env buf items.length i p list = .done list' ∧
      Holds list' t' ∧
      t'.items.map Prod.snd = t.items.map Prod.snd ++ keptItems env i items ∧
      list'.dataSize = list.dataSize := by
  induction items generalizing list t i p encodings with
  | nil => exact ⟨list, t, rfl, h, by simp [keptItems], rfl⟩
  | cons x items ih =>
    cases encodings with
    | nil => exact nomatch hencodings
    | cons item encodings =>
      obtain ⟨hitem, hencodings⟩ := List.cons.inj hencodings
      rw [pack_cons] at hread hlen
      rw [List.length_cons, Nat.forall_lt_succ_left, Nat.add_zero] at hroom
      rw [List.length_append] at hlen
      have hlength := length_packItem abi item
      obtain ⟨-, -, hrest⟩ := read_packItem hread (by omega)
      have hroom' : ∀ j < items.length, funcs.HasRoom (env.item (i + 1 + j)) := by
        intro j hj
        rw [Nat.add_right_comm, Nat.add_assoc]
        exact hroom.2 j hj
      rw [List.length_cons, unserializeLoop_succ hread (by omega) hlt,
        ItemFuncs.decode_of_encode hinv List.mem_cons_self hitem hroom.1]
      cases hnode : env.node i with
      | none =>
        rw [keptItems, if_pos hnode]
        exact ih h hnodes.succ hencodings hinv.of_cons hrest (by omega) hroom'
      | some a =>
        obtain ⟨list₁, hinsert, h₁, hsize⟩ := h.insertEnd (h.heap_eq_none (hnodes.notMem hnode)) x
        have hnodes₁ := hnodes.append hnode x
        rw [← Cursored.items_insertEnd] at hnodes₁
        obtain ⟨list', t', hloop, h', hitems, hsize'⟩ :=
          ih (i := i + 1) h₁ hnodes₁ hencodings hinv.of_cons hrest (by omega) hroom'
        refine ⟨list', t', ?_, h', ?_, hsize'.trans hsize⟩
        · simp only [hinsert, hloop]
        · rw [hitems, Cursored.items_insertEnd, keptItems, if_neg (by simp [hnode])]
          simp

/-- The loop does not get past an item for which there is no room. -/
theorem unserializeLoop_hasRoom {list list' : NbuList ι α} {n i p : ℕ}
    (h : unserializeLoop abi funcs env buf n i p list = .done list') :
    ∀ j < n, funcs.HasRoom (env.item (i + j)) := by
  induction n generalizing i p list with
  | zero => exact fun j hj => absurd hj (Nat.not_lt_zero j)
  | succ n ih =>
    rw [unserializeLoop] at h
    split at h
    · exact nomatch h
    · simp only at h
      split at h
      · exact nomatch h
      · split at h
        · exact nomatch h
        · exact nomatch h
        · next hdecode =>
          split at h
          · exact nomatch h
          · rw [Nat.forall_lt_succ_left]
            refine ⟨ItemFuncs.hasRoom_of_decode hdecode, fun j hj => ?_⟩
            rw [← Nat.add_assoc, Nat.add_right_comm]
            exact ih h j hj

end Reader

/-! ### The header -/

theorem length_listHeader (abi : Abi) (list : NbuList ι α) :
    (listHeader abi list).length = sizeofList abi := by
  simp only [listHeader, List.length_append, Endian.length_encode, List.length_replicate,
    sizeofList]
  omega

/-- What is set up before the loop of the writer. -/
def afterHeader (abi : Abi) (mem : ℕ → UInt8) (list : NbuList ι α) : Serializing :=
  { bAlloc := staticSize abi list, bUsed := sizeofList abi, p := sizeofList abi,
    mem := write mem 0 (listHeader abi list) }

theorem wrote_afterHeader {list : NbuList ι α} (mem : ℕ → UInt8)
    (hroom : sizeofList abi ≤ staticSize abi list) :
    Wrote (afterHeader abi mem list) (listHeader abi list) := by
  have hlength := length_listHeader abi list
  refine ⟨?_, hlength.symm, ?_, toInt_lt _, read_write_self mem 0 (listHeader abi list)⟩
  · rw [hlength, afterHeader]
  · rwa [hlength, afterHeader]

theorem nbuListSerialize_eq {funcs : ItemFuncs α} {list : NbuList ι α} (malloc : ℕ → Bool)
    (alloc : ℕ → ℕ → Bool) (mem : ℕ → UInt8) (fuel : ℕ) :
    nbuListSerialize abi funcs malloc alloc mem fuel list
      = if grants malloc (staticSize abi list) = false then .error
        else if staticSize abi list < sizeofList abi then .undefined
        else
          match serializeLoop abi funcs alloc list fuel 0 list.rootnode.next
            (afterHeader abi mem list) with
          | .done v => .done ⟨v.mem, v.bAlloc.toNat⟩
          | .undefined => .undefined
          | .error => .error := rfl

/-- **A list that fits** is written in full, or there is no memory, or an item has no encoding. -/
theorem nbuListSerialize_of_fits {funcs : ItemFuncs α} {malloc : ℕ → Bool} {alloc : ℕ → ℕ → Bool}
    {mem : ℕ → UInt8} {list : NbuList ι α} {t : Cursored (ι × α)} (h : Holds list t) {fuel : ℕ}
    (hfuel : t.items.length < fuel) (hroom : sizeofList abi ≤ staticSize abi list)
    (hfits : Fits abi (funcs.encode list.dataSize) (sizeofList abi) (t.items.map Prod.snd)) :
    (∃ v encodings, nbuListSerialize abi funcs malloc alloc mem fuel list
          = .done ⟨v.mem, v.bAlloc.toNat⟩ ∧
        (t.items.map Prod.snd).map (funcs.encode list.dataSize) = encodings.map some ∧
        Wrote v (listHeader abi list ++ pack abi encodings)) ∨
      (nbuListSerialize abi funcs malloc alloc mem fuel list = .error ∧
        ((∃ x ∈ t.items.map Prod.snd, funcs.encode list.dataSize x = none) ∨
          (∃ i n, alloc i n = false) ∨ grants malloc (staticSize abi list) = false)) := by
  rw [nbuListSerialize_eq, if_neg (Int.not_lt.mpr hroom)]
  split
  · next hmalloc => exact .inr ⟨rfl, .inr (.inr hmalloc)⟩
  · rw [← length_listHeader abi list] at hfits
    rcases h.serializeLoop_of_fits alloc (i := 0) hfuel (wrote_afterHeader mem hroom) hfits with
         ⟨v, encodings, hloop, hencodings, hwrote⟩ | ⟨hloop, herror⟩
    · exact .inl ⟨v, encodings, by rw [hloop], hencodings, hwrote⟩
    · exact .inr ⟨by rw [hloop], herror.imp_right .inl⟩

/-- **A list that does not fit** is written past the end of the block, if every request for memory
is granted. -/
theorem nbuListSerialize_of_not_fits {funcs : ItemFuncs α} {malloc : ℕ → Bool}
    {alloc : ℕ → ℕ → Bool} {mem : ℕ → UInt8} {list : NbuList ι α} {t : Cursored (ι × α)}
    (h : Holds list t) {fuel : ℕ} (hfuel : t.items.length < fuel)
    (hmalloc : grants malloc (staticSize abi list) = true) (halloc : ∀ i n, alloc i n = true)
    (hfits : ¬ (sizeofList abi ≤ staticSize abi list ∧
      Fits abi (funcs.encode list.dataSize) (sizeofList abi) (t.items.map Prod.snd))) :
    nbuListSerialize abi funcs malloc alloc mem fuel list = .undefined := by
  rw [nbuListSerialize_eq, if_neg (by simp [hmalloc])]
  split
  · rfl
  · next hroom =>
    have hroom := Int.not_lt.mp hroom
    have hfits := not_and.mp hfits hroom
    rw [← length_listHeader abi list] at hfits
    rw [h.serializeLoop_of_not_fits hfuel (wrote_afterHeader mem hroom) halloc hfits]

/-- The reader finds the two numbers of the header. -/
theorem nbuListUnserialize_eq [DecidableEq ι] (funcs : ItemFuncs α) (env : UnserializeEnv ι)
    (buf : Buffer) {list : NbuList ι α}
    (hread : read buf.mem 0 (listHeader abi list).length = listHeader abi list)
    (hlen : sizeofList abi ≤ buf.len) (hcount : list.count < 2 ^ 32)
    (hsize : list.dataSize < 256 ^ abi.wordBytes) :
    nbuListUnserialize abi funcs env buf
      = if env.list = false then .undefined
        else unserializeLoop abi funcs env buf list.count 0 (sizeofList abi)
          (nbuListNew list.dataSize) := by
  have hword := two_pow_le_wordSize abi
  rw [listHeader, List.append_assoc, read_eq_append_iff, read_eq_append_iff,
    Endian.length_encode, Endian.length_encode, List.length_replicate, Nat.zero_add] at hread
  obtain ⟨hc, hs, hzero⟩ := hread
  have hnull : read buf.mem (3 * abi.wordBytes) (4 * abi.wordBytes)
      = List.replicate (4 * abi.wordBytes) 0 := by
    rw [show 5 * abi.wordBytes = abi.wordBytes + 4 * abi.wordBytes by omega, read_add,
      List.replicate_add] at hzero
    have := (List.append_inj hzero (by simp)).2
    rwa [show abi.wordBytes + abi.wordBytes + abi.wordBytes = 3 * abi.wordBytes by omega] at this
  rw [nbuListUnserialize]
  simp only [hnull, hc, hs, ne_eq, not_true_eq_false, if_false, Nat.not_lt.mpr hlen, or_false,
    Endian.decode_encode _ hsize, Endian.decode_encode _ (Nat.lt_of_lt_of_le hcount hword),
    Nat.not_le.mpr hcount]

/-! ### The round trip -/

/-- `nbu_list_serialize` failed, or it left a buffer from which `nbu_list_unserialize`, without a
read past its end, makes a well-formed list of the items, of their number and of the same
`data_size`. -/
def RoundTrip [DecidableEq ι] (abi : Abi) (funcs : ItemFuncs α) (env : UnserializeEnv ι)
    (list : NbuList ι α) (items : List α) : Outcome Buffer → Prop
  | .undefined => False
  | .error => True
  | .done buf => ∃ list' s', nbuListUnserialize abi funcs env buf = .done list' ∧
      Represents list' s' ∧ s'.items = items ∧ list'.count = list.count ∧
      list'.dataSize = list.dataSize

/-- Every allocation of `nbu_list_unserialize` for that many items is granted. -/
def UnserializeEnv.Suffices (env : UnserializeEnv ι) (funcs : ItemFuncs α) (n : ℕ) : Prop :=
  env.list = true ∧ ∀ i < n, funcs.HasRoom (env.item i) ∧ env.node i ≠ none

theorem length_le_length_pack (abi : Abi) (encodings : List (List UInt8)) :
    encodings.length ≤ (pack abi encodings).length := by
  induction encodings with
  | nil => exact Nat.le_refl _
  | cons item encodings ih =>
    have hword := abi.four_le_wordBytes
    rw [pack_cons, List.length_append, length_packItem, List.length_cons]
    omega

/-- Where an item has no encoding, there is no list of encodings. -/
theorem encode_ne_none {encode : α → Option (List UInt8)} {items : List α}
    {encodings : List (List UInt8)} (hencodings : items.map encode = encodings.map some) :
    ¬∃ x ∈ items, encode x = none := by
  rintro ⟨x, hx, hnone⟩
  have hmem : none ∈ encodings.map some := by
    rw [← hencodings, ← hnone]
    exact List.mem_map_of_mem hx
  simp at hmem

section RoundTrip

variable [DecidableEq ι] {funcs : ItemFuncs α} {env : UnserializeEnv ι} {list : NbuList ι α}
  {items : List α} {encodings : List (List UInt8)}

/-- What is read back of a buffer that was written in full. -/
theorem Wrote.unserializeLoop_eq (hinv : funcs.Inverse list.dataSize items)
    (h : Wrote v (listHeader abi list ++ pack abi encodings))
    (hencodings : items.map (funcs.encode list.dataSize) = encodings.map some)
    (hroom : ∀ j < items.length, funcs.HasRoom (env.item j)) :
    ∃ list' s', unserializeLoop abi funcs env ⟨v.mem, v.bAlloc.toNat⟩ items.length 0
        (sizeofList abi) (nbuListNew list.dataSize) = .done list' ∧
      Represents list' s' ∧ s'.items = keptItems env 0 items ∧
      list'.dataSize = list.dataSize := by
  obtain ⟨-, hpack⟩ := read_eq_append_iff.mp h.mem
  have hle := h.le
  have hlt := h.lt
  rw [List.length_append, length_listHeader] at hle
  rw [Nat.zero_add, length_listHeader] at hpack
  have hloop : ∃ list' t', unserializeLoop abi funcs env ⟨v.mem, v.bAlloc.toNat⟩ items.length 0
        (sizeofList abi) (nbuListNew list.dataSize) = .done list' ∧
      Holds list' t' ∧ t'.items.map Prod.snd = keptItems env 0 items ∧
      list'.dataSize = list.dataSize :=
    Libnbu.unserializeLoop_eq (holds_new list.dataSize) (by exact nofun) hencodings hinv hpack
      (show _ ≤ v.bAlloc.toNat by omega) (show v.bAlloc.toNat < 2 ^ 31 by omega)
      (by simpa only [Nat.zero_add] using hroom)
  obtain ⟨list', t', hdone, h', hkept, hsize⟩ := hloop
  exact ⟨list', _, hdone, ⟨t', rfl, h'⟩, (t'.items_map _).trans hkept, hsize⟩

/-- **A buffer that was written in full** is read back exactly when there is memory for it. -/
theorem roundTrip_done_iff (hcount : list.count = items.length)
    (hsize : list.dataSize < 256 ^ abi.wordBytes) (hinv : funcs.Inverse list.dataSize items)
    (h : Wrote v (listHeader abi list ++ pack abi encodings))
    (hencodings : items.map (funcs.encode list.dataSize) = encodings.map some) :
    RoundTrip abi funcs env list items (.done ⟨v.mem, v.bAlloc.toNat⟩) ↔
      env.Suffices funcs items.length := by
  have hheader := (read_eq_append_iff.mp h.mem).1
  have hle := h.le
  have hlt := h.lt
  have hlength : items.length = encodings.length := by
    simpa using congrArg List.length hencodings
  have hmany := length_le_length_pack abi encodings
  rw [List.length_append, length_listHeader] at hle
  rw [RoundTrip, nbuListUnserialize_eq funcs env ⟨v.mem, v.bAlloc.toNat⟩ hheader
    (show sizeofList abi ≤ v.bAlloc.toNat by omega) (by omega) hsize, hcount]
  have hnodes := keptItems_eq_self_iff env 0 items
  simp only [Nat.zero_add] at hnodes
  constructor
  · rintro ⟨list', s', hdone, hrep, hitems, -⟩
    split at hdone
    · exact nomatch hdone
    · next hlist =>
      have hroom := unserializeLoop_hasRoom hdone
      simp only [Nat.zero_add] at hroom
      obtain ⟨list'', s'', hdone', hrep', hkept, -⟩ := h.unserializeLoop_eq hinv hencodings hroom
      obtain rfl : list' = list'' := Outcome.done.inj (hdone.symm.trans hdone')
      -- the count tells that no item was lost
      have hself : keptItems env 0 items = items := by
        apply (keptItems_sublist env 0 items).eq_of_length
        rw [← hkept, ← hrep'.count, hrep.count, hitems]
      exact ⟨Bool.not_eq_false _ ▸ hlist, fun i hi => ⟨hroom i hi, hnodes.mp hself i hi⟩⟩
  · rintro ⟨hlist, hall⟩
    obtain ⟨list', s', hdone, hrep, hkept, hsize'⟩ :=
      h.unserializeLoop_eq hinv hencodings fun j hj => (hall j hj).1
    have hitems : s'.items = items := hkept.trans (hnodes.mpr fun j hj => (hall j hj).2)
    refine ⟨list', s', ?_, hrep, hitems, ?_, hsize'⟩
    · rw [if_neg (by simp [hlist]), hdone]
    · rw [hrep.count, hitems]

/-- **The round trip.**  For every well-formed list, every `data_size` and either no item functions
or two that are inverse to each other, whatever memory is granted: if `nbu_list_serialize` succeeds,
`nbu_list_unserialize` of its output reads only that, succeeds and gives a well-formed list of the
same items, with the same count and the same `data_size`.  This holds exactly when the size of the
buffer fits in an `int`, at the first allocation and with each item, up to one that has no
encoding, and the allocations of `nbu_list_unserialize`, which are not checked, are granted; or
when the first size is negative as an `int`, and `malloc` refuses it. -/
theorem serialize_round_trip_iff {s : Cursored α} (h : Represents list s)
    (hsize : list.dataSize < 256 ^ abi.wordBytes) (hinv : funcs.Inverse list.dataSize s.items) :
    (∀ malloc alloc mem fuel, list.count < fuel →
      RoundTrip abi funcs env list s.items
        (nbuListSerialize abi funcs malloc alloc mem fuel list)) ↔
      staticSize abi list < 0 ∨
        (sizeofList abi ≤ staticSize abi list ∧
          Fits abi (funcs.encode list.dataSize) (sizeofList abi) s.items ∧
          ((∃ x ∈ s.items, funcs.encode list.dataSize x = none) ∨
            env.Suffices funcs s.items.length)) := by
  have hcount := h.count
  obtain ⟨t, rfl, ht⟩ := h
  rw [Cursored.items_map] at *
  have hlength : t.items.length = list.count := by rw [hcount, List.length_map]
  by_cases hneg : staticSize abi list < 0
  · refine iff_of_true (fun malloc alloc mem fuel _ => ?_) (.inl hneg)
    rw [nbuListSerialize_eq, if_pos (by simp [grants, hneg])]
    trivial
  · constructor
    · intro hall
      -- every request for memory is granted
      specialize hall (fun _ => true) (fun _ _ => true) (fun _ => 0) _ (Nat.lt_succ_self _)
      have hmalloc : grants (fun _ => true) (staticSize abi list) = true := by
        simpa [grants] using hneg
      have hfuel : t.items.length < list.count + 1 := by omega
      by_cases hfits : sizeofList abi ≤ staticSize abi list ∧
          Fits abi (funcs.encode list.dataSize) (sizeofList abi) (t.items.map Prod.snd)
      · refine .inr ⟨hfits.1, hfits.2, or_iff_not_imp_left.mpr fun hnone => ?_⟩
        rcases nbuListSerialize_of_fits ht hfuel hfits.1 hfits.2 with
          ⟨v, encodings, hdone, hencodings, hwrote⟩ | ⟨-, herror | ⟨_, _, hfalse⟩ | hfalse⟩
        · rw [hdone] at hall
          exact (roundTrip_done_iff hcount hsize hinv hwrote hencodings).mp hall
        · exact absurd herror hnone
        · exact nomatch hfalse
        · exact absurd hmalloc (by simp [hfalse])
      · rw [nbuListSerialize_of_not_fits ht hfuel hmalloc (fun _ _ => rfl) hfits] at hall
        exact hall.elim
    · rintro (hlt | ⟨hroom, hfits, henv⟩) malloc alloc mem fuel hfuel
      · exact absurd hlt hneg
      · rcases nbuListSerialize_of_fits ht (hlength ▸ hfuel) hroom hfits with
          ⟨v, encodings, hdone, hencodings, hwrote⟩ | ⟨herror, -⟩
        · rw [hdone]
          exact (roundTrip_done_iff hcount hsize hinv hwrote hencodings).mpr
            (henv.resolve_left (encode_ne_none hencodings))
        · rw [herror]
          trivial

end RoundTrip

/-- A number is stored as that many bytes. -/
def unaryFuncs : ItemFuncs ℕ :=
  .custom (fun n => some (List.replicate n 0)) (fun bytes => some bytes.length)

/-- Every request is granted, and the blocks are numbered. -/
def UnserializeEnv.numbered : UnserializeEnv ℕ where
  list := true
  item := fun _ => true
  node := some
  node_inj := fun h h' => Option.some.inj (h.trans h'.symm)

theorem inverse_unaryFuncs (dataSize : ℕ) (items : List ℕ) :
    unaryFuncs.Inverse dataSize items := by
  rintro x item h
  obtain rfl := Option.some.inj h
  exact congrArg some List.length_replicate

/-- A list of one number. -/
theorem exists_represents_singleton (dataSize n : ℕ) :
    ∃ list : NbuList ℕ ℕ, Represents list (.unset [n]) ∧ list.dataSize = dataSize ∧
      list.count = 1 := by
  obtain ⟨list, -, h, hsize⟩ := (holds_new dataSize).insertEnd (a := 0) rfl n
  have hrep : Represents list (.unset [n]) := ⟨_, rfl, h⟩
  exact ⟨list, hrep, hsize, hrep.count⟩

/-- An item whose encoding is larger than `data_size`, so that the block is grown. -/
theorem serialize_round_trip_of_grown :
    ∃ list : NbuList ℕ ℕ, Represents list (.unset [3]) ∧ list.dataSize = 1 ∧
      ∀ malloc alloc mem fuel, list.count < fuel →
        RoundTrip .mips unaryFuncs .numbered list [3]
          (nbuListSerialize .mips unaryFuncs malloc alloc mem fuel list) := by
  obtain ⟨list, hrep, hsize, hcount⟩ := exists_represents_singleton 1 3
  refine ⟨list, hrep, hsize, (serialize_round_trip_iff hrep ?_ ?_).mpr (.inr ⟨?_, ?_, .inr ?_⟩)⟩
  · rw [hsize]
    decide
  · exact inverse_unaryFuncs _ _
  · rw [staticSize, hsize, hcount]
    decide
  · rintro _ ⟨⟩
    exact ⟨by decide, trivial⟩
  · exact ⟨rfl, fun i _ => ⟨trivial, by exact nofun⟩⟩

/-- With a `data_size` of `2^32 - 28` the size of the buffer is 4: the block is shorter than the
structure that is copied into it, although the one item takes 4 bytes. -/
theorem serialize_past_end :
    ∃ list : NbuList ℕ ℕ, Represents list (.unset [0]) ∧ list.dataSize = 2 ^ 32 - 28 ∧
      staticSize .mips list = 4 ∧
      ¬ RoundTrip .mips unaryFuncs .numbered list [0]
        (nbuListSerialize .mips unaryFuncs (fun _ => true) (fun _ _ => true) (fun _ => 0) 2
          list) := by
  obtain ⟨list, hrep, hsize, hcount⟩ := exists_represents_singleton (2 ^ 32 - 28) 0
  have hstatic : staticSize .mips list = 4 := by
    rw [staticSize, hsize, hcount]
    decide
  refine ⟨list, hrep, hsize, hstatic, ?_⟩
  rw [nbuListSerialize_eq, hstatic, if_neg (by decide), if_pos (by decide)]
  exact not_false

end Neufbox.Libnbu
