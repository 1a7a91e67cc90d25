import Mathlib.Algebra.Ring.Nat
import Neufbox.Libnbd.Core

/-!
# Which queries libnbd encodes faithfully

The encoder passes the space left in its buffer to `snprintf`, but counts on as if nothing had been
cut off: when the arguments do not fit, `len` wraps around, the loop stores behind the buffer and
`nbd_query_send` still sends what it finds there.  No error is reported.

`Packed` is the invariant of the loop as long as everything fits, `packed_packArg` its step and
`packed_foldl` the whole loop.  `nbdQuerySend_encodes_iff` gives the exact limit: the strings with
their NULs, the structure and the two bytes behind them have to fit in the 512 bytes.
-/

namespace Neufbox.Libnbd

open Memory

/-- The size of the strings, each with its NUL. -/
def packedSize (args : List CString) : ℕ := (args.map (·.bytes.length + 1)).sum

/-- The strings, each with its NUL. -/
def packedBytes (args : List CString) : List UInt8 := args.flatMap (·.bytes ++ [0])

/-- The arguments are recovered from a query by reading it back. -/
def Query.Recovers {abi : Abi} (query : Query abi) (args : Args) : Prop :=
  decodeQuery abi query.bytes = some (args.toList.map CString.bytes)

@[simp] theorem packedSize_nil : packedSize [] = 0 := rfl

@[simp] theorem packedSize_cons (a : CString) (args : List CString) :
    packedSize (a :: args) = a.bytes.length + 1 + packedSize args := by
  simp [packedSize]

@[simp] theorem packedSize_append (xs ys : List CString) :
    packedSize (xs ++ ys) = packedSize xs + packedSize ys := by
  simp [packedSize]

theorem length_packedBytes (args : List CString) : (packedBytes args).length = packedSize args := by
  simp [packedBytes, packedSize, List.length_flatMap]

theorem packedSize_le {args : List CString} {n : ℕ} (h : ∀ a ∈ args, a.bytes.length ≤ n) :
    packedSize args ≤ args.length * (n + 1) := by
  induction args with
  | nil => exact Nat.zero_le _
  | cons a args ih =>
    have ha := h a List.mem_cons_self
    have := ih fun b hb => h b (List.mem_cons_of_mem _ hb)
    rw [packedSize_cons, List.length_cons, Nat.succ_mul]
    omega

/-! ### The loop -/

/-- What the loop has built after the arguments `done`, while everything fits. -/
structure Packed {abi : Abi} (p : Packing abi) (done : List CString) : Prop where
  argc : p.argc = done.length
  end_ : p.end_ = abi.sizeofQuery + packedSize done
  len : p.len.toNat = 511 - abi.sizeofQuery - packedSize done
  top : p.top ≤ p.end_ + 1
  header : read p.buf 0 4 = abi.endian.encode 4 done.length
  argv : ∀ i < done.length, read p.buf (abi.argvOffset i) abi.wordBytes
    = abi.endian.encode abi.wordBytes (packedSize (done.take i))
  strings : read p.buf abi.sizeofQuery (packedSize done) = packedBytes done

theorem packed_packStart (abi : Abi) (stack : ℕ → UInt8) : Packed (packStart abi stack) [] where
  argc := rfl
  end_ := rfl
  len := by
    have := abi.lt_two_pow (n := 512 - abi.sizeofQuery - 1) (by omega)
    rw [packStart, BitVec.toNat_ofNat, Nat.mod_eq_of_lt this, packedSize_nil]
    omega
  top := Nat.le_refl _
  header := by
    have h4 := abi.four_le_wordBytes
    have hsize : abi.sizeofQuery = 4 + (abi.sizeofQuery - 4) := by
      unfold Abi.sizeofQuery
      omega
    have hzero : abi.endian.encode 4 0 = List.replicate 4 0 := by cases abi.endian <;> rfl
    rw [packStart, read_write_of_disjoint _ _ _ (.inl (by omega)), hsize, List.replicate_add,
      List.length_nil, hzero]
    have := read_write_self stack 0 (List.replicate 4 0 ++ List.replicate (abi.sizeofQuery - 4) 0)
    have := congrArg (List.take 4) this
    rw [take_read] at this
    simpa using this
  argv := fun i h => absurd h (Nat.not_lt_zero i)
  strings := rfl

theorem snprintfStore_of_lt {n : ℕ} {str : CString} (h : str.bytes.length < n) :
    snprintfStore n str = str.bytes ++ [0] := by
  rw [snprintfStore, if_neg (by omega), List.take_of_length_le (by omega)]

/-- The loop moves `end` by the length of the string and its NUL. -/
theorem snprintfLen_add_one {str : CString} (h : str.bytes.length < 2 ^ 31) :
    (snprintfLen str + 1).toNat = str.bytes.length + 1 := by
  rw [snprintfLen, if_pos h]
  omega

theorem packArg_end {abi : Abi} (p : Packing abi) {a : CString} (h : a.bytes.length < 2 ^ 31) :
    (packArg p a).end_ = p.end_ + (a.bytes.length + 1) := by
  simp only [packArg, snprintfLen_add_one h]

/-! What one turn of the loop leaves in the three parts of the buffer: `argc`, the words of `argv`
and the strings. -/

section PackArg

variable {abi : Abi} (p : Packing abi) (a : CString)

theorem read_argc_packArg : read (packArg p a).buf 0 4 = abi.endian.encode 4 (p.argc + 1) := by
  have := read_write_self (write (write p.buf p.end_ (snprintfStore p.len.toNat a))
    (abi.argvOffset p.argc) (abi.endian.encode abi.wordBytes (p.end_ - abi.sizeofQuery))) 0
    (abi.endian.encode 4 (p.argc + 1))
  rwa [Endian.length_encode] at this

theorem read_argv_packArg_self :
    read (packArg p a).buf (abi.argvOffset p.argc) abi.wordBytes
      = abi.endian.encode abi.wordBytes (p.end_ - abi.sizeofQuery) := by
  have h4 := abi.four_le_wordBytes
  have hword := abi.wordBytes_le_argvOffset p.argc
  have := read_write_self (write p.buf p.end_ (snprintfStore p.len.toNat a))
    (abi.argvOffset p.argc) (abi.endian.encode abi.wordBytes (p.end_ - abi.sizeofQuery))
  rw [Endian.length_encode] at this
  rw [packArg, read_write_of_disjoint _ _ _ (.inr (by rw [Endian.length_encode]; omega)), this]

/-- The words of `argv` before the new one keep their place. -/
theorem read_argv_packArg_of_lt {i : ℕ} (hi : i < p.argc) (hargs : p.argc < 12)
    (hend : abi.sizeofQuery ≤ p.end_) :
    read (packArg p a).buf (abi.argvOffset i) abi.wordBytes
      = read p.buf (abi.argvOffset i) abi.wordBytes := by
  have h4 := abi.four_le_wordBytes
  have hword := abi.wordBytes_le_argvOffset i
  have hnext := abi.argvOffset_add_le hi
  have hlast := abi.argvOffset_add_le_sizeofQuery hargs
  rw [packArg, read_write_of_disjoint _ _ _ (.inr (by rw [Endian.length_encode]; omega)),
    read_write_of_disjoint _ _ _ (.inl hnext), read_write_of_disjoint _ _ _ (.inl (by omega))]

/-- Behind the structure only the new string is stored. -/
theorem read_strings_packArg (hargs : p.argc < 12) (n : ℕ) :
    read (packArg p a).buf abi.sizeofQuery n
      = read (write p.buf p.end_ (snprintfStore p.len.toNat a)) abi.sizeofQuery n := by
  have h4 := abi.four_le_wordBytes
  have hword := abi.wordBytes_le_argvOffset p.argc
  have hlast := abi.argvOffset_add_le_sizeofQuery hargs
  rw [packArg, read_write_of_disjoint _ _ _ (.inr (by rw [Endian.length_encode]; omega)),
    read_write_of_disjoint _ _ _ (.inr (by rw [Endian.length_encode]; omega))]

end PackArg

/-- **One argument that fits** is appended to the strings, and its offset to `argv`. -/
theorem packed_packArg {abi : Abi} {p : Packing abi} {done : List CString} {a : CString}
    (hp : Packed p done) (hfits : abi.sizeofQuery + packedSize (done ++ [a]) ≤ 511)
    (hargs : done.length < 12) : Packed (packArg p a) (done ++ [a]) := by
  have hsize : packedSize (done ++ [a]) = packedSize done + (a.bytes.length + 1) := by simp
  have hlen := hp.len
  have hend := hp.end_
  have hargc := hp.argc
  have hstore : snprintfStore p.len.toNat a = a.bytes ++ [0] := snprintfStore_of_lt (by omega)
  have hoffset : (snprintfLen a + 1).toNat = a.bytes.length + 1 :=
    snprintfLen_add_one (by omega)
  refine ⟨?_, ?_, ?_, ?_, ?_, ?_, ?_⟩
  · simp [packArg, hargc]
  · rw [packArg_end p (by omega), hsize]
    omega
  · -- `len` does not wrap
    have hlt := abi.lt_two_pow (n := a.bytes.length + 1) (by omega)
    have hle : BitVec.ofNat (8 * abi.wordBytes) (a.bytes.length + 1) ≤ p.len := by
      rw [BitVec.le_def, BitVec.toNat_ofNat, Nat.mod_eq_of_lt hlt]
      omega
    rw [packArg, hoffset, BitVec.toNat_sub_of_le hle, BitVec.toNat_ofNat, Nat.mod_eq_of_lt hlt,
      hsize]
    omega
  · have htop := hp.top
    simp only [packArg, hstore, hoffset, List.length_append, List.length_singleton]
    omega
  · rw [read_argc_packArg, hargc, List.length_append, List.length_singleton]
  · intro i hi
    have hi' : i < done.length + 1 := by simpa using hi
    rcases Nat.lt_succ_iff_lt_or_eq.mp hi' with h | rfl
    · rw [read_argv_packArg_of_lt p a (by omega) (by omega) (by omega), hp.argv i h,
        List.take_append_of_le_length (by omega)]
    · rw [← hargc, read_argv_packArg_self, hargc, List.take_left, hend, Nat.add_sub_cancel_left]
  · -- the new string stands right behind the others
    have hself := read_write_self p.buf p.end_ (a.bytes ++ [0])
    rw [List.length_append, List.length_singleton] at hself
    rw [read_strings_packArg p a (by omega), hstore, hsize, read_add, ← hend, hself,
      read_write_of_disjoint _ _ _ (.inl (by omega)), hp.strings]
    simp [packedBytes]

/-- **The loop**, for arguments that all fit. -/
theorem packed_foldl {abi : Abi} (args : List CString) {p : Packing abi} {done : List CString}
    (hp : Packed p done) (hfits : abi.sizeofQuery + packedSize (done ++ args) ≤ 511)
    (hargs : (done ++ args).length ≤ 12) : Packed (args.foldl packArg p) (done ++ args) := by
  induction args generalizing p done with
  | nil => simpa using hp
  | cons a args ih =>
    have hfirst : Packed (packArg p a) (done ++ [a]) := by
      refine packed_packArg hp ?_ ?_
      · simp only [packedSize_append, packedSize_cons] at hfits ⊢
        simp only [packedSize_nil]
        omega
      · rw [List.length_append, List.length_cons] at hargs
        omega
    have := ih hfirst (by simpa using hfits) (by simpa using hargs)
    simpa using this

/-- Whether or not they fit, `end` moves over all the arguments. -/
theorem end_foldl {abi : Abi} (args : List CString) (p : Packing abi)
    (h : ∀ a ∈ args, a.bytes.length < 2 ^ 31) :
    (args.foldl packArg p).end_ = p.end_ + packedSize args := by
  induction args generalizing p with
  | nil => rfl
  | cons a args ih =>
    rw [List.foldl_cons, ih _ (fun b hb => h b (List.mem_cons_of_mem _ hb)),
      packArg_end p (h a List.mem_cons_self), packedSize_cons]
    omega

/-! ### Reading back -/

theorem stringAt_of_drop_eq {bytes s t : List UInt8} {a : ℕ} (hs : 0 ∉ s)
    (h : bytes.drop a = s ++ 0 :: t) : stringAt bytes a = some s := by
  have hall : ∀ b ∈ s, decide (b ≠ 0) = true :=
    fun b hb => decide_eq_true fun h0 => hs (h0 ▸ hb)
  rw [stringAt, h, if_pos (by simp), List.takeWhile_append_of_pos hall,
    List.takeWhile_cons_of_neg (by simp), List.append_nil]

theorem length_le_of_stringAt {bytes s : List UInt8} {a : ℕ} (h : stringAt bytes a = some s) :
    s.length ≤ bytes.length := by
  rw [stringAt] at h
  split_ifs at h
  rw [← Option.some.inj h]
  calc ((bytes.drop a).takeWhile (· ≠ 0)).length
      ≤ (bytes.drop a).length := (List.takeWhile_prefix _).length_le
    _ ≤ bytes.length := by rw [List.length_drop]; omega

theorem mapM_eq_some_map {α β : Type} {f : α → Option β} {g : α → β} {l : List α}
    (h : ∀ a ∈ l, f a = some (g a)) : l.mapM f = some (l.map g) := by
  induction l with
  | nil => rfl
  | cons a l ih =>
    rw [List.mapM_cons, h a List.mem_cons_self, ih fun b hb => h b (List.mem_cons_of_mem _ hb)]
    rfl

theorem exists_of_mem_mapM {α β : Type} {f : α → Option β} {l : List α} {r : List β}
    (h : l.mapM f = some r) {b : β} (hb : b ∈ r) : ∃ a, f a = some b := by
  induction l generalizing r with
  | nil =>
    obtain rfl : [] = r := Option.some.inj h
    cases hb
  | cons a l ih =>
    simp only [List.mapM_cons, Option.pure_def, Option.bind_eq_bind, Option.bind_eq_some_iff,
      Option.some.injEq] at h
    obtain ⟨b', hb', r', hr', rfl⟩ := h
    rcases List.mem_cons.mp hb with rfl | hb
    · exact ⟨a, hb'⟩
    · exact ih hr' hb

/-- A string that is read back lies in the query. -/
theorem length_le_of_mem_decodeQuery {abi : Abi} {bytes : List UInt8} {r : List (List UInt8)}
    (h : decodeQuery abi bytes = some r) {s : List UInt8} (hs : s ∈ r) :
    s.length ≤ bytes.length := by
  obtain ⟨i, hi⟩ := exists_of_mem_mapM h hs
  exact length_le_of_stringAt hi

theorem packedBytes_drop {args : List CString} {i : ℕ} (h : i < args.length) :
    (packedBytes args).drop (packedSize (args.take i))
      = args[i].bytes ++ 0 :: packedBytes (args.drop (i + 1)) := by
  have hsplit : packedBytes args
      = packedBytes (args.take i) ++ (args[i].bytes ++ 0 :: packedBytes (args.drop (i + 1))) := by
    conv_lhs => rw [packedBytes, ← List.take_append_drop i args, List.drop_eq_getElem_cons h,
      List.flatMap_append, List.flatMap_cons]
    rw [List.append_assoc, List.singleton_append, packedBytes, packedBytes]
  rw [hsplit, ← length_packedBytes, List.drop_left]

variable {abi : Abi} {stack : ℕ → UInt8} {args : Args}

theorem Args.length_toList_le (args : Args) : args.toList.length ≤ 12 :=
  Nat.succ_le_succ args.length_le

/-- The query, when its arguments fit. -/
theorem packed_buildQuery (stack : ℕ → UInt8)
    (hfits : abi.sizeofQuery + packedSize args.toList ≤ 511) :
    Packed (args.toList.foldl packArg (packStart abi stack)) args.toList := by
  have := packed_foldl args.toList (packed_packStart abi stack) (by simpa using hfits)
    (by simpa using args.length_toList_le)
  simpa using this

theorem toNat_len_buildQuery (hlen : ∀ a ∈ args.toList, a.bytes.length ≤ 512) :
    (buildQuery abi stack args).len.toNat = abi.sizeofQuery + packedSize args.toList + 1 := by
  have hend := end_foldl args.toList (packStart abi stack) fun a ha => by
    have := hlen a ha
    omega
  have hsize := packedSize_le hlen
  have hargs := args.length_toList_le
  have hq := abi.sizeofQuery_le
  have hstart : (packStart abi stack).end_ = abi.sizeofQuery := rfl
  have hlt := abi.lt_two_pow (n := abi.sizeofQuery + packedSize args.toList + 1) (by omega)
  rw [buildQuery, BitVec.toNat_ofNat, hend, hstart, Nat.mod_eq_of_lt hlt]

theorem toNat_len_of_fits (hfits : abi.sizeofQuery + packedSize args.toList ≤ 511) :
    (buildQuery abi stack args).len.toNat = abi.sizeofQuery + packedSize args.toList + 1 := by
  have hlt := abi.lt_two_pow (n := abi.sizeofQuery + packedSize args.toList + 1) (by omega)
  rw [buildQuery, BitVec.toNat_ofNat, (packed_buildQuery stack hfits).end_, Nat.mod_eq_of_lt hlt]

/-- The terminator is stored behind the bytes that are sent. -/
theorem bytes_buildQuery (hfits : abi.sizeofQuery + packedSize args.toList ≤ 511) :
    (buildQuery abi stack args).bytes
      = read (args.toList.foldl packArg (packStart abi stack)).buf 0
        (abi.sizeofQuery + packedSize args.toList + 1) := by
  have hend := (packed_buildQuery stack hfits).end_
  rw [Query.bytes, toNat_len_of_fits hfits]
  exact read_write_of_disjoint _ _ _ (.inl (by omega))

/-- The number of arguments that is read back. -/
theorem decode_argc {p : Packing abi} {l : List CString} (hp : Packed p l) (hargs : l.length ≤ 12) :
    (BitVec.ofNat 32 (abi.endian.decode
      ((read p.buf 0 (abi.sizeofQuery + packedSize l + 1)).take 4))).toInt.toNat = l.length := by
  have h4 : 4 ≤ abi.sizeofQuery := by
    have := abi.four_le_wordBytes
    unfold Abi.sizeofQuery
    omega
  rw [take_read, Nat.min_eq_right (by omega), hp.header, Endian.decode_encode _ (by omega),
    BitVec.toInt_eq_toNat_of_lt (by rw [BitVec.toNat_ofNat]; omega), BitVec.toNat_ofNat]
  omega

/-- The string that is read back at `argv[i]`. -/
theorem stringAt_argv {p : Packing abi} {l : List CString} (hp : Packed p l)
    (hfits : abi.sizeofQuery + packedSize l ≤ 511) (hargs : l.length ≤ 12) {i : ℕ}
    (hi : i < l.length) :
    stringAt (read p.buf 0 (abi.sizeofQuery + packedSize l + 1))
      (abi.sizeofQuery + abi.endian.decode
        (((read p.buf 0 (abi.sizeofQuery + packedSize l + 1)).drop (abi.argvOffset i)).take
          abi.wordBytes)) = some l[i].bytes := by
  have hlast := abi.argvOffset_add_le_sizeofQuery (i := i) (by omega)
  have hpre : packedSize (l.take i) ≤ packedSize l := by
    conv_rhs => rw [← List.take_append_drop i l, packedSize_append]
    omega
  -- `argv[i]` is the size of the strings before
  rw [take_drop_read _ _ (by omega), Nat.zero_add, hp.argv i hi,
    Endian.decode_encode _ (by rw [abi.pow_wordBytes]; exact abi.lt_two_pow (by omega))]
  -- behind them stands the string itself
  refine stringAt_of_drop_eq (t := packedBytes (l.drop (i + 1)) ++
    read p.buf (abi.sizeofQuery + packedSize l) 1) l[i].nul_free ?_
  rw [← List.drop_drop, drop_read, Nat.min_eq_right (by omega), Nat.zero_add,
    show abi.sizeofQuery + packedSize l + 1 - abi.sizeofQuery = packedSize l + 1 by omega,
    read_add, hp.strings, List.drop_append_of_le_length (by rw [length_packedBytes]; exact hpre),
    packedBytes_drop hi, List.append_assoc, List.cons_append]

/-- **Round trip**: arguments that fit are recovered from the query. -/
theorem recovers_buildQuery (hfits : abi.sizeofQuery + packedSize args.toList ≤ 511) :
    (buildQuery abi stack args).Recovers args := by
  have hp := packed_buildQuery stack hfits
  have hargs := args.length_toList_le
  rw [Query.Recovers, bytes_buildQuery hfits]
  generalize args.toList.foldl packArg (packStart abi stack) = p at hp ⊢
  generalize args.toList = l at hp hargs hfits ⊢
  have hmap : l.map CString.bytes
      = (List.range l.length).map fun i => ((l.map CString.bytes)[i]?).getD [] := by
    apply List.ext_getElem (by simp)
    intro i h1 h2
    have : i < l.length := by simpa using h1
    simp [this]
  unfold decodeQuery
  dsimp only
  rw [decode_argc hp hargs, hmap]
  apply mapM_eq_some_map
  intro i hi
  have hi : i < l.length := List.mem_range.mp hi
  rw [stringAt_argv hp hfits hargs hi, List.getElem?_map, List.getElem?_eq_getElem hi,
    Option.map_some, Option.getD_some]

/-- A query that is recovered and not longer than the buffer has arguments that fit. -/
theorem fits_of_recovers (hlen : (buildQuery abi stack args).len.toNat ≤ 512)
    (h : (buildQuery abi stack args).Recovers args) :
    abi.sizeofQuery + packedSize args.toList + 1 ≤ 512 := by
  have hstr : ∀ a ∈ args.toList, a.bytes.length ≤ 512 := by
    intro a ha
    have := length_le_of_mem_decodeQuery h (List.mem_map_of_mem ha)
    rw [Query.bytes, length_read] at this
    omega
  rw [toNat_len_buildQuery hstr] at hlen
  exact hlen

/-- All stores lie in the buffer when there is room for the terminator, and only then. -/
theorem top_buildQuery (hfits : abi.sizeofQuery + packedSize args.toList ≤ 511) :
    (buildQuery abi stack args).top = abi.sizeofQuery + packedSize args.toList + 2 := by
  have hp := packed_buildQuery stack hfits
  have htop := hp.top
  have hend := hp.end_
  simp only [buildQuery]
  omega

/-- A call that is not told of any error, whatever the query. -/
theorem exists_nbdQuerySend_eq_zero (abi : Abi) (stack : ℕ → UInt8) (args : Args) :
    ∃ link writes, (nbdQuerySend abi link ⟨args, stack, writes, [], []⟩).1.toInt = 0 := by
  refine ⟨⟨some ⟨3, [], []⟩, []⟩, [.all, .short 0], ?_⟩
  simp [nbdQuerySend, sendBody, Link.write, safeWrite]

/-- **Exactly the queries that fit are encoded.**  For any arguments: `nbd_query_send` always
reports an error or has built the query inside its 512 bytes, from which the arguments are
recovered, if and only if the structure, the strings with their NULs and two more bytes fit in the
buffer.  The bytes that are sent are right with one byte less, too, but then the terminator is
stored behind the buffer. -/
theorem nbdQuerySend_encodes_iff (abi : Abi) (stack : ℕ → UInt8) (args : Args) :
    ((∀ link writes attempts arrivals,
      (nbdQuerySend abi link ⟨args, stack, writes, attempts, arrivals⟩).1.toInt < 0 ∨
        ((buildQuery abi stack args).len.toNat ≤ 512 ∧ (buildQuery abi stack args).top ≤ 512 ∧
          (buildQuery abi stack args).Recovers args))
      ↔ abi.sizeofQuery + packedSize args.toList + 2 ≤ 512) ∧
    ((∀ link writes attempts arrivals,
      (nbdQuerySend abi link ⟨args, stack, writes, attempts, arrivals⟩).1.toInt < 0 ∨
        ((buildQuery abi stack args).len.toNat ≤ 512 ∧ (buildQuery abi stack args).Recovers args))
      ↔ abi.sizeofQuery + packedSize args.toList + 1 ≤ 512) := by
  obtain ⟨link, writes, hzero⟩ := exists_nbdQuerySend_eq_zero abi stack args
  have hlen512 (hfits : abi.sizeofQuery + packedSize args.toList + 1 ≤ 512) :
      (buildQuery abi stack args).len.toNat ≤ 512 := by
    rw [toNat_len_of_fits (by omega)]
    exact hfits
  refine ⟨⟨?_, ?_⟩, ⟨?_, ?_⟩⟩
  · intro h
    -- the call that reports no error
    obtain hneg | ⟨h512, htop, hrec⟩ := h link writes [] []
    · omega
    · have hfits := fits_of_recovers h512 hrec
      rw [top_buildQuery (by omega)] at htop
      exact htop
  · intro h _ _ _ _
    have htop : (buildQuery abi stack args).top ≤ 512 := by
      rw [top_buildQuery (by omega)]
      exact h
    exact .inr ⟨hlen512 (by omega), htop, recovers_buildQuery (by omega)⟩
  · intro h
    obtain hneg | ⟨h512, hrec⟩ := h link writes [] []
    · omega
    · exact fits_of_recovers h512 hrec
  · intro h _ _ _ _
    exact .inr ⟨hlen512 h, recovers_buildQuery (by omega)⟩

/-- Setting a variable to a value of 460 bytes: the call reports the 526 bytes it sent as a success,
and its last store was to offset 526. -/
theorem nbdQuerySend_overruns_buffer :
    let args : Args := ⟨⟨[110, 118, 114, 97, 109], by decide⟩,
      [⟨[115, 101, 116], by decide⟩, ⟨[107], by decide⟩,
        ⟨List.replicate 460 97, fun h => absurd (List.eq_of_mem_replicate h) (by decide)⟩],
      by decide⟩
    (nbdQuerySend .mips ⟨some ⟨3, [], []⟩, []⟩ ⟨args, fun _ => 0, [.all, .all], [], []⟩).1.toInt
        = 526 ∧
      (buildQuery .mips (fun _ => 0) args).len.toNat = 526 ∧
      (buildQuery .mips (fun _ => 0) args).top = 527 := by
  decide +kernel

end Neufbox.Libnbd
