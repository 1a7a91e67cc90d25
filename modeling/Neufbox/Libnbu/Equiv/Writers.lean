import Neufbox.Lib.CStrings
import Neufbox.Lib.Words
import Neufbox.Libnbu.Equiv.Buffer
import Neufbox.Libnbu.Writers

/-!
# The bounded writers of libnbu

With a size of zero the byte at the end of the buffer, which shows whether a text was cut, is the
one in front of it.  With any other size that is let through it is inside.

* `touched_strncpy`, `strncpy_eq`: what `strncpy` writes, the latter for a source outside the
  buffer;
* `nbuStringCopyAt_writesPrefix`, `nbuStringVprintfAt_writesPrefix`: what the buffer holds
  afterwards, and what is returned;
* `nbuStringCopyAt_refines`, `nbuStringPrintfAt_refines`: it is what the models without a memory
  give;
* `bounded_writers_iff`: the writers keep to their buffer exactly if its size is not zero.
-/

namespace Neufbox.Libnbu

open CStrings Memory Words

/-! ### Bytes of a buffer -/

section

variable {str size src dst : BitVec 32} {text : List UInt8} {n : ℕ}

@[simp] theorem cell_zero (p : BitVec 32) : cell p 0 = p := BitVec.add_zero p

theorem cell_succ (p : BitVec 32) (i : ℕ) : cell p (i + 1) = cell (p + 1) i := by
  rw [cell, cell, Nat.add_comm, BitVec.ofNat_add, BitVec.add_assoc]
  rfl

theorem cell_injOn (p : BitVec 32) (h : n ≤ 2 ^ 32) : Set.InjOn (cell p) (Set.Iio n) := by
  intro i (hi : i < n) j (hj : j < n) hij
  have htoNat := congrArg BitVec.toNat ((BitVec.add_right_inj p).mp hij)
  rwa [toNat_ofNat_of_lt (by omega), toNat_ofNat_of_lt (by omega)] at htoNat

/-- The last byte of a buffer. -/
theorem add_sub_one_eq_cell (str : BitVec 32) (h : size ≠ 0) :
    str + (size - 1) = cell str (size.toNat - 1) := by
  have hlt : size.toNat - 1 < 2 ^ 32 := (Nat.sub_le _ _).trans_lt size.isLt
  rw [cell]
  congr 1
  apply BitVec.eq_of_toNat_eq
  rw [toNat_ofNat_of_lt hlt, toNat_sub_one (toNat_pos h)]

/-- The last byte of a buffer without bytes. -/
theorem add_zero_sub_one (str : BitVec 32) : str + (0 - 1) = str - 1 :=
  (BitVec.sub_eq_add_neg str 1).symm

/-- A string from its second byte on. -/
theorem stringAt_cell_succ {g : BitVec 32 → UInt8} (h : StringAt (g ∘ cell src) (1 + 0) text) :
    StringAt (g ∘ cell (src + 1)) 0 text := by
  have hcells : (fun i => (g ∘ cell src) (1 + i)) = g ∘ cell (src + 1) := by
    funext i
    rw [Nat.add_comm]
    exact congrArg g (cell_succ src i)
  exact hcells ▸ h.shift

/-- The source and its NUL are outside the `n` bytes of the destination. -/
def Separate (dst src : BitVec 32) (n : ℕ) (text : List UInt8) : Prop :=
  ∀ i ≤ text.length, ∀ j < n, cell src i ≠ cell dst j

theorem Separate.stay (h : Separate dst src (n + 1) text) : Separate (dst + 1) src n text := by
  intro i hi j hj
  rw [← cell_succ]
  exact h i hi (j + 1) (Nat.succ_lt_succ hj)

theorem Separate.next {b : UInt8} (h : Separate dst src (n + 1) (b :: text)) :
    Separate (dst + 1) (src + 1) n text := by
  intro i hi
  rw [← cell_succ]
  exact h.stay (i + 1) (Nat.succ_le_succ hi)

/-- A store to the destination leaves the source as it is. -/
theorem Separate.stringAt_store {m : BitVec 32 → UInt8} {s : Overlay m}
    (hsep : Separate dst src n text) (h : StringAt (s.mem ∘ cell src) 0 text) {j : ℕ} (hj : j < n)
    (b : UInt8) : StringAt ((s.store (cell dst j) b).mem ∘ cell src) 0 text := by
  apply h.congr
  intro i _ hi
  exact s.mem_store_of_ne (hsep i (by omega) j hj) b

end

/-! ### Copying -/

section

variable {m : BitVec 32 → UInt8} {dst src : BitVec 32} {text : List UInt8} {n : ℕ}

/-- The first `n` bytes of a text, and NULs if it is shorter. -/
def padded (n : ℕ) (text : List UInt8) : List UInt8 :=
  text.take n ++ List.replicate (n - text.length) 0

theorem length_padded (n : ℕ) (text : List UInt8) : (padded n text).length = n := by
  rw [padded, List.length_append, List.length_take, List.length_replicate]
  omega

theorem padded_nil (n : ℕ) : padded n [] = List.replicate n 0 := by
  rw [padded, List.take_nil, List.length_nil, Nat.sub_zero, List.nil_append]

theorem padded_succ_cons (n : ℕ) (b : UInt8) (text : List UInt8) :
    padded (n + 1) (b :: text) = b :: padded n text := by
  rw [padded, List.length_cons, Nat.add_sub_add_right]
  rfl

theorem padded_of_le (hpos : 0 < n) (h : n ≤ text.length) :
    padded n text = text.take (n - 1) ++ [text[n - 1]] := by
  rw [padded, Nat.sub_eq_zero_of_le h, List.replicate_zero, List.append_nil,
    ← List.take_succ_eq_append_getElem, Nat.sub_add_cancel hpos]

theorem padded_of_lt (h : text.length < n) :
    padded n text = text ++ [0] ++ List.replicate (n - text.length - 1) 0 := by
  have hsucc : n - text.length = n - text.length - 1 + 1 := by omega
  rw [padded, List.take_of_length_le h.le, hsucc, List.replicate_succ, List.append_assoc]
  rfl

/-- The last byte is a NUL exactly if the text is shorter. -/
theorem getElem_padded_eq_zero_iff (hpos : 0 < n) (hfree : 0 ∉ text)
    (hi : n - 1 < (padded n text).length) : (padded n text)[n - 1] = 0 ↔ text.length < n := by
  constructor
  · intro hzero
    by_contra hle
    rw [Nat.not_lt] at hle
    have hlength : n - 1 = (text.take (n - 1)).length := by
      rw [List.length_take]
      omega
    simp only [padded_of_le hpos hle, List.getElem_concat_length hlength] at hzero
    exact hfree (hzero ▸ List.getElem_mem _)
  · intro hlt
    have hle : (text.take n).length ≤ n - 1 := by
      rw [List.length_take]
      omega
    simp only [padded]
    rw [List.getElem_append_right hle, List.getElem_replicate]

/-- `strncpy` writes all bytes of the destination, whatever the source is. -/
theorem touched_strncpy (s : Overlay m) (dst src : BitVec 32) (n : ℕ) :
    (strncpy s dst src n).touched = s.touched ++ (List.range n).map (cell dst) := by
  induction n generalizing s dst src with
  | zero => exact (List.append_nil _).symm
  | succ n ih =>
    have hcells : cell dst ∘ Nat.succ = cell (dst + 1) := funext (cell_succ dst)
    rw [strncpy, ih, List.range_succ_eq_map, List.map_cons, List.map_map, hcells, cell_zero]
    exact List.append_assoc ..

/-- **`strncpy`** stores the beginning of the source and fills up with NULs. -/
theorem strncpy_eq (s : Overlay m) (h : StringAt (s.mem ∘ cell src) 0 text)
    (hsep : Separate dst src n text) :
    strncpy s dst src n = s.storeList (cell dst) (padded n text) := by
  induction n generalizing s dst src text with
  | zero =>
    rw [padded, List.take_zero, Nat.zero_sub]
    rfl
  | succ n ih =>
    have hcells : (fun i => cell dst (i + 1)) = cell (dst + 1) := funext (cell_succ dst)
    have hnext (b : UInt8) := hsep.stringAt_store h (Nat.succ_pos n) b
    rw [cell_zero] at hnext
    cases text with
    | nil =>
      have hnul : s.mem src = 0 := by
        have hnul := h.nul
        rwa [Function.comp_apply, List.length_nil, cell_zero] at hnul
      rw [strncpy, hnul, if_neg (not_not.mpr rfl), ih _ (hnext 0) hsep.stay, padded_nil,
        padded_nil, List.replicate_succ, Overlay.storeList, cell_zero, hcells]
    | cons b text =>
      obtain ⟨hb, hhead, -⟩ := stringAt_cons_iff.mp h
      obtain ⟨-, -, htail⟩ := stringAt_cons_iff.mp (hnext b)
      rw [Function.comp_apply, cell_zero] at hhead
      rw [strncpy, hhead, if_pos hb, ih _ (stringAt_cell_succ htail) hsep.next, padded_succ_cons,
        Overlay.storeList, cell_zero, hcells]

theorem read_strncpy (s : Overlay m) (h : StringAt (s.mem ∘ cell src) 0 text)
    (hsep : Separate dst src n text) (hn : n ≤ 2 ^ 32) :
    read ((strncpy s dst src n).mem ∘ cell dst) 0 (padded n text).length = padded n text := by
  rw [strncpy_eq s h hsep]
  exact s.read_storeList (cell_injOn dst hn) (length_padded n text).le

end

/-! ### What the writers promise -/

section

variable {m : BitVec 32 → UInt8} {str size src : BitVec 32} {text t : List UInt8} {n k : ℕ}
  {r : NbuRet × Overlay m} {s : Overlay m}

/-- The bytes from `str` on, and a NUL behind them. -/
def HoldsText (g : BitVec 32 → UInt8) (str : BitVec 32) (t : List UInt8) : Prop :=
  read (g ∘ cell str) 0 (t.length + 1) = t ++ [0]

theorem HoldsText.append {g : BitVec 32 → UInt8} (h : HoldsText g str t) :
    read (g ∘ cell str) 0 t.length = t ∧ read (g ∘ cell str) (0 + t.length) 1 = [0] := by
  have happend : read (g ∘ cell str) 0 (t ++ [0]).length = t ++ [0] := by
    rwa [List.length_append]
  exact read_eq_append_iff.mp happend

/-- Only bytes with an index below `n` have been written. -/
def Inside (str : BitVec 32) (n : ℕ) (s : Overlay m) : Prop :=
  ∀ a ∈ s.touched, ∃ i < n, a = cell str i

/-- What is promised for a text and a buffer of `size` bytes: only bytes of the buffer are written,
they hold a beginning of the text with a NUL, and an error says that the text did not fit. -/
structure BoundedWrite (str size : BitVec 32) (text : List UInt8) (r : NbuRet × Overlay m) :
    Prop where
  inside : Inside str size.toNat r.2
  ends : ∃ t, t <+: text ∧ t.length < size.toNat ∧ HoldsText r.2.mem str t
  reported : r.1 = .error ↔ ¬ text.length < size.toNat

/-- As much of the text as there is room for is written. -/
structure WritesPrefix (str size : BitVec 32) (text : List UInt8) (r : NbuRet × Overlay m) :
    Prop where
  inside : Inside str size.toNat r.2
  holds : HoldsText r.2.mem str (text.take (size.toNat - 1))
  ret : r.1 = if text.length < size.toNat then .success else .error

theorem WritesPrefix.boundedWrite (h : WritesPrefix str size text r) (hsize : size ≠ 0) :
    BoundedWrite str size text r where
  inside := h.inside
  ends := by
    have hpos := toNat_pos hsize
    refine ⟨_, List.take_prefix _ _, ?_, h.holds⟩
    rw [List.length_take]
    omega
  reported := by
    rw [h.ret]
    split_ifs with hfits
    · simp [hfits]
    · simp [hfits]

/-- Without a byte to write to, nothing may be written. -/
theorem not_inside_zero {a : BitVec 32} (h : a ∈ s.touched) :
    ¬ Inside str (0 : BitVec 32).toNat s := by
  intro hinside
  obtain ⟨i, hi, -⟩ := hinside a h
  exact Nat.not_lt_zero i hi

/-! ### Stores to the buffer -/

theorem inside_start (str : BitVec 32) (n : ℕ) : Inside str n (Overlay.start m) := by
  intro a ha
  cases ha

theorem Inside.store (h : Inside str n s) (hk : k < n) (b : UInt8) :
    Inside str n (s.store (cell str k) b) := by
  intro a ha
  rcases List.mem_append.mp ha with ha | ha
  · exact h a ha
  · exact ⟨k, hk, List.mem_singleton.mp ha⟩

theorem Inside.of_touched (h : Inside str n s) {s' : Overlay m}
    (htouched : s'.touched = s.touched ++ (List.range k).map (cell str)) (hk : k ≤ n) :
    Inside str n s' := by
  intro a ha
  rw [htouched] at ha
  rcases List.mem_append.mp ha with ha | ha
  · exact h a ha
  · obtain ⟨i, hi, rfl⟩ := List.mem_map.mp ha
    exact ⟨i, (List.mem_range.mp hi).trans_le hk, rfl⟩

/-- A NUL is stored over the last byte of the buffer. -/
theorem holdsText_store (hread : read (s.mem ∘ cell str) 0 (text.take (n - 1)).length
    = text.take (n - 1)) (hle : n ≤ text.length) (hpos : 0 < n) (hn : n ≤ 2 ^ 32) :
    HoldsText (s.store (cell str (n - 1)) 0).mem str (text.take (n - 1)) := by
  have hlength : (text.take (n - 1)).length = n - 1 := by
    rw [List.length_take]
    omega
  rw [hlength] at hread
  rw [HoldsText, hlength, s.read_store (cell_injOn str hn) (by omega), hread]

/-! ### `nbu_string_copy` -/

/-- What is done when the arguments are let through. -/
theorem nbuStringCopyAt_eq (hstr : str ≠ 0) (hsrc : src ≠ 0) (hlt : size.toNat < 2 ^ 31) :
    nbuStringCopyAt m str size src
      = let s := strncpy ((Overlay.start m).store (str + (size - 1)) 0) str src size.toNat
        if s.mem (str + (size - 1)) ≠ 0 then (.error, s.store (str + (size - 1)) 0)
        else (.success, s) := by
  have hpass : ¬ (src = 0 ∨ str = 0 ∨ size.toInt < 0 ∨ sizeofChar = 0) := by
    rintro (h | h | h | h)
    · exact hsrc h
    · exact hstr h
    · rw [toInt_neg_iff] at h
      omega
    · exact absurd h (by decide)
  have hlen : size / sizeofChar = size := BitVec.udiv_one
  rw [nbuStringCopyAt, if_neg hpass, hlen]

/-- With a size of zero, the byte in front of the buffer is written. -/
theorem nbuStringCopyAt_zero (hstr : str ≠ 0) (hsrc : src ≠ 0) :
    nbuStringCopyAt m str 0 src = (.success, (Overlay.start m).store (str - 1) 0) := by
  rw [nbuStringCopyAt_eq hstr hsrc (by decide), add_zero_sub_one]
  show (if ((Overlay.start m).store (str - 1) 0).mem (str - 1) ≠ 0 then _ else _) = _
  rw [Overlay.mem_store_self, if_neg (not_not.mpr rfl)]
  rfl

/-- Only bytes of the buffer are written, whatever the source is. -/
theorem inside_nbuStringCopyAt (hstr : str ≠ 0) (hsrc : src ≠ 0) (hsize : size ≠ 0)
    (hlt : size.toNat < 2 ^ 31) : Inside str size.toNat (nbuStringCopyAt m str size src).2 := by
  have hpos := toNat_pos hsize
  have hcopied : Inside str size.toNat
      (strncpy ((Overlay.start m).store (cell str (size.toNat - 1)) 0) str src size.toNat) :=
    ((inside_start str _).store (by omega) 0).of_touched (touched_strncpy ..) (Nat.le_refl _)
  rw [nbuStringCopyAt_eq hstr hsrc hlt, add_sub_one_eq_cell str hsize]
  dsimp only
  split_ifs
  · exact hcopied.store (by omega) 0
  · exact hcopied

/-- **Copying**, with a size that is not zero. -/
theorem nbuStringCopyAt_writesPrefix (hstr : str ≠ 0) (hsrc : src ≠ 0) (hsize : size ≠ 0)
    (hlt : size.toNat < 2 ^ 31) (h : StringAt (m ∘ cell src) 0 text)
    (hsep : Separate str src size.toNat text) :
    WritesPrefix str size text (nbuStringCopyAt m str size src) := by
  have hinside := inside_nbuStringCopyAt (m := m) hstr hsrc hsize hlt
  have hpos := toNat_pos hsize
  have hlength := length_padded size.toNat text
  have hread := read_strncpy _ (hsep.stringAt_store (s := Overlay.start m)
    (j := size.toNat - 1) h (by omega) 0) hsep (by omega)
  rw [nbuStringCopyAt_eq hstr hsrc hlt, add_sub_one_eq_cell str hsize] at hinside ⊢
  generalize strncpy ((Overlay.start m).store (cell str (size.toNat - 1)) 0) str src size.toNat = s
    at hread hinside ⊢
  -- the byte that is looked at
  have hlast : s.mem (cell str (size.toNat - 1)) = 0 ↔ text.length < size.toNat := by
    rw [← getElem_padded_eq_zero_iff hpos h.nul_free (by omega),
      ← apply_add_of_read_eq hread (by omega), Nat.zero_add]
    rfl
  dsimp only at hinside ⊢
  by_cases hfits : text.length < size.toNat
  · rw [if_neg (not_not.mpr (hlast.mpr hfits))] at hinside ⊢
    refine ⟨hinside, ?_, (if_pos hfits).symm⟩
    rw [padded_of_lt hfits] at hread
    have htext := (read_eq_append_iff.mp hread).1
    rw [List.length_append] at htext
    rwa [HoldsText, List.take_of_length_le (by omega)]
  · rw [if_pos (mt hlast.mp hfits)] at hinside ⊢
    refine ⟨hinside, ?_, (if_neg hfits).symm⟩
    rw [Nat.not_lt] at hfits
    rw [padded_of_le hpos hfits] at hread
    exact holdsText_store (read_eq_append_iff.mp hread).1 hfits hpos (by omega)

-- A source inside the buffer is cut by the NUL that is stored first, and no error is returned.
example :
    let m : BitVec 32 → UInt8 := fun a => if 16 ≤ a ∧ a < 20 then 97 else 0
    (nbuStringCopyAt m 16 3 16).1 = .success ∧
      read ((nbuStringCopyAt m 16 3 16).2.mem ∘ cell 16) 0 3 = [97, 97, 0] := by
  decide

/-! ### `nbu_string_vprintf` and `nbu_string_printf` -/

section

variable {Args : Type*} (fmt : Args → List UInt8) (args : Args)

/-- `nbu_string_printf` only repeats the checks. -/
theorem nbuStringPrintfAt_eq (str size : BitVec 32) (fmt : Option (Args → List UInt8)) :
    nbuStringPrintfAt m str size fmt args = nbuStringVprintfAt m str size fmt args := by
  unfold nbuStringPrintfAt
  split_ifs with hrefused
  · cases fmt with
    | none => rfl
    | some fmt => exact (if_pos hrefused).symm
  · rfl

/-- What is done when the arguments are let through. -/
theorem nbuStringVprintfAt_eq (hstr : str ≠ 0) (hlt : size.toNat < 2 ^ 31) :
    nbuStringVprintfAt m str size (some fmt) args
      = let s := (vsnprintf ((Overlay.start m).store (str + (size - 1)) 0) str size (fmt args)).2
        if vsnprintfRet (fmt args).length < 0 then (.error, s)
        else if s.mem (str + (size - 1)) ≠ 0 ∨ size.toInt - 1 < vsnprintfRet (fmt args).length then
          (.error, s.store (str + (size - 1)) 0)
        else (.success, s) := by
  have hpass : ¬ (str = 0 ∨ size.toInt < 0) := by
    rintro (h | h)
    · exact hstr h
    · rw [toInt_neg_iff] at h
      omega
  exact if_neg hpass

/-- With a size of zero, the byte in front of the buffer is written. -/
theorem mem_touched_nbuStringVprintfAt_zero (hstr : str ≠ 0) :
    str - 1 ∈ (nbuStringVprintfAt m str 0 (some fmt) args).2.touched := by
  have hprinted (s : Overlay m) : (vsnprintf s str 0 (fmt args)).2 = s := rfl
  have hfirst : str - 1 ∈ ((Overlay.start m).store (str - 1) 0).touched := List.mem_singleton_self _
  rw [nbuStringVprintfAt_eq fmt args hstr (by decide), add_zero_sub_one, hprinted]
  dsimp only
  split_ifs
  · exact hfirst
  · exact List.mem_append_left _ hfirst
  · exact hfirst

/-- After the text is printed the last byte is a NUL: the one of the text, or the one that was
stored before. -/
theorem mem_last_storeList (hpos : 0 < n) (hn : n ≤ 2 ^ 32) (hs : s.mem (cell str (n - 1)) = 0)
    (text : List UInt8) :
    (s.storeList (cell str) (text.take (n - 1) ++ [0])).mem (cell str (n - 1)) = 0 := by
  have hlength : (text.take (n - 1) ++ [(0 : UInt8)]).length = min (n - 1) text.length + 1 := by
    rw [List.length_append, List.length_take, List.length_singleton]
  rcases Nat.lt_or_ge text.length (n - 1) with hshort | hlong
  · rw [Overlay.mem_storeList_of_ne _ ?_, hs]
    intro i hi
    exact (cell_injOn str hn).ne (show n - 1 < n by omega) (show i < n by omega) (by omega)
  · have hread := s.read_storeList (cell_injOn str hn)
      (show (text.take (n - 1) ++ [(0 : UInt8)]).length ≤ n by omega)
    have hindex : n - 1 = (text.take (n - 1)).length := by
      rw [List.length_take]
      omega
    have hlast := apply_add_of_read_eq hread (i := n - 1) (by omega)
    rwa [Nat.zero_add, List.getElem_concat_length hindex] at hlast

/-- What is in the buffer when `vsnprintf` returns. -/
theorem vsnprintf_spec (m : BitVec 32 → UInt8) (str : BitVec 32) (hsize : size ≠ 0)
    (text : List UInt8) :
    let s := (vsnprintf ((Overlay.start m).store (cell str (size.toNat - 1)) 0) str size text).2
    Inside str size.toNat s ∧ HoldsText s.mem str (text.take (size.toNat - 1)) ∧
      s.mem (cell str (size.toNat - 1)) = 0 := by
  have hpos := toNat_pos hsize
  have hle : size.toNat ≤ 2 ^ 32 := size.isLt.le
  have hlength : (text.take (size.toNat - 1) ++ [(0 : UInt8)]).length ≤ size.toNat := by
    rw [List.length_append, List.length_take, List.length_singleton]
    omega
  have hread := ((Overlay.start m).store (cell str (size.toNat - 1)) 0).read_storeList
    (cell_injOn str hle) hlength
  rw [List.length_append] at hread
  rw [vsnprintf, if_neg hsize]
  refine ⟨?_, hread, ?_⟩
  · have hfirst := (inside_start str size.toNat (m := m)).store (k := size.toNat - 1) (by omega) 0
    exact hfirst.of_touched (Overlay.touched_storeList ..) hlength
  · exact mem_last_storeList hpos hle ((Overlay.start m).mem_store_self _ 0) text

/-- **Printing**, with a size that is not zero. -/
theorem nbuStringVprintfAt_writesPrefix (hstr : str ≠ 0) (hsize : size ≠ 0)
    (hlt : size.toNat < 2 ^ 31) :
    WritesPrefix str size (fmt args) (nbuStringVprintfAt m str size (some fmt) args) := by
  have hpos := toNat_pos hsize
  have hspec := vsnprintf_spec m str hsize (fmt args)
  rw [nbuStringVprintfAt_eq fmt args hstr hlt, add_sub_one_eq_cell str hsize]
  generalize (vsnprintf ((Overlay.start m).store (cell str (size.toNat - 1)) 0) str size
    (fmt args)).2 = s at hspec ⊢
  obtain ⟨hinside, hholds, hlast⟩ := hspec
  have hint : size.toInt = size.toNat := BitVec.toInt_eq_toNat_of_lt (by omega)
  dsimp only
  rw [hlast, hint]
  by_cases hfits : (fmt args).length < size.toNat
  · have hret : vsnprintfRet (fmt args).length = (fmt args).length := if_pos (by omega)
    have huncut : ¬ ((0 : UInt8) ≠ 0 ∨ (size.toNat : Int) - 1 < (fmt args).length) := by
      rintro (h | h)
      · exact h rfl
      · omega
    rw [hret, if_neg (by omega), if_neg huncut]
    exact ⟨hinside, hholds, (if_pos hfits).symm⟩
  by_cases hoverflow : (fmt args).length < 2 ^ 31
  · have hret : vsnprintfRet (fmt args).length = (fmt args).length := if_pos hoverflow
    rw [hret, if_neg (by omega), if_pos (.inr (by omega))]
    exact ⟨hinside.store (by omega) 0,
      holdsText_store hholds.append.1 (by omega) hpos (by omega), (if_neg hfits).symm⟩
  · have hret : vsnprintfRet (fmt args).length = -1 := if_neg hoverflow
    rw [hret, if_pos (by decide)]
    exact ⟨hinside, hholds, (if_neg hfits).symm⟩

end

/-! ### The strings of the buffers -/

theorem HoldsText.stringAt {g : BitVec 32 → UInt8} (h : HoldsText g str t) (hfree : 0 ∉ t) :
    StringAt (g ∘ cell str) 0 t := by
  obtain ⟨hchars, hnul⟩ := h.append
  exact ⟨hfree, hchars, List.head_eq_of_cons_eq hnul⟩

/-- The buffer holds the string that the model without a memory gives. -/
theorem WritesPrefix.refines (h : WritesPrefix str size text r) (hsize : size ≠ 0)
    (hlt : size.toNat < 2 ^ 31) (hfree : 0 ∉ text) (held : List UInt8) :
    ∃ t, nbuStringCopyTo held size text = some (r.1, t) ∧
      StringAt (r.2.mem ∘ cell str) 0 t := by
  refine ⟨_, ?_, h.holds.stringAt fun hmem => hfree (List.mem_of_mem_take hmem)⟩
  rw [nbuStringCopyTo_eq hsize hlt, h.ret]

/-- **Copying refines** `nbuStringCopyTo`. -/
theorem nbuStringCopyAt_refines {held : List UInt8} (hstr : str ≠ 0) (hsrc : src ≠ 0)
    (hsize : size ≠ 0) (hheld : StringAt (m ∘ cell str) 0 held)
    (h : StringAt (m ∘ cell src) 0 text)
    (hsep : size.toNat < 2 ^ 31 → Separate str src size.toNat text) :
    ∃ t, nbuStringCopyTo held size text = some ((nbuStringCopyAt m str size src).1, t) ∧
      StringAt ((nbuStringCopyAt m str size src).2.mem ∘ cell str) 0 t := by
  rcases Nat.lt_or_ge size.toNat (2 ^ 31) with hlt | hge
  · exact (nbuStringCopyAt_writesPrefix hstr hsrc hsize hlt h (hsep hlt)).refines hsize hlt
      h.nul_free held
  · have hrefused : nbuStringCopyAt m str size src = (.error, Overlay.start m) :=
      if_pos (.inr (.inr (.inl (toInt_neg_iff.mpr hge))))
    rw [hrefused]
    exact ⟨held, nbuStringCopyTo_refused hge held text, hheld⟩

/-- **Printing refines** `nbuStringPrintfTo`. -/
theorem nbuStringPrintfAt_refines {Args : Type*} {held : List UInt8} (hstr : str ≠ 0)
    (hsize : size ≠ 0) (hheld : StringAt (m ∘ cell str) 0 held) (fmt : Args → List UInt8)
    (args : Args) (hfree : 0 ∉ fmt args) :
    ∃ t, nbuStringPrintfTo held size (fmt args)
        = some ((nbuStringPrintfAt m str size (some fmt) args).1, t) ∧
      StringAt ((nbuStringPrintfAt m str size (some fmt) args).2.mem ∘ cell str) 0 t := by
  rw [nbuStringPrintfTo_eq]
  rcases Nat.lt_or_ge size.toNat (2 ^ 31) with hlt | hge
  · rw [nbuStringPrintfAt_eq]
    exact (nbuStringVprintfAt_writesPrefix fmt args hstr hsize hlt).refines hsize hlt hfree held
  · have hrefused : nbuStringPrintfAt m str size (some fmt) args = (.error, Overlay.start m) :=
      if_pos (.inr (toInt_neg_iff.mpr hge))
    rw [hrefused]
    exact ⟨held, nbuStringCopyTo_refused hge held (fmt args), hheld⟩

/-! ### The bounds -/

/-- **Bounded writers.**  For every size that is let through, the three functions write only bytes
of the buffer, leave a beginning of the text with its NUL there and report exactly a text that does
not fit, if and only if the size is not zero.  The source of a copy is any string outside the
buffer, as `strncpy` demands (the bytes that are written do not depend on that), and what is printed
any bytes. -/
theorem bounded_writers_iff {Args : Type*} (m : BitVec 32 → UInt8) (str size src : BitVec 32)
    (text : List UInt8) (fmt : Args → List UInt8) (args : Args) (hstr : str ≠ 0)
    (hsize : 0 ≤ size.toInt) :
    (src ≠ 0 →
      (Inside str size.toNat (nbuStringCopyAt m str size src).2 ↔ size ≠ 0) ∧
      (StringAt (m ∘ cell src) 0 text → Separate str src size.toNat text →
        (BoundedWrite str size text (nbuStringCopyAt m str size src) ↔ size ≠ 0))) ∧
    (BoundedWrite str size (fmt args) (nbuStringVprintfAt m str size (some fmt) args) ↔
      size ≠ 0) ∧
    (BoundedWrite str size (fmt args) (nbuStringPrintfAt m str size (some fmt) args) ↔
      size ≠ 0) := by
  have hlt : size.toNat < 2 ^ 31 := by
    rw [← Nat.not_le, ← toInt_neg_iff]
    omega
  have hprint : BoundedWrite str size (fmt args) (nbuStringVprintfAt m str size (some fmt) args) ↔
      size ≠ 0 := by
    constructor
    · rintro h rfl
      exact not_inside_zero (mem_touched_nbuStringVprintfAt_zero fmt args hstr) h.inside
    · intro hne
      exact (nbuStringVprintfAt_writesPrefix fmt args hstr hne hlt).boundedWrite hne
  refine ⟨fun hsrc => ?_, hprint, ?_⟩
  · have hcopy : Inside str size.toNat (nbuStringCopyAt m str size src).2 ↔ size ≠ 0 := by
      constructor
      · rintro h rfl
        rw [nbuStringCopyAt_zero hstr hsrc] at h
        exact not_inside_zero (List.mem_singleton_self (str - 1)) h
      · intro hne
        exact inside_nbuStringCopyAt hstr hsrc hne hlt
    refine ⟨hcopy, fun hstring hsep => ⟨fun h => hcopy.mp h.inside, fun hne => ?_⟩⟩
    exact (nbuStringCopyAt_writesPrefix hstr hsrc hne hlt hstring hsep).boundedWrite hne
  · rw [nbuStringPrintfAt_eq]
    exact hprint

/-- A size of zero: the byte in front of the buffer is cleared, and copying reports a success. -/
theorem bounded_writers_front :
    let m : BitVec 32 → UInt8 := fun a => if a = 15 then 97 else if a = 32 then 98 else 0
    StringAt (m ∘ cell 32) 0 [98] ∧
      (nbuStringCopyAt m 16 0 32).1 = .success ∧
      (nbuStringCopyAt m 16 0 32).2.touched = [15] ∧
      (nbuStringCopyAt m 16 0 32).2.mem 15 = 0 ∧
      (nbuStringPrintfAt m 16 0 (some id) [98]).1 = .error ∧
      (nbuStringPrintfAt m 16 0 (some id) [98]).2.touched = [15, 15] ∧
      (nbuStringPrintfAt m 16 0 (some id) [98]).2.mem 15 = 0 :=
  ⟨⟨by decide, by decide, by decide⟩, by decide⟩

/-- Four bytes: a text that fits is copied, and one that does not is printed. -/
theorem bounded_writers_four :
    let m : BitVec 32 → UInt8 := fun a => if a = 32 then 97 else if a = 33 then 98 else 0
    BoundedWrite 16 4 [97, 98] (nbuStringCopyAt m 16 4 32) ∧
      BoundedWrite 16 4 [97, 98, 97, 98] (nbuStringVprintfAt m 16 4 (some id) [97, 98, 97, 98]) ∧
      BoundedWrite 16 4 [97, 98, 97, 98] (nbuStringPrintfAt m 16 4 (some id) [97, 98, 97, 98]) := by
  intro m
  have hiff := bounded_writers_iff m 16 4 32 [97, 98] id [97, 98, 97, 98] (by decide) (by decide)
  have hstring : StringAt (m ∘ cell 32) 0 [97, 98] := ⟨by decide, by decide, by decide⟩
  have hsep : Separate 16 32 4 [97, 98] := by
    unfold Separate
    decide
  exact ⟨((hiff.1 (by decide)).2 hstring hsep).mpr (by decide), hiff.2.1.mpr (by decide),
    hiff.2.2.mpr (by decide)⟩

end

end Neufbox.Libnbu
