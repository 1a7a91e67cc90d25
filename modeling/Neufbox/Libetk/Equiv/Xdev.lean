import Neufbox.Libetk.Xdev
import Mathlib.Data.List.TakeWhile

/-!
# What the headers say

The fields of the headers are little-endian.  All that goes through `le16` and `le32` is decoded as
such on every host (`le_field`).  The counts of blocks and inodes of an ext file system do not: on a
big-endian host they are compared with their bytes in the opposite order.

The labels have a fixed width and need not end with a NUL.  The one of an ext file system is printed
to a buffer of its own width, which leaves no room for its last character; the one of a FAT file
system is copied to an array of its own width, from which the text is read on.
-/

namespace Neufbox.Libetk

open Memory CStrings

variable {host : Endian} {buf : ℕ → UInt8} {slice : Slice}

/-! ### Fields -/

/-- A field as it is meant. -/
def littleField (buf : ℕ → UInt8) (offset k : ℕ) : ℕ := Endian.little.decode (read buf offset k)

theorem le_field (host : Endian) (buf : ℕ → UInt8) (offset k : ℕ) :
    le host k (field host buf offset k) = littleField buf offset k := by
  cases host with
  | little => rfl
  | big =>
    show Endian.little.decode (Endian.big.encode k (Endian.big.decode (read buf offset k))) = _
    rw [Endian.encode_decode .big (length_read buf offset k), littleField]

/-- A field that is compared with a constant in the byte order of the host. -/
theorem field_eq_le_iff (host : Endian) (buf : ℕ → UInt8) (offset : ℕ) {k c : ℕ}
    (hc : c < 256 ^ k) : field host buf offset k = le host k c ↔ littleField buf offset k = c := by
  cases host with
  | little => exact Iff.rfl
  | big =>
    have hlength : (read buf offset k).length = k := length_read buf offset k
    have hreverse : (read buf offset k).reverse.length = k := by rw [List.length_reverse, hlength]
    have hswapped : Endian.decodeLE (Endian.encodeLE k c).reverse < 256 ^ k := by
      have hlt := Endian.decodeLE_lt (Endian.encodeLE k c).reverse
      rwa [List.length_reverse, Endian.length_encodeLE] at hlt
    have hback : Endian.encodeLE k (Endian.decodeLE (Endian.encodeLE k c).reverse)
        = (Endian.encodeLE k c).reverse := by
      have hself := Endian.encodeLE_decodeLE (Endian.encodeLE k c).reverse
      rwa [List.length_reverse, Endian.length_encodeLE] at hself
    show Endian.decodeLE (read buf offset k).reverse
      = Endian.decodeLE (Endian.encodeLE k c).reverse ↔ Endian.decodeLE (read buf offset k) = c
    rw [Endian.decodeLE_eq_iff hreverse hswapped, hback, List.reverse_inj,
      Endian.decodeLE_eq_iff hlength hc]

/-! ### What is meant -/

/-- The value returned and the type of the slice. -/
def detected (r : Int × Slice) : Int × FsType := (r.1, r.2.fstype)

/-- The sectors of a FAT are counted in the field that only a FAT32 has. -/
def isFat32 (buf : ℕ → UInt8) : Bool := littleField buf 22 2 = 0 ∧ littleField buf 36 4 ≠ 0

/-- The header of a FAT file system, with its fields as they are meant. -/
def fatKind (buf : ℕ → UInt8) : Option FsType :=
  if (buf 0 = 0xeb ∧ buf 2 = 0x90 ∧ (buf 21 = 0xf8 ∨ buf 21 = 0xfc)) ∧
      littleField buf 510 2 = 0xaa55 ∧
      (littleField buf 19 2 ≠ 0 ∨ littleField buf 32 4 ≠ 0) ∧
      (buf 0x26 = 0x29 ↔ isFat32 buf = false) then
    some (if isFat32 buf then .fat32 else .fat12_16)
  else none

/-- There is a journal, or there are newer features. -/
def extType (buf : ℕ → UInt8) : FsType :=
  let compat := littleField buf 92 4
  let incompat := littleField buf 96 4
  let roCompat := littleField buf 100 4
  if compat &&& 0x4 = 0 then .ext2
  else if roCompat &&& 0x8 = 0 ∧ roCompat &&& 0x20 = 0 ∧ incompat &&& 0x40 = 0 ∧
      incompat &&& 0x80 = 0 then .ext3
  else .ext4

/-- Of the blocks and of the inodes not all are free, in the byte order. -/
def SomeUsed (order : Endian) (buf : ℕ → UInt8) : Prop :=
  field order buf 12 4 < field order buf 4 4 ∧ field order buf 16 4 < field order buf 0 4

instance (order : Endian) (buf : ℕ → UInt8) : Decidable (SomeUsed order buf) :=
  inferInstanceAs (Decidable (_ ∧ _))

/-- The header of an ext file system, with its fields as they are meant. -/
def extKind (buf : ℕ → UInt8) : Option FsType :=
  if littleField buf 56 2 = 0xef53 ∧ SomeUsed .little buf then some (extType buf) else none

/-- What is to be detected: 0 and the type, or 1 and the slice as it was. -/
def meant (slice : Slice) : Option FsType → Int × FsType
  | some fstype => (0, fstype)
  | none => (1, slice.fstype)

/-! ### What is detected -/

/-- The slice of a FAT file system. -/
def fatSlice (stack : ℕ → UInt8) (slice : Slice) (buf : ℕ → UInt8) (fstype : FsType) : Slice where
  label := snprintfString slice.label sizeofLabel
    (write stack 0 (read buf (if isFat32 buf then 71 else 43) 11))
  fstype := fstype
  uuid := snprintf slice.uuid 0 sizeofUuid
    (ascii (uuidDos fun i => buf ((if isFat32 buf then 67 else 39) + i)))

/-- **A FAT header** is read as it is meant on every host. -/
theorem xdevSliceHeaderFat_eq (host : Endian) (stack : ℕ → UInt8) (slice : Slice)
    (buf : ℕ → UInt8) :
    xdevSliceHeaderFat host stack slice (some buf)
      = match fatKind buf with
        | some fstype => (0, fatSlice stack slice buf fstype)
        | none => (1, slice) := by
  have hmagic := field_eq_le_iff host buf 510 (k := 2) (c := 0xaa55) (by decide)
  have hnsecs :
      (if littleField buf 19 2 = 0 then littleField buf 32 4 else littleField buf 19 2) = 0
        ↔ ¬ (littleField buf 19 2 ≠ 0 ∨ littleField buf 32 4 ≠ 0) := by
    split_ifs <;> omega
  have hfat32 : (littleField buf 22 2 = 0 ∧ ¬ littleField buf 36 4 = 0) ↔ isFat32 buf = true :=
    decide_eq_true_iff.symm
  unfold xdevSliceHeaderFat fatKind
  simp only [le_field, ne_eq, hmagic, hnsecs, hfat32]
  by_cases hboot : buf 0 = 0xeb ∧ buf 2 = 0x90 ∧ (buf 21 = 0xf8 ∨ buf 21 = 0xfc)
  · by_cases hsign : littleField buf 510 2 = 0xaa55
    · by_cases hsectors : littleField buf 19 2 ≠ 0 ∨ littleField buf 32 4 ≠ 0
      · simp only [hsign, not_true, if_false, hsectors, true_and, hboot]
        cases h32 : isFat32 buf <;> by_cases hmark : buf 0x26 = 0x29 <;>
          simp [hmark, h32, fatSlice]
      · simp only [if_pos hboot, hsign, hsectors, not_true, not_false_eq_true, if_true, if_false,
          false_and, and_false]
    · simp only [if_pos hboot, hsign, not_false_eq_true, if_true, false_and, and_false, if_false]
  · simp only [hboot, false_and, if_false]

theorem detected_fat (host : Endian) (stack : ℕ → UInt8) (slice : Slice) (buf : ℕ → UInt8) :
    detected (xdevSliceHeaderFat host stack slice (some buf)) = meant slice (fatKind buf) := by
  rw [xdevSliceHeaderFat_eq]
  cases fatKind buf with
  | none => rfl
  | some fstype => rfl

/-- The slice of an ext file system. -/
def extSlice (slice : Slice) (buf : ℕ → UInt8) : Slice where
  label := snprintfString slice.label 16 fun i => buf (120 + i)
  fstype := extType buf
  uuid := snprintf slice.uuid 0 sizeofUuid (ascii (uuidDce fun i => buf (104 + i)))

/-- **An ext header**: the magic and the features are read as they are meant, the counts as the host
has them. -/
theorem xdevSliceHeaderExt_eq (host : Endian) (slice : Slice) (buf : ℕ → UInt8) :
    xdevSliceHeaderExt host slice (some buf)
      = if littleField buf 56 2 = 0xef53 ∧ SomeUsed host buf then (0, extSlice slice buf)
        else (1, slice) := by
  have hmagic := field_eq_le_iff host buf 56 (k := 2) (c := 0xef53) (by decide)
  unfold xdevSliceHeaderExt
  simp only [le_field, hmagic]
  have htype : (if littleField buf 92 4 &&& 0x4 ≠ 0 then
      if littleField buf 100 4 &&& 0x8 ≠ 0 ∨ littleField buf 100 4 &&& 0x20 ≠ 0 ∨
          littleField buf 96 4 &&& 0x40 ≠ 0 ∨ littleField buf 96 4 &&& 0x80 ≠ 0 then FsType.ext4
      else .ext3
    else .ext2) = extType buf := by
    rw [extType]
    simp only [ne_eq, ← not_and_or, ite_not]
  by_cases hsign : littleField buf 56 2 = 0xef53
  · rw [if_pos hsign, htype]
    by_cases hblocks : field host buf 12 4 < field host buf 4 4
    · by_cases hinodes : field host buf 16 4 < field host buf 0 4
      · have hzero : field host buf 4 4 ≠ 0 := Nat.ne_zero_of_lt hblocks
        rw [if_neg (Nat.not_le.mpr hblocks), if_neg (Nat.not_le.mpr hinodes), if_neg hzero,
          if_pos ⟨hsign, hblocks, hinodes⟩]
        rfl
      · rw [if_neg (Nat.not_le.mpr hblocks), if_pos (Nat.not_lt.mp hinodes),
          if_neg fun h => hinodes h.2.2]
    · rw [if_pos (Nat.not_lt.mp hblocks), if_neg fun h => hblocks h.2.1]
  · rw [if_neg hsign, if_neg fun h => hsign h.1]

theorem detected_ext (host : Endian) (slice : Slice) (buf : ℕ → UInt8) :
    detected (xdevSliceHeaderExt host slice (some buf))
      = if littleField buf 56 2 = 0xef53 ∧ SomeUsed host buf then (0, extType buf)
        else (1, slice.fstype) := by
  rw [xdevSliceHeaderExt_eq]
  split_ifs <;> rfl

/-- What is detected tells whether the counts are those of a file system in use. -/
theorem detected_ext_eq_iff (host : Endian) (slice : Slice) (buf : ℕ → UInt8) :
    detected (xdevSliceHeaderExt host slice (some buf)) = meant slice (extKind buf) ↔
      littleField buf 56 2 ≠ 0xef53 ∨ (SomeUsed host buf ↔ SomeUsed .little buf) := by
  rw [detected_ext, extKind]
  by_cases hsign : littleField buf 56 2 = 0xef53
  · by_cases hhost : SomeUsed host buf <;> by_cases hlittle : SomeUsed .little buf <;>
      simp [hsign, hhost, hlittle, meant]
  · simp [hsign, meant]

/-- **File system detection.**  For every FAT header, every ext header and every slice: the FAT
header is taken on every host for what its fields say as little-endian numbers; the ext header is if
and only if its magic is another one, or the blocks and the inodes are both not all free as
big-endian numbers exactly if they are as little-endian numbers. -/
theorem header_detection_iff (slice : Slice) (stack fat ext : ℕ → UInt8) :
    (∀ host, detected (xdevSliceHeaderFat host stack slice (some fat))
      = meant slice (fatKind fat)) ∧
    ((∀ host, detected (xdevSliceHeaderExt host slice (some ext)) = meant slice (extKind ext)) ↔
      littleField ext 56 2 ≠ 0xef53 ∨ (SomeUsed .big ext ↔ SomeUsed .little ext)) := by
  refine ⟨fun host => detected_fat host stack slice fat, ?_⟩
  constructor
  · intro h
    exact (detected_ext_eq_iff .big slice ext).mp (h .big)
  · intro h host
    cases host with
    | big => exact (detected_ext_eq_iff .big slice ext).mpr h
    | little => exact (detected_ext_eq_iff .little slice ext).mpr (.inr Iff.rfl)

/-- An ext header with 256 blocks and 256 inodes, of which two each are free. -/
def extHeader : ℕ → UInt8 :=
  write (write (write (fun _ => 0) 0 [0, 1, 0, 0, 0, 1, 0, 0]) 12 [2, 0, 0, 0, 2, 0, 0, 0])
    56 [0x53, 0xef]

/-- A little-endian host takes it for an ext2 file system, and a big-endian one for none. -/
theorem header_detection_differs :
    let slice : Slice := ⟨fun _ => 0, .unknown, fun _ => 0⟩
    detected (xdevSliceHeaderExt .little slice (some extHeader)) = (0, .ext2) ∧
      detected (xdevSliceHeaderExt .big slice (some extHeader)) = (1, .unknown) ∧
      meant slice (extKind extHeader) = (0, .ext2) := by
  decide

/-! ### Labels -/

/-- The text of a label: up to its first NUL, or all of it. -/
def labelText (bytes : List UInt8) : List UInt8 := bytes.takeWhile (· ≠ 0)

theorem nul_notMem_labelText (bytes : List UInt8) : 0 ∉ labelText bytes := by
  intro hmem
  exact absurd (List.mem_takeWhile_imp hmem) (by decide)

/-- What is stored by printing the string in a memory. -/
theorem stringAt_snprintfString (m : ℕ → UInt8) {n : ℕ} (hn : 0 < n) (str : ℕ → UInt8) :
    StringAt (snprintfString m n str) 0 (labelText (read str 0 (n - 1))) := by
  have hlength : (labelText (read str 0 (n - 1))).length ≤ n - 1 := by
    have hle := (List.takeWhile_sublist (fun b : UInt8 => decide (b ≠ 0))
      (l := read str 0 (n - 1))).length_le
    rwa [length_read] at hle
  show StringAt (snprintf m 0 n (labelText (read str 0 (n - 1)))) 0 _
  exact stringAt_snprintf_of_lt m 0 (by omega) (nul_notMem_labelText _)

theorem labelText_cons_of_ne {b : UInt8} (h : b ≠ 0) (bytes : List UInt8) :
    labelText (b :: bytes) = b :: labelText bytes :=
  List.takeWhile_cons_of_pos (decide_eq_true h)

/-- What is behind a label makes no difference if the label has a NUL, or if it begins with one. -/
theorem labelText_append_eq_iff (bytes : List UInt8) (b : UInt8) (rest : List UInt8) :
    labelText (bytes ++ b :: rest) = labelText bytes ↔ 0 ∈ bytes ∨ b = 0 := by
  induction bytes with
  | nil =>
    rw [List.nil_append, or_iff_right List.not_mem_nil]
    by_cases hb : b = 0
    · rw [hb]
      exact iff_of_true rfl rfl
    · rw [labelText_cons_of_ne hb]
      exact iff_of_false (List.cons_ne_nil _ _) hb
  | cons c bytes ih =>
    rw [List.cons_append]
    by_cases hc : c = 0
    · rw [hc]
      exact iff_of_true rfl (.inl List.mem_cons_self)
    · rw [labelText_cons_of_ne hc, labelText_cons_of_ne hc, List.cons_inj_right, ih, List.mem_cons,
        or_iff_right (a := 0 = c) (Ne.symm hc)]

/-- **The label of an ext file system** is printed with 15 characters at most. -/
theorem extLabel_iff (slice : Slice) (buf : ℕ → UInt8) :
    StringAt (extSlice slice buf).label 0 (labelText (read buf 120 16)) ↔
      0 ∈ read buf 120 16 := by
  have hstring := stringAt_snprintfString slice.label (n := 16) (by decide) fun i => buf (120 + i)
  have hshift : read (fun i => buf (120 + i)) 0 15 = read buf 120 15 := by
    apply List.map_congr_left
    intro i _
    rw [Nat.zero_add]
  rw [hshift] at hstring
  have hsplit : read buf 120 16 = read buf 120 15 ++ [buf 135] := read_add buf 120 15 1
  refine hstring.iff_eq.trans ?_
  rw [hsplit, labelText_append_eq_iff, List.mem_append, List.mem_singleton, eq_comm (a := buf 135)]

/-- **The label of a FAT file system** goes on with what is behind it on the stack. -/
theorem fatLabel_iff (stack : ℕ → UInt8) (slice : Slice) (buf : ℕ → UInt8) (fstype : FsType) :
    let bytes := read buf (if isFat32 buf then 71 else 43) 11
    StringAt (fatSlice stack slice buf fstype).label 0 (labelText bytes) ↔
      0 ∈ bytes ∨ stack 11 = 0 := by
  intro bytes
  have hstring := stringAt_snprintfString slice.label (n := sizeofLabel) (by decide)
    (write stack 0 bytes)
  have hlength : bytes.length = 11 := length_read ..
  have hread : read (write stack 0 bytes) 0 31 = bytes ++ stack 11 :: read stack 12 19 := by
    have hself := read_write_self stack 0 bytes
    have hrest : read (write stack 0 bytes) 11 20 = read stack 11 20 :=
      read_write_of_disjoint stack 0 bytes (.inr (by omega))
    rw [hlength] at hself
    rw [read_add _ 0 11 20, hself, Nat.zero_add, hrest]
    rfl
  refine hstring.iff_eq.trans ?_
  show labelText bytes = labelText (read (write stack 0 bytes) 0 31) ↔ _
  rw [hread, eq_comm, labelText_append_eq_iff]

/-- **Volume labels.**  For every ext or FAT header that is accepted, on every host, and everything
that was on the stack: the label of the slice is the text of the label field, up to its first NUL or
all of it, if and only if the field of an ext header has a NUL; and, of a FAT header, if and only if
it has one or the stack has one behind it.  For everything that was on the stack it is if and only
if the field has a NUL. -/
theorem volume_label_iff (host : Endian) (slice : Slice) (buf : ℕ → UInt8) :
    ((xdevSliceHeaderExt host slice (some buf)).1 = 0 →
      (StringAt (xdevSliceHeaderExt host slice (some buf)).2.label 0
          (labelText (read buf 120 16)) ↔ 0 ∈ read buf 120 16)) ∧
    (let bytes := read buf (if isFat32 buf then 71 else 43) 11
     (∀ stack, (xdevSliceHeaderFat host stack slice (some buf)).1 = 0 →
        (StringAt (xdevSliceHeaderFat host stack slice (some buf)).2.label 0 (labelText bytes) ↔
          0 ∈ bytes ∨ stack 11 = 0)) ∧
     (fatKind buf ≠ none →
        ((∀ stack, StringAt (xdevSliceHeaderFat host stack slice (some buf)).2.label 0
          (labelText bytes)) ↔ 0 ∈ bytes))) := by
  constructor
  · intro haccepted
    rw [xdevSliceHeaderExt_eq] at haccepted ⊢
    split_ifs at haccepted ⊢
    · exact extLabel_iff slice buf
    · exact nomatch haccepted
  · intro bytes
    constructor
    · intro stack haccepted
      rw [xdevSliceHeaderFat_eq] at haccepted ⊢
      cases hkind : fatKind buf with
      | none =>
        rw [hkind] at haccepted
        exact nomatch haccepted
      | some fstype => exact fatLabel_iff stack slice buf fstype
    · intro haccepted
      obtain ⟨fstype, hkind⟩ := Option.ne_none_iff_exists'.mp haccepted
      constructor
      · intro hall
        have hstack := hall fun _ => 1
        rw [xdevSliceHeaderFat_eq, hkind] at hstack
        exact ((fatLabel_iff _ slice buf fstype).mp hstack).resolve_right (by decide)
      · intro hmem stack
        rw [xdevSliceHeaderFat_eq, hkind]
        exact (fatLabel_iff stack slice buf fstype).mpr (.inl hmem)

/-- A FAT header with the label, for concrete slices. -/
def fatHeader (label : List UInt8) : ℕ → UInt8 :=
  let buf := write (write (fun _ => 0) 0 [0xeb, 0, 0x90]) 19 [1, 0, 0xf8, 1, 0]
  write (write (write buf 0x26 [0x29]) 43 label) 510 [0x55, 0xaa]

/-- A label of three characters, with a stack full of others. -/
theorem volume_label_short :
    let buf := fatHeader (ascii ['K', 'E', 'Y'])
    StringAt (xdevSliceHeaderFat .big (fun _ => 0x42) ⟨fun _ => 0, .unknown, fun _ => 0⟩
      (some buf)).2.label 0 (ascii ['K', 'E', 'Y']) := by
  intro buf
  have hkind : fatKind buf ≠ none := by decide
  have hlabel : labelText (read buf (if isFat32 buf then 71 else 43) 11)
      = ascii ['K', 'E', 'Y'] := by decide
  have hshort := ((volume_label_iff .big ⟨fun _ => 0, .unknown, fun _ => 0⟩ buf).2.2 hkind).mpr
    (by decide)
  rw [hlabel] at hshort
  exact hshort fun _ => 0x42

/-- Labels of full width: the sixteenth character of an ext label is missing, and behind a FAT label
there are twenty bytes of the stack. -/
theorem volume_label_full :
    let slice : Slice := ⟨fun _ => 0, .unknown, fun _ => 0⟩
    let ext := xdevSliceHeaderExt .little slice
      (some (write extHeader 120 (List.replicate 16 0x41)))
    let fat := xdevSliceHeaderFat .big (fun _ => 0x42) slice
      (some (fatHeader (List.replicate 11 0x41)))
    ext.1 = 0 ∧ StringAt ext.2.label 0 (List.replicate 15 0x41) ∧
      ¬ StringAt ext.2.label 0 (List.replicate 16 0x41) ∧
      fat.1 = 0 ∧ StringAt fat.2.label 0 (List.replicate 11 0x41 ++ List.replicate 20 0x42) ∧
      ¬ StringAt fat.2.label 0 (List.replicate 11 0x41) := by
  intro slice ext fat
  have hext : StringAt ext.2.label 0 (List.replicate 15 0x41) :=
    ⟨by decide, by decide, by decide⟩
  have hfat : StringAt fat.2.label 0 (List.replicate 11 0x41 ++ List.replicate 20 0x42) :=
    ⟨by decide, by decide, by decide⟩
  refine ⟨by decide, hext, fun h => ?_, by decide, hfat, fun h => ?_⟩
  · exact absurd (hext.unique h) (by decide)
  · exact absurd (hfat.unique h) (by decide)

end Neufbox.Libetk
