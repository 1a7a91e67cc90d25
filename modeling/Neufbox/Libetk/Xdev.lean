import Neufbox.Lib.Bytes
import Neufbox.Lib.CStrings

/-!
# File systems of external devices

Model of `xdev_slice_header_fat` and `xdev_slice_header_ext` (`xdev.c`), which recognise a file
system by the first block of it, and of `le16` and `le32` (`common.h`).

`buf` is the memory from the local buffer on, after the block was read into it; without a block
`read_sb` has failed.  `stack` is what the memory from the local variable `label` on held before.
-/

namespace Neufbox.Libetk

open Memory CStrings

/-- `FSTYPE_...` -/
inductive FsType where
  | unknown
  | ntfs
  | fat
  | fat12_16
  | fat32
  | ext2
  | ext3
  | ext4
  deriving DecidableEq

/-- `struct xdev_block_slice_t`, as far as the header is concerned.  `label` and `uuid` are the
memory from these fields on. -/
structure Slice where
  label : ℕ → UInt8
  fstype : FsType
  uuid : ℕ → UInt8

/-- `sizeof(slice->label)` -/
def sizeofLabel : ℕ := 32

/-- `sizeof(slice->uuid)`, `UUID_MAX_SIZE` -/
def sizeofUuid : ℕ := 37

/-- A field of `k` bytes in a packed structure, as the host reads it. -/
def field (host : Endian) (buf : ℕ → UInt8) (offset k : ℕ) : ℕ := host.decode (read buf offset k)

/-- `le16` and `le32`, with 2 and 4 bytes: `bswap_16` and `bswap_32` on a big-endian host. -/
def le (host : Endian) (k x : ℕ) : ℕ :=
  match host with
  | .little => x
  | .big => Endian.little.decode (Endian.big.encode k x)

/-- `snprintf(s, n, "%s", str)`, of which `n - 1` characters of `str` are enough to know what it
stores. -/
def snprintfString (m : ℕ → UInt8) (n : ℕ) (str : ℕ → UInt8) : ℕ → UInt8 :=
  snprintf m 0 n ((read str 0 (n - 1)).takeWhile (· ≠ 0))

/-- `UUID_DOS` -/
def uuidDos (raw : ℕ → UInt8) : List Char :=
  hexByte hexUpper (raw 3) ++ hexByte hexUpper (raw 2) ++ '-' ::
    (hexByte hexUpper (raw 1) ++ hexByte hexUpper (raw 0))

/-- `UUID_DCE` -/
def uuidDce (raw : ℕ → UInt8) : List Char :=
  let bytes (i n : ℕ) : List Char := (read raw i n).flatMap (hexByte hexLower)
  bytes 0 4 ++ '-' :: (bytes 4 2 ++ '-' :: (bytes 6 2 ++ '-' :: (bytes 8 2 ++ '-' :: bytes 10 6)))

/-- `xdev_slice_header_fat`: the value returned and the slice. -/
def xdevSliceHeaderFat (host : Endian) (stack : ℕ → UInt8) (slice : Slice)
    (block : Option (ℕ → UInt8)) : Int × Slice :=
  match block with
  | none => (-1, slice)
  | some buf =>
    if buf 0 = 0xeb ∧ buf 2 = 0x90 ∧ (buf 21 = 0xf8 ∨ buf 21 = 0xfc) then
      if field host buf 510 2 ≠ le host 2 0xaa55 then (1, slice)
      else
        let nsecs := le host 2 (field host buf 19 2)
        let nsecs := if nsecs = 0 then le host 4 (field host buf 32 4) else nsecs
        if nsecs = 0 then (1, slice)
        else
          -- what the bytes 0x39 and 0x3a say about the type is overwritten
          let fatLength := le host 2 (field host buf 22 2)
          let fat32Length := le host 4 (field host buf 36 4)
          let fstype : FsType := if fatLength = 0 ∧ fat32Length ≠ 0 then .fat32 else .fat12_16
          if fstype = .fat32 ∧ buf 0x26 = 0x29 then (1, slice)
          else if fstype ≠ .fat32 ∧ buf 0x26 ≠ 0x29 then (1, slice)
          else if fstype ≠ .fat32 ∧ fstype ≠ .fat12_16 then (1, slice)
          else
            let (labelOffset, sernoOffset) := if fstype = .fat32 then (71, 67) else (43, 39)
            -- the label has no NUL of its own, `"%s"` goes on behind it
            let label := write stack 0 (read buf labelOffset 11)
            (0, {
              label := snprintfString slice.label sizeofLabel label
              fstype := fstype
              uuid := snprintf slice.uuid 0 sizeofUuid
                (ascii (uuidDos fun i => buf (sernoOffset + i))) })
    else (1, slice)

/-- `xdev_slice_header_ext`: the value returned and the slice. -/
def xdevSliceHeaderExt (host : Endian) (slice : Slice) (block : Option (ℕ → UInt8)) :
    Int × Slice :=
  match block with
  | none => (-1, slice)
  | some buf =>
    if field host buf 56 2 = le host 2 0xef53 then
      -- the counts are compared as the host reads them
      if field host buf 12 4 ≥ field host buf 4 4 then (1, slice)
      else if field host buf 16 4 ≥ field host buf 0 4 then (1, slice)
      else if field host buf 4 4 = 0 then (1, slice)
      else
        let compat := le host 4 (field host buf 92 4)
        let incompat := le host 4 (field host buf 96 4)
        let roCompat := le host 4 (field host buf 100 4)
        let fstype : FsType :=
          if compat &&& 0x4 ≠ 0 then
            if roCompat &&& 0x8 ≠ 0 ∨ roCompat &&& 0x20 ≠ 0 ∨ incompat &&& 0x40 ≠ 0 ∨
                incompat &&& 0x80 ≠ 0 then .ext4
            else .ext3
          else .ext2
        (0, {
          label := snprintfString slice.label (min sizeofLabel 16) fun i => buf (120 + i)
          fstype := fstype
          uuid := snprintf slice.uuid 0 sizeofUuid (ascii (uuidDce fun i => buf (104 + i))) })
    else (1, slice)

end Neufbox.Libetk
