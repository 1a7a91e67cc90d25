import Neufbox.Lib.Cbc
import Neufbox.Lib.Memory
import Neufbox.Libnbu.String

/-!
# Importing the configuration, exporting the diagnostic report

Model of `nbl_exim_config_user_import` and `nbl_exim_diagnostic_report_export` (`nbl_exim.c`).
-/

namespace Neufbox.Www

open Cbc Libnbu Memory

/-! ### The import -/

/-- The files that there are, with their contents. -/
abbrev Files := String → Option (List UInt8)

/-- `unlink` -/
def unlink (files : Files) (filename : String) : Files := Function.update files filename none

/-- One round of the copy loop that reads something: how many bytes `fread` gives, and how many of
them `fwrite` gets into the file. -/
structure Round where
  read : ℕ
  written : ℕ

/-- What happens to the files during the import.  After the rounds `fread` gives nothing more, be it
for the end of the upload or for an error.  `kept` is how much of the file is left when what was
buffered could not be written at the end. -/
structure Copying where
  /-- `tv.tv_sec`, as `gettimeofday` gives it. -/
  sec : ℤ
  /-- `fopen` of the temporary file succeeds. -/
  opens : Bool
  rounds : List Round
  kept : ℕ
  /-- `nbd_user_config_import` returns 0. -/
  accepted : Bool

/-- `filename`, in a buffer of 64 bytes. -/
def Copying.filename (run : Copying) : String :=
  nbuStringPrintf 64 ("/tmp/neufbox4_" ++ toString run.sec ++ ".conf")

/-- The copy loop, with what is still to be read of the upload and what is in the temporary file. -/
def copyLoop : List Round → List UInt8 → List UInt8 → List UInt8
  | [], _, temp => temp
  | round :: rounds, config, temp =>
    let buf := config.take (min round.read 256)
    if buf = [] then temp
    else copyLoop rounds (config.drop buf.length) (temp ++ buf.take round.written)

/-- What `nbl_exim_config_user_import` leaves behind. -/
structure Imported where
  /-- `NBU_SUCCESS` is returned. -/
  ret : Bool
  /-- The content of the file that the daemon is asked to import. -/
  asked : Option (List UInt8)
  files : Files

/-- `nbl_exim_config_user_import` -/
def nblEximConfigUserImport (run : Copying) (files : Files) (config : Option (List UInt8)) :
    Imported :=
  match config with
  | none => ⟨false, none, files⟩
  | some config =>
    if run.opens then
      let temp := copyLoop run.rounds config []
      let files := Function.update files run.filename (some (temp.take run.kept))
      -- neither `ferror` nor the results of `fwrite` and `fclose` are looked at
      let ret := run.accepted
      ⟨ret, files run.filename, unlink files run.filename⟩
    else ⟨false, none, files⟩

/-! ### The report -/

/-- `AES_BLOCK_SIZE` bytes. -/
@[ext] structure Block where
  bytes : List UInt8
  length_bytes : bytes.length = 16
  deriving DecidableEq

/-- Byte by byte, as `aes_crypt_cbc` combines input and vector. -/
def Block.xor (x y : Block) : Block where
  bytes := List.zipWith (· ^^^ ·) x.bytes y.bytes
  length_bytes := by rw [List.length_zipWith, x.length_bytes, y.length_bytes, Nat.min_self]

instance : XorOp Block := ⟨Block.xor⟩

/-- What one `read` gives: at least one byte, and at most a block. -/
structure Chunk where
  bytes : List UInt8
  pos : 0 < bytes.length
  le : bytes.length ≤ 16

/-- `msg` after `read(fd, msg, AES_BLOCK_SIZE)`. -/
def Block.store (msg : Block) (chunk : Chunk) : Block where
  bytes := chunk.bytes ++ msg.bytes.drop chunk.bytes.length
  length_bytes := by
    have := chunk.le
    rw [List.length_append, List.length_drop, msg.length_bytes]
    omega

/-- `buf` after it was cleared and the first `n` bytes of `msg` were copied there. -/
def Block.padded (msg : Block) (n : ℕ) : Block where
  bytes := msg.bytes.take n ++ List.replicate (16 - n) 0
  length_bytes := by
    rw [List.length_append, List.length_take, List.length_replicate, msg.length_bytes]
    omega

/-- The first 16 of the bytes of a string. -/
def firstBlock (bytes : List UInt8) (h : 16 ≤ bytes.length) : Block :=
  ⟨bytes.take 16, by rw [List.length_take]; omega⟩

/-- `key1`, of which 128 bits are used: `"a7e821fa91253b27"`. -/
def key1 : Block :=
  ⟨[0x61, 0x37, 0x65, 0x38, 0x32, 0x31, 0x66, 0x61, 0x39, 0x31, 0x32, 0x35, 0x33, 0x62, 0x32, 0x37],
    rfl⟩

/-- `iv1`, of which a block is used: `"9d37b43294574aed"`. -/
def iv1 : Block :=
  ⟨[0x39, 0x64, 0x33, 0x37, 0x62, 0x34, 0x33, 0x32, 0x39, 0x34, 0x35, 0x37, 0x34, 0x61, 0x65, 0x64],
    rfl⟩

/-- The half bytes of a digest, the high one first. -/
def nibbles (bytes : List UInt8) : List UInt8 :=
  bytes.flatMap fun b : UInt8 => [b >>> 4, b &&& 0xF]

theorem length_nibbles (bytes : List UInt8) : (nibbles bytes).length = 2 * bytes.length := by
  induction bytes with
  | nil => rfl
  | cons b bytes ih =>
    rw [nibbles, List.flatMap_cons, List.length_append, ← nibbles, ih, List.length_cons]
    show 2 + 2 * bytes.length = 2 * (bytes.length + 1)
    omega

section

-- AES with keys of 128 bits, and MD5
variable (aes : Cipher Block Block) (md5 : List UInt8 → Block)

/-- `iv2`: the digest of the MAC text. -/
def iv2 (buf : Block) : Block :=
  firstBlock (nibbles (md5 buf.bytes).bytes) (by
    rw [length_nibbles, (md5 buf.bytes).length_bytes]
    decide)

/-- `key2`: ten bytes of the digest of the first half of the MAC text, and then six of that of the
second one. -/
def key2 (buf : Block) : Block :=
  firstBlock (nibbles ((md5 (buf.bytes.take 8)).bytes.take 10) ++
      nibbles ((md5 (buf.bytes.drop 8)).bytes.drop 10)) (by
    rw [List.length_append, length_nibbles, length_nibbles, List.length_take, List.length_drop,
      Block.length_bytes, Block.length_bytes]
    decide)

/-- `buf` with the MAC text: sixteen characters of the address, without the middle colon, or what
was there before if the address is not known.  `mac` is the memory that `nbd_status_get` wrote. -/
def macText (mac : Option (ℕ → UInt8)) (buf : Block) : Block :=
  match mac with
  | none => buf
  | some mac => ⟨read mac 0 8 ++ read mac 9 8, by simp⟩

/-- The variables of the loop: the two vectors, the two buffers, what `md5_update` was given, and
the blocks that were written. -/
structure Export where
  iv1 : Block
  iv2 : Block
  buf : Block
  msg : Block
  hashed : List UInt8
  written : List Block

/-- `buf` is encrypted twice, and written. -/
def Export.encrypt (key2 : Block) (s : Export) : Export :=
  let msg := crypt aes key2 s.iv2 s.buf
  let buf := crypt aes key1 s.iv1 msg
  { s with iv2 := msg, msg := msg, iv1 := buf, buf := buf, written := s.written ++ [buf] }

/-- One round of the loop. -/
def Export.round (key2 : Block) (s : Export) (chunk : Chunk) : Export :=
  let msg := s.msg.store chunk
  let buf := msg.padded chunk.bytes.length
  let s := Export.encrypt aes key2 { s with msg := msg, buf := buf }
  { s with hashed := s.hashed ++ s.buf.bytes }

/-- `nbl_exim_diagnostic_report_export` when the dump is opened: the blocks of the report, and
`digest`.  `stack` is what `buf` holds before, `mac` the address, and `reads` what the `read`s of
the dump give. -/
def nblEximDiagnosticReportExport (stack : Block) (mac : Option (ℕ → UInt8))
    (reads : List Chunk) : List Block × Block :=
  let buf := macText mac stack
  let iv2 := iv2 md5 buf
  let key2 := key2 md5 buf
  let msg := crypt aes key1 iv1 buf
  let s : Export := { iv1 := msg, iv2 := iv2, buf := buf, msg := msg, hashed := [],
                      written := [msg] }
  let s := reads.foldl (Export.round aes key2) s
  let digest := md5 s.hashed
  -- `buf` is encrypted, not the digest
  ((Export.encrypt aes key2 s).written, digest)

end

end Neufbox.Www
