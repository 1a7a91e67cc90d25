import Neufbox.Lib.Run
import Neufbox.Lib.Words
import Neufbox.Libetk.SeqFile
import Neufbox.Libnbu.Net

/-!
# What a sequential file shows

The texts printed since the last `seq_clear` are followed beside the file, in units that are shown
whole or not at all: a character of a formatted text, or the two digits of a byte (`SeqOp.units`).

`seq_printf` sets the position to the size when it has cut a text off, which is how `seq_full`
tells.  `seq_print_hex` does not: it stops when the position has reached the last byte or gone past
it.  With an odd number of bytes left in front of the NUL the last byte is cut in half, with an even
number the text is cut and `seq_full` says it is whole.
-/

namespace Neufbox.Libetk

open Memory CStrings Inet Machine Libnbd Words

variable {w : ℕ}

/-! ### What is printed -/

/-- The characters of a formatted text. -/
def singles (text : List UInt8) : List (List UInt8) := text.map fun b => [b]

/-- The two digits of a byte. -/
def hexPair (p : UInt8) : List UInt8 := [hexAscii (p >>> 4), hexAscii (p &&& 0x0f)]

/-- What a call prints, in units. -/
def SeqOp.units (inetAton : String → Option Ipv4) (host : Endian) :
    SeqOp w → List (List UInt8)
  | .printf text => singles text.bytes
  | .printHex bin len => (read bin 0 len.toNat).map hexPair
  | .printMacAddr mac fmt off => singles (ascii (macAddrText host mac fmt off))
  | .printNet ipaddr netmask =>
    match seqNetText inetAton host ipaddr netmask with
    | none => []
    | some text => singles (ascii text)
  | .clear => []

/-- What was printed since the last `seq_clear`, and whether the last call was a print. -/
structure Printed where
  units : List (List UInt8)
  print : Bool

def Printed.next (inetAton : String → Option Ipv4) (host : Endian) (g : Printed) (op : SeqOp w) :
    Printed :=
  match op with
  | .clear => ⟨[], false⟩
  | op => ⟨g.units ++ op.units inetAton host, true⟩

/-- The string in the buffer is what was printed, or a part of it from the start on that breaks no
unit; it is all of it exactly if the file is not full. -/
structure Shown (m : SeqFile w) (units : List (List UInt8)) : Prop where
  count_le : m.count ≤ m.size
  string : ∃ shown, shown <+: units ∧ StringAt m.buf 0 shown.flatten ∧
    shown.flatten.length < m.size.toNat ∧
    (shown.flatten = units.flatten ↔ seqFull m = false)

theorem flatten_singles (text : List UInt8) : (singles text).flatten = text := by
  induction text with
  | nil => rfl
  | cons b text ih => exact congrArg (b :: ·) ih

theorem length_flatten_hexPair (ps : List UInt8) :
    ((ps.map hexPair).flatten).length = 2 * ps.length := by
  induction ps with
  | nil => rfl
  | cons p ps ih =>
    rw [List.map_cons, List.flatten_cons, List.length_append, ih, List.length_cons]
    show 2 + 2 * ps.length = _
    omega

theorem nul_notMem_hexPair (ps : List UInt8) : 0 ∉ (ps.map hexPair).flatten := by
  have hpair : ∀ p : UInt8, 0 ∉ hexPair p := forall_byte (by decide +kernel)
  intro hmem
  obtain ⟨pair, hpairmem, hzero⟩ := List.mem_flatten.mp hmem
  obtain ⟨p, -, rfl⟩ := List.mem_map.mp hpairmem
  exact hpair p hzero

/-! ### The states of a file -/

/-- Everything is there, and there is room for more. -/
structure Open (m : SeqFile w) (units : List (List UInt8)) : Prop where
  lt : m.count.toNat < m.size.toNat
  length : m.count.toNat = units.flatten.length
  chars : read m.buf 0 m.count.toNat = units.flatten
  nul_free : 0 ∉ units.flatten

/-- A part is there, and the file is full. -/
structure Cut (m : SeqFile w) (units : List (List UInt8)) : Prop where
  full : m.count = m.size
  string : ∃ shown, shown <+: units ∧ StringAt m.buf 0 shown.flatten ∧
    shown.flatten.length < m.size.toNat ∧ shown.flatten.length < units.flatten.length

variable {m : SeqFile w} {units new : List (List UInt8)}

theorem Open.seqFull (h : Open m units) : seqFull m = false := by
  refine decide_eq_false fun hfull => ?_
  exact h.lt.ne (congrArg BitVec.toNat hfull)

theorem Open.shown (h : Open m units) (hnul : m.buf m.count.toNat = 0) : Shown m units where
  count_le := BitVec.le_def.mpr h.lt.le
  string := by
    refine ⟨units, List.prefix_rfl, ⟨h.nul_free, ?_, ?_⟩, ?_, iff_of_true rfl h.seqFull⟩
    · rw [← h.length, h.chars]
    · rw [← h.length, Nat.zero_add, hnul]
    · rw [← h.length]
      exact h.lt

theorem Cut.shown (h : Cut m units) : Shown m units where
  count_le := h.full ▸ BitVec.le_refl _
  string := by
    obtain ⟨shown, hshown, hstring, hlt, hcut⟩ := h.string
    refine ⟨shown, hshown, hstring, hlt, iff_of_false (fun heq => ?_) ?_⟩
    · exact hcut.ne (congrArg List.length heq)
    · rw [Libetk.seqFull, decide_eq_true h.full]
      exact Bool.noConfusion

/-- What is printed on a full file is lost. -/
theorem Cut.append (h : Cut m units) (new : List (List UInt8)) : Cut m (units ++ new) where
  full := h.full
  string := by
    obtain ⟨shown, hshown, hstring, hlt, hcut⟩ := h.string
    refine ⟨shown, hshown.trans (List.prefix_append units new), hstring, hlt, ?_⟩
    rw [List.flatten_append, List.length_append]
    omega

/-! ### Formatted texts -/

/-- The length of a text, as `size_t`. -/
theorem toNat_ofInt_snprintfRet (hw : 32 ≤ w) {text : List UInt8} (h : text.length < 2 ^ 31) :
    (BitVec.ofInt w (snprintfRet text)).toNat = text.length := by
  have hpow : 2 ^ 32 ≤ 2 ^ w := Nat.pow_le_pow_right (by omega) hw
  rw [snprintfRet, if_pos h, BitVec.ofInt_natCast, BitVec.toNat_ofNat, Nat.mod_eq_of_lt (by omega)]

theorem Cut.seqPrintf (h : Cut m units) (text : List UInt8) : (seqPrintf m text).2 = m := by
  have hfull : ¬ m.count < m.size := by
    rw [h.full]
    exact BitVec.lt_irrefl _
  rw [Libetk.seqPrintf, if_neg hfull]
  exact congrArg (fun count => { m with count := count }) h.full.symm

/-- The memory after `vsnprintf`, up to the new end of the string. -/
theorem Open.stringAt_snprintf (h : Open m units) {text : List UInt8} (htext : 0 ∉ text) :
    StringAt (snprintf m.buf m.count.toNat (m.size - m.count).toNat text) 0
      (units.flatten ++ text.take (m.size.toNat - m.count.toNat - 1)) := by
  have hroom : (m.size - m.count).toNat = m.size.toNat - m.count.toNat :=
    toNat_sub_of_le h.lt.le
  have hlt := h.lt
  refine .append ?_ h.nul_free ?_
  · rw [← h.length, ← h.chars]
    apply read_congr
    intro i hi
    exact snprintf_apply_of_lt m.buf _ text (by omega)
  · rw [← h.length, Nat.zero_add, ← hroom]
    exact CStrings.stringAt_snprintf m.buf _ (by omega) htext

/-- The two ways on from an open file, by the sum as it is computed. -/
theorem Open.seqPrintf_eq (hw : 32 ≤ w) (h : Open m units) {text : List UInt8}
    (hshort : text.length < 2 ^ 31) :
    let buf := snprintf m.buf m.count.toNat (m.size - m.count).toNat text
    let sum := (m.count.toNat + text.length) % 2 ^ w
    (sum < m.size.toNat →
      (seqPrintf m text).2 = { m with buf := buf, count := BitVec.ofNat w sum }) ∧
    (m.size.toNat ≤ sum → (seqPrintf m text).2 = { m with buf := buf, count := m.size }) := by
  intro buf sum
  have hsum : (m.count + BitVec.ofInt w (snprintfRet text)).toNat = sum := by
    rw [BitVec.toNat_add, toNat_ofInt_snprintfRet hw hshort]
  have hcount : m.count + BitVec.ofInt w (snprintfRet text) = BitVec.ofNat w sum := by
    rw [← hsum, BitVec.ofNat_toNat, BitVec.setWidth_eq]
  rw [seqPrintf, if_pos (BitVec.lt_def.mpr h.lt)]
  dsimp only
  have hiff : BitVec.ofNat w sum < m.size ↔ sum < m.size.toNat := by
    rw [BitVec.lt_def, ← hcount, hsum]
  rw [hcount]
  constructor
  · intro hlt
    rw [if_pos (hiff.mpr hlt)]
  · intro hge
    rw [if_neg fun hlt => Nat.not_lt.mpr hge (hiff.mp hlt)]

/-- **`seq_printf`** of a text that fits. -/
theorem Open.seqPrintf_of_lt (hw : 32 ≤ w) (h : Open m units) {text : List UInt8}
    (htext : 0 ∉ text) (hshort : text.length < 2 ^ 31)
    (hfits : m.count.toNat + text.length < m.size.toNat) :
    let m' := (seqPrintf m text).2
    Open m' (units ++ singles text) ∧ m'.buf m'.count.toNat = 0 := by
  have hsum : (m.count.toNat + text.length) % 2 ^ w = m.count.toNat + text.length :=
    Nat.mod_eq_of_lt (hfits.trans m.size.isLt)
  have hstring := h.stringAt_snprintf htext
  rw [List.take_of_length_le (by omega)] at hstring
  have hlength : (units.flatten ++ text).length = m.count.toNat + text.length := by
    rw [List.length_append, h.length]
  have hflatten : (units ++ singles text).flatten = units.flatten ++ text := by
    rw [List.flatten_append, flatten_singles]
  rw [(h.seqPrintf_eq hw hshort).1 (by omega), hsum]
  have hcount : (BitVec.ofNat w (m.count.toNat + text.length)).toNat
      = m.count.toNat + text.length := by rw [BitVec.toNat_ofNat, hsum]
  refine ⟨⟨?_, ?_, ?_, ?_⟩, ?_⟩
  · exact hcount.trans_lt hfits
  · exact hcount.trans (by rw [hflatten, hlength])
  · show read _ 0 (BitVec.ofNat w _).toNat = _
    rw [hcount, hflatten, ← hlength, hstring.chars]
  · rw [hflatten]
    exact hstring.nul_free
  · show snprintf m.buf _ _ text (BitVec.ofNat w _).toNat = 0
    rw [hcount, ← hlength, ← Nat.zero_add (units.flatten ++ text).length]
    exact hstring.nul

/-- **`seq_printf`** of a text that is cut off. -/
theorem Open.seqPrintf_of_ge (hw : 32 ≤ w) (h : Open m units) {text : List UInt8}
    (htext : 0 ∉ text) (hshort : text.length < 2 ^ 31)
    (hcut : m.size.toNat ≤ m.count.toNat + text.length)
    (hwrap : m.count.toNat + text.length < 2 ^ w) :
    Cut (seqPrintf m text).2 (units ++ singles text) := by
  have hsum : (m.count.toNat + text.length) % 2 ^ w = m.count.toNat + text.length :=
    Nat.mod_eq_of_lt hwrap
  have hstring := h.stringAt_snprintf htext
  have hlt := h.lt
  rw [(h.seqPrintf_eq hw hshort).2 (by omega)]
  refine ⟨rfl, units ++ singles (text.take (m.size.toNat - m.count.toNat - 1)), ?_, ?_, ?_, ?_⟩
  · refine (List.prefix_append_right_inj units).mpr
      ⟨singles (text.drop (m.size.toNat - m.count.toNat - 1)), ?_⟩
    rw [singles, singles, ← List.map_append, List.take_append_drop, singles]
  · rw [List.flatten_append, flatten_singles]
    exact hstring
  · show _ < m.size.toNat
    rw [List.flatten_append, flatten_singles, List.length_append, ← h.length, List.length_take]
    omega
  · rw [List.flatten_append, flatten_singles, List.flatten_append, flatten_singles,
      List.length_append, List.length_append, ← h.length, List.length_take]
    omega

/-- A file that is not full shows everything, so there was room for it. -/
theorem Shown.length_lt (h : Shown m units) (hfull : m.count ≠ m.size) :
    units.flatten.length < m.size.toNat := by
  obtain ⟨shown, -, -, hlt, hall⟩ := h.string
  rw [← hall.mpr (decide_eq_false hfull)]
  exact hlt

/-- **`seq_printf`** with a position that wraps loses the text and says that it is whole. -/
theorem Open.not_shown_seqPrintf (hw : 32 ≤ w) (h : Open m units) {text : List UInt8}
    (hshort : text.length < 2 ^ 31) (hwrap : 2 ^ w ≤ m.count.toNat + text.length) :
    ¬ Shown (seqPrintf m text).2 (units ++ singles text) := by
  have hpow : 2 ^ 32 ≤ 2 ^ w := Nat.pow_le_pow_right (by omega) hw
  have hlt := h.lt
  have hsize := m.size.isLt
  have hsum : (m.count.toNat + text.length) % 2 ^ w = m.count.toNat + text.length - 2 ^ w := by
    rw [Nat.mod_eq_sub_mod hwrap, Nat.mod_eq_of_lt (by omega)]
  rw [(h.seqPrintf_eq hw hshort).1 (by omega)]
  intro hshown
  have hroom := hshown.length_lt fun hfull => by
    have hfull : (BitVec.ofNat w ((m.count.toNat + text.length) % 2 ^ w)).toNat
        = m.size.toNat := congrArg BitVec.toNat hfull
    rw [BitVec.toNat_ofNat, Nat.mod_mod, hsum] at hfull
    omega
  rw [List.flatten_append, flatten_singles, List.length_append, ← h.length] at hroom
  exact absurd hroom (by show ¬ _ < m.size.toNat; omega)

/-! ### Digits -/

theorem toNat_minSize (x y : BitVec w) : (minSize x y).toNat = min x.toNat y.toNat :=
  toNat_ite_lt x y

/-- Of no byte nothing is printed. -/
theorem eq_withDigits_zero (m : SeqFile w) (ps : List UInt8) :
    m = { m with
      buf := write m.buf m.count.toNat ((ps.take 0).map hexPair).flatten
      count := BitVec.ofNat w (m.count.toNat + 2 * 0) } := by
  rw [Nat.mul_zero, Nat.add_zero, BitVec.ofNat_toNat, BitVec.setWidth_eq, List.take_zero]
  exact congrArg (fun buf => { m with buf := buf }) (write_nil m.buf _).symm

/-- **The loop of `seq_print_hex`** prints some of the bytes, all of them unless the position has
reached the limit, and goes past the limit by one at most. -/
theorem seqPrintHexLoop_spec (maxCount : BitVec w) (ps : List UInt8) :
    ∀ {m : SeqFile w}, m.count.toNat ≤ m.size.toNat → maxCount.toNat + 1 = m.size.toNat →
      ∃ j ≤ ps.length, (j = ps.length ∨ maxCount.toNat ≤ m.count.toNat + 2 * j) ∧
        m.count.toNat + 2 * j ≤ m.size.toNat ∧
        seqPrintHexLoop maxCount m m.count.toNat ps = { m with
          buf := write m.buf m.count.toNat ((ps.take j).map hexPair).flatten
          count := BitVec.ofNat w (m.count.toNat + 2 * j) } := by
  induction ps with
  | nil =>
    intro m hcount _
    exact ⟨0, Nat.le_refl 0, .inl rfl, hcount, eq_withDigits_zero m []⟩
  | cons p ps ih =>
    intro m hcount hsize
    by_cases hlt : m.count < maxCount
    · have hltNat := BitVec.lt_def.mp hlt
      -- the file after one byte
      let m₁ : SeqFile w := { m with
        buf := Function.update (Function.update m.buf m.count.toNat (hexAscii (p >>> 4)))
          (m.count.toNat + 1) (hexAscii (p &&& 0x0f))
        count := m.count + 1 + 1 }
      have hcount₁ : m₁.count.toNat = m.count.toNat + 2 := by
        have hsizelt := m.size.isLt
        have hone : (1 : BitVec w).toNat = 1 := toNat_one (by omega)
        show (m.count + 1 + 1).toNat = _
        rw [BitVec.toNat_add, BitVec.toNat_add, hone, Nat.mod_add_mod, Nat.mod_eq_of_lt (by omega)]
      obtain ⟨j, hj, hor, hle, heq⟩ := ih (m := m₁) (by show _ ≤ m.size.toNat; omega) hsize
      rw [hcount₁] at hor hle heq
      refine ⟨j + 1, Nat.succ_le_succ hj, ?_, ?_, ?_⟩
      · rw [List.length_cons]
        omega
      · show _ ≤ m.size.toNat
        have : m.count.toNat + 2 + 2 * j ≤ m.size.toNat := hle
        omega
      · rw [seqPrintHexLoop, if_pos hlt]
        refine heq.trans ?_
        rw [List.take_succ_cons, List.map_cons, List.flatten_cons, hexPair, List.cons_append,
          List.cons_append, List.nil_append, write_cons, write_cons]
        have hnext : m.count.toNat + 2 + 2 * j = m.count.toNat + 2 * (j + 1) := by omega
        rw [hnext]
    · have hge := mt BitVec.lt_def.mpr hlt
      refine ⟨0, Nat.zero_le _, .inr (by omega), hcount, ?_⟩
      rw [seqPrintHexLoop, if_neg hlt]
      exact eq_withDigits_zero m (p :: ps)

/-- On a full file **`seq_print_hex`** stores a NUL in the last byte. -/
theorem cut_seqPrintHex (h : Cut m units) (hsize : 0 < m.size.toNat) (bin : ℕ → UInt8)
    (len : BitVec w) : Cut (seqPrintHex m bin len) units := by
  have hnone : (minSize len (m.size - m.count)).toNat = 0 := by
    rw [toNat_minSize, h.full, BitVec.sub_self]
    exact Nat.min_zero _
  have hlast : (minSize m.count (m.size - 1)).toNat = m.size.toNat - 1 := by
    rw [toNat_minSize, toNat_sub_one hsize, h.full]
    omega
  have heq : seqPrintHex m bin len
      = { m with buf := Function.update m.buf (m.size.toNat - 1) 0 } := by
    rw [seqPrintHex, hnone]
    show { m with buf := Function.update m.buf (minSize m.count (m.size - 1)).toNat 0 } = _
    rw [hlast]
  obtain ⟨shown, hshown, hstring, hlt, hcut⟩ := h.string
  rw [heq]
  refine ⟨h.full, shown, hshown, hstring.congr fun j _ hj => ?_, hlt, hcut⟩
  by_cases hjlast : j = m.size.toNat - 1
  · -- the NUL of the string, if it has grown that long
    have hend : j = 0 + shown.flatten.length := by omega
    show Function.update m.buf (m.size.toNat - 1) 0 j = _
    rw [← hjlast, Function.update_self, hend, hstring.nul]
  · exact Function.update_of_ne hjlast _ _

/-- **`seq_print_hex`** where there is room: how many bytes it prints, and where it puts the NUL. -/
theorem seqPrintHex_eq (hlt : m.count.toNat < m.size.toNat) (bin : ℕ → UInt8) (len : BitVec w) :
    ∃ j ≤ len.toNat, m.count.toNat + 2 * j ≤ m.size.toNat ∧
      (j = len.toNat ∨ m.size.toNat ≤ m.count.toNat + 2 * j + 1) ∧
      (seqPrintHex m bin len).size = m.size ∧
      (seqPrintHex m bin len).count.toNat = m.count.toNat + 2 * j ∧
      (seqPrintHex m bin len).buf
        = Function.update (write m.buf m.count.toNat ((read bin 0 j).map hexPair).flatten)
          (min (m.count.toNat + 2 * j) (m.size.toNat - 1)) 0 := by
  have hsize : (m.size - 1).toNat = m.size.toNat - 1 := toNat_sub_one (by omega)
  have hroom : (m.size - m.count).toNat = m.size.toNat - m.count.toNat :=
    toNat_sub_of_le hlt.le
  obtain ⟨j, hj, hor, hle, heq⟩ := seqPrintHexLoop_spec (m.size - 1)
    (read bin 0 (minSize len (m.size - m.count)).toNat) (m := m) hlt.le (by omega)
  rw [length_read, toNat_minSize, hroom] at hj hor
  have hcount : (BitVec.ofNat w (m.count.toNat + 2 * j)).toNat = m.count.toNat + 2 * j := by
    have := m.size.isLt
    exact toNat_ofNat_of_lt (by omega)
  have hbytes : (read bin 0 (minSize len (m.size - m.count)).toNat).take j = read bin 0 j := by
    rw [take_read, toNat_minSize, hroom, Nat.min_eq_right hj]
  rw [hbytes] at heq
  refine ⟨j, by omega, hle, by omega, ?_⟩
  rw [seqPrintHex]
  dsimp only
  rw [heq]
  refine ⟨rfl, hcount, ?_⟩
  show Function.update _ (minSize (BitVec.ofNat w _) _).toNat 0 = _
  rw [toNat_minSize, hcount, hsize]

/-- On an open file the digits follow what is there. -/
theorem Open.seqPrintHex_spec (h : Open m units) (bin : ℕ → UInt8) (len : BitVec w) :
    ∃ j ≤ len.toNat, m.count.toNat + 2 * j ≤ m.size.toNat ∧
      (j = len.toNat ∨ m.size.toNat ≤ m.count.toNat + 2 * j + 1) ∧
      (seqPrintHex m bin len).size = m.size ∧
      (seqPrintHex m bin len).count.toNat = m.count.toNat + 2 * j ∧
      StringAt (seqPrintHex m bin len).buf 0
        ((units.flatten ++ ((read bin 0 j).map hexPair).flatten).take
          (min (m.count.toNat + 2 * j) (m.size.toNat - 1))) := by
  obtain ⟨j, hj, hle, hor, hsize, hcount, hbuf⟩ := seqPrintHex_eq h.lt bin len
  refine ⟨j, hj, hle, hor, hsize, hcount, ?_⟩
  have hlength : (units.flatten ++ ((read bin 0 j).map hexPair).flatten).length
      = m.count.toNat + ((read bin 0 j).map hexPair).flatten.length := by
    rw [List.length_append, ← h.length]
  have hchars := read_write_append m.buf 0 m.count.toNat ((read bin 0 j).map hexPair).flatten
  rw [h.chars, ← hlength, Nat.zero_add] at hchars
  have hnul : 0 ∉ units.flatten ++ ((read bin 0 j).map hexPair).flatten := by
    rw [List.mem_append, not_or]
    exact ⟨h.nul_free, nul_notMem_hexPair _⟩
  have hend : min (m.count.toNat + 2 * j) (m.size.toNat - 1)
      ≤ (units.flatten ++ ((read bin 0 j).map hexPair).flatten).length := by
    rw [hlength, length_flatten_hexPair, length_read]
    exact Nat.min_le_left _ _
  have hstring := stringAt_update hnul hchars hend
  rwa [Nat.zero_add, ← hbuf] at hstring

/-- The text that is printed when all of it fits, whatever is in front of it. -/
theorem stringAt_seqPrintHex (bin : ℕ → UInt8) {len : BitVec w}
    (hfits : m.count.toNat + 2 * len.toNat < m.size.toNat) :
    StringAt (seqPrintHex m bin len).buf m.count.toNat
      ((read bin 0 len.toNat).map hexPair).flatten := by
  obtain ⟨j, hj, hle, hor, -, -, hbuf⟩ := seqPrintHex_eq (m := m) (by omega) bin len
  obtain rfl : j = len.toNat := by omega
  have hlength : ((read bin 0 len.toNat).map hexPair).flatten.length = 2 * len.toNat := by
    rw [length_flatten_hexPair, length_read]
  have hchars := read_write_self m.buf m.count.toNat ((read bin 0 len.toNat).map hexPair).flatten
  have hstring := stringAt_update (p := 2 * len.toNat) (nul_notMem_hexPair _) hchars (by omega)
  rw [List.take_of_length_le (by omega)] at hstring
  rwa [hbuf, Nat.min_eq_left (by omega)]

/-- **`seq_print_hex`** of bytes that fit. -/
theorem Open.seqPrintHex_of_lt (h : Open m units) (bin : ℕ → UInt8) {len : BitVec w}
    (hfits : m.count.toNat + 2 * len.toNat < m.size.toNat) :
    let m' := seqPrintHex m bin len
    Open m' (units ++ (read bin 0 len.toNat).map hexPair) ∧ m'.buf m'.count.toNat = 0 := by
  obtain ⟨j, hj, hle, hor, hsize, hcount, hstring⟩ := h.seqPrintHex_spec bin len
  obtain rfl : j = len.toNat := by omega
  have hlength : (units.flatten ++ ((read bin 0 len.toNat).map hexPair).flatten).length
      = m.count.toNat + 2 * len.toNat := by
    rw [List.length_append, length_flatten_hexPair, length_read, h.length]
  rw [Nat.min_eq_left (by omega), List.take_of_length_le (by omega)] at hstring
  refine ⟨⟨?_, ?_, ?_, ?_⟩, ?_⟩
  · rw [hcount, hsize]
    exact hfits
  · rw [hcount, List.flatten_append, hlength]
  · rw [hcount, List.flatten_append, ← hlength, hstring.chars]
  · rw [List.flatten_append]
    exact hstring.nul_free
  · rw [hcount, ← hlength, ← Nat.zero_add (List.length _)]
    exact hstring.nul

/-- A part of the units has all of some of them, and digits come in pairs. -/
theorem length_flatten_of_prefix_append {shown : List (List UInt8)} {ps : List UInt8}
    (h : shown <+: units ++ ps.map hexPair) :
    shown.flatten.length ≤ units.flatten.length ∨
      ∃ i, shown.flatten.length = units.flatten.length + 2 * i := by
  obtain ⟨rest, hrest⟩ := h
  rcases List.append_eq_append_iff.mp hrest with ⟨missing, rfl, -⟩ | ⟨pairs, rfl, hpairs⟩
  · refine .inl ?_
    rw [List.flatten_append, List.length_append]
    omega
  · obtain ⟨qs, -, -, rfl, -⟩ := List.map_eq_append_iff.mp hpairs
    refine .inr ⟨qs.length, ?_⟩
    rw [List.flatten_append, List.length_append, length_flatten_hexPair]

/-- **`seq_print_hex`** of bytes that do not fit cuts one in half, or cuts the text off without the
file being full. -/
theorem Open.not_shown_seqPrintHex (h : Open m units) (bin : ℕ → UInt8) (len : BitVec w)
    (hcut : m.size.toNat ≤ m.count.toNat + 2 * len.toNat) :
    ¬ Shown (seqPrintHex m bin len) (units ++ (read bin 0 len.toNat).map hexPair) := by
  obtain ⟨j, hj, hle, hor, hsize, hcount, hstring⟩ := h.seqPrintHex_spec bin len
  have hlt := h.lt
  intro hshown
  by_cases hfull : m.count.toNat + 2 * j = m.size.toNat
  · -- the NUL is stored over the second digit of the last byte
    obtain ⟨shown, hpart, hshowns, -, -⟩ := hshown.string
    have hlength := congrArg List.length (hshowns.unique hstring)
    rw [List.length_take, List.length_append, length_flatten_hexPair, length_read,
      ← h.length] at hlength
    rcases length_flatten_of_prefix_append hpart with hbefore | ⟨i, hi⟩
    · rw [← h.length] at hbefore
      omega
    · rw [← h.length] at hi
      omega
  · -- everything would have to be there, which is more than fits
    have hroom := hshown.length_lt fun heq => by
      have := congrArg BitVec.toNat heq
      rw [hcount, hsize] at this
      omega
    rw [hsize, List.flatten_append, List.length_append, length_flatten_hexPair, length_read,
      ← h.length] at hroom
    omega

/-! ### Addresses -/

theorem printable_hexByte {digit : ℕ → Char} (hdigit : digit = hexLower ∨ digit = hexUpper)
    (b : UInt8) : Printable (hexByte digit b) := by
  have hlower : ∀ i : Fin 16, (hexLower i).toNat ≠ 0 ∧ (hexLower i).toNat < 256 := by
    decide
  have hupper : ∀ i : Fin 16, (hexUpper i).toNat ≠ 0 ∧ (hexUpper i).toNat < 256 := by
    decide
  have hb := b.toNat_lt
  have hhigh : b.toNat / 16 < 16 := by omega
  have hlow : b.toNat % 16 < 16 := Nat.mod_lt _ (by decide)
  refine List.forall_mem_cons.mpr ⟨?_, List.forall_mem_singleton.mpr ?_⟩
  · rcases hdigit with rfl | rfl
    · exact hlower ⟨_, hhigh⟩
    · exact hupper ⟨_, hhigh⟩
  · rcases hdigit with rfl | rfl
    · exact hlower ⟨_, hlow⟩
    · exact hupper ⟨_, hlow⟩

/-- Six octets, with something between them. -/
theorem intercalate_octets_spec {digit : ℕ → Char} (hdigit : digit = hexLower ∨ digit = hexUpper)
    {sep : List Char} (hsep : Printable sep) (e : EtherAddr) :
    Printable (List.intercalate sep (e.octets.map (hexByte digit))) ∧
      (List.intercalate sep (e.octets.map (hexByte digit))).length = 12 + 5 * sep.length := by
  have hbyte := printable_hexByte hdigit
  have hlength (b : UInt8) : (hexByte digit b).length = 2 := rfl
  simp only [EtherAddr.octets, List.map_cons, List.map_nil, List.intercalate, List.intersperse,
    List.flatten_cons, List.flatten_nil, List.append_nil, List.length_append, hlength]
  refine ⟨?_, by omega⟩
  simp only [Printable, List.forall_mem_append]
  exact ⟨hbyte _, hsep, hbyte _, hsep, hbyte _, hsep, hbyte _, hsep, hbyte _, hsep, hbyte _⟩

theorem macAddrText_spec (host : Endian) (mac : EtherAddr) (fmt : MacAddrFormat) (off : Int) :
    Printable (macAddrText host mac fmt off) ∧ (macAddrText host mac fmt off).length ≤ 17 := by
  have hsep (c : Char) (hc : c.toNat ≠ 0 ∧ c.toNat < 256) : Printable [c] :=
    List.forall_mem_singleton.mpr hc
  cases fmt with
  | system =>
    obtain ⟨hprint, hlength⟩ := intercalate_octets_spec (.inr rfl) (hsep ':' (by decide)) _
    exact ⟨hprint, hlength.le⟩
  | voip =>
    obtain ⟨hprint, hlength⟩ := intercalate_octets_spec (.inl rfl) (hsep '-' (by decide)) _
    exact ⟨hprint, hlength.le⟩
  | compact =>
    obtain ⟨hprint, hlength⟩ := intercalate_octets_spec (.inr rfl) (List.forall_mem_nil _) _
    exact ⟨hprint, hlength.le.trans (by decide)⟩

/-- **The text of a network**, from numbers in host order, signed. -/
theorem seqNetText_eq (inetAton : String → Option Ipv4) (host : Endian) {ipaddr netmask : String}
    {ip nm : Ipv4} (hip : inetAton ipaddr = some ip) (hnm : inetAton netmask = some nm) :
    seqNetText inetAton host ipaddr netmask
      = some (cidr (.ofAddr (ip.addr &&& nm.addr)) (maskBits nm.addr)) := by
  have hmask : (if (32 : Int) - ((ffs nm.addr : Int) - 1) > 32 then 0
      else (32 : Int) - ((ffs nm.addr : Int) - 1)) = (maskBits nm.addr : Int) := by
    have hle := ffs_le nm.addr
    by_cases hnull : nm.addr = 0
    · rw [ffs_eq_zero_iff.mpr hnull, maskBits, if_pos hnull]
      rfl
    · have hpos : ffs nm.addr ≠ 0 := mt ffs_eq_zero_iff.mp hnull
      rw [maskBits, if_neg hnull, if_neg (by omega)]
      omega
  rw [seqNetText, hip, hnm]
  show some _ = some _
  rw [ntohl_inAddr, ntohl_inAddr, octets_htonl, hmask, decimal_natCast, cidr]

/-- A text that is printed has nothing of a NUL, and a length that is an `int`. -/
theorem seqNetText_spec {inetAton : String → Option Ipv4} {host : Endian}
    {ipaddr netmask : String} {text : List Char}
    (h : seqNetText inetAton host ipaddr netmask = some text) :
    Printable text ∧ text.length ≤ 18 := by
  obtain ⟨ip, hip, hrest⟩ := Option.bind_eq_some_iff.mp h
  obtain ⟨nm, hnm, -⟩ := Option.bind_eq_some_iff.mp hrest
  obtain rfl := Option.some.inj (h.symm.trans (seqNetText_eq inetAton host hip hnm))
  exact ⟨printable_cidr _ _, length_cidr_le _ (maskBits_le _)⟩

/-! ### Calls -/

/-- The text has a length that is an `int`. -/
def SeqOp.Short : SeqOp w → Prop
  | .printf text => text.bytes.length < 2 ^ 31
  | _ => True

/-- The condition on a text of `n` characters: the file is full, or the position does not wrap. -/
def TextFits (m : SeqFile w) (n : ℕ) : Prop := m.count = m.size ∨ m.count.toNat + n < 2 ^ w

/-- The condition on a call.  Digits have to fit with the NUL, unless the file is full; addresses
that are not valid leave the buffer as it is, so that there has to be a NUL at the position. -/
def SeqOp.Fits (inetAton : String → Option Ipv4) (host : Endian) (m : SeqFile w) :
    SeqOp w → Prop
  | .printf text => TextFits m text.bytes.length
  | .printHex _ len => m.count = m.size ∨ m.count.toNat + 2 * len.toNat < m.size.toNat
  | .printMacAddr mac fmt off => TextFits m (macAddrText host mac fmt off).length
  | .printNet ipaddr netmask =>
    match seqNetText inetAton host ipaddr netmask with
    | none => m.count = m.size ∨ m.buf m.count.toNat = 0
    | some text => TextFits m text.length
  | .clear => True

/-- The file is open, with a NUL behind a print, or full with a part of what was printed. -/
inductive Tracks (m : SeqFile w) (g : Printed) : Prop
  | opened (h : Open m g.units) (hnul : g.print = true → m.buf m.count.toNat = 0)
  | cut (h : Cut m g.units)

/-- What is demanded of a print: after it the file shows what was printed exactly if `C` holds, and
then it is tracked on. -/
def Exact (m' : SeqFile w) (units : List (List UInt8)) (C : Prop) : Prop :=
  (Shown m' units ↔ C) ∧ (C → Tracks m' ⟨units, true⟩)

section

variable {m' : SeqFile w} {C : Prop}

theorem exact_of_opened (h : Open m' units) (hnul : m'.buf m'.count.toNat = 0) (hC : C) :
    Exact m' units C :=
  ⟨iff_of_true (h.shown hnul) hC, fun _ => .opened h fun _ => hnul⟩

theorem exact_of_cut (h : Cut m' units) (hC : C) : Exact m' units C :=
  ⟨iff_of_true h.shown hC, fun _ => .cut h⟩

theorem exact_of_not_shown (h : ¬ Shown m' units) (hC : ¬ C) : Exact m' units C :=
  ⟨iff_of_false h hC, fun hC' => absurd hC' hC⟩

end

variable {g : Printed}

/-- **A formatted text.** -/
theorem exact_seqPrintf (hw : 32 ≤ w) (h : Tracks m g) {text : List UInt8} (htext : 0 ∉ text)
    (hshort : text.length < 2 ^ 31) :
    Exact (seqPrintf m text).2 (g.units ++ singles text) (TextFits m text.length) := by
  cases h with
  | opened hopen _ =>
    rcases Nat.lt_or_ge (m.count.toNat + text.length) (2 ^ w) with hwrap | hwrap
    · rcases Nat.lt_or_ge (m.count.toNat + text.length) m.size.toNat with hfits | hcut
      · obtain ⟨hopen', hnul'⟩ := hopen.seqPrintf_of_lt hw htext hshort hfits
        exact exact_of_opened hopen' hnul' (.inr hwrap)
      · exact exact_of_cut (hopen.seqPrintf_of_ge hw htext hshort hcut hwrap) (.inr hwrap)
    · refine exact_of_not_shown (hopen.not_shown_seqPrintf hw hshort hwrap) ?_
      rintro (hfull | hlt)
      · exact hopen.lt.ne (congrArg BitVec.toNat hfull)
      · omega
  | cut hcut =>
    rw [hcut.seqPrintf]
    exact exact_of_cut (hcut.append _) (.inl hcut.full)

/-- **Digits.** -/
theorem exact_seqPrintHex (h : Tracks m g) (bin : ℕ → UInt8) (len : BitVec w) :
    Exact (seqPrintHex m bin len) (g.units ++ (read bin 0 len.toNat).map hexPair)
      (m.count = m.size ∨ m.count.toNat + 2 * len.toNat < m.size.toNat) := by
  cases h with
  | opened hopen _ =>
    rcases Nat.lt_or_ge (m.count.toNat + 2 * len.toNat) m.size.toNat with hfits | hcut
    · obtain ⟨hopen', hnul'⟩ := hopen.seqPrintHex_of_lt bin hfits
      exact exact_of_opened hopen' hnul' (.inr hfits)
    · refine exact_of_not_shown (hopen.not_shown_seqPrintHex bin _ hcut) ?_
      rintro (hfull | hlt)
      · exact hopen.lt.ne (congrArg BitVec.toNat hfull)
      · omega
  | cut hcut =>
    obtain ⟨_, _, _, hlt, _⟩ := hcut.string
    have hcut' := cut_seqPrintHex hcut (Nat.zero_lt_of_lt hlt) bin len
    exact exact_of_cut (hcut'.append _) (.inl hcut.full)

/-- **Nothing** is printed, and the buffer is left as it is. -/
theorem exact_unchanged (h : Tracks m g) :
    Exact m g.units (m.count = m.size ∨ m.buf m.count.toNat = 0) := by
  cases h with
  | opened hopen _ =>
    by_cases hnul : m.buf m.count.toNat = 0
    · exact exact_of_opened hopen hnul (.inr hnul)
    · refine exact_of_not_shown (fun hshown => hnul ?_) ?_
      · -- the string ends where the position is
        obtain ⟨shown, -, hstring, -, hall⟩ := hshown.string
        have hend := hstring.nul
        rwa [hall.mpr hopen.seqFull, Nat.zero_add, ← hopen.length] at hend
      · rintro (hfull | hzero)
        · exact hopen.lt.ne (congrArg BitVec.toNat hfull)
        · exact hnul hzero
  | cut hcut => exact exact_of_cut hcut (.inl hcut.full)

variable (inetAton : String → Option Ipv4) (host : Endian)

/-- A text that is given by its characters. -/
theorem exact_seqPrintf_ascii (hw : 32 ≤ w) (h : Tracks m g) {text : List Char}
    (htext : Printable text) {n : ℕ} (hlength : text.length ≤ n) (hn : n < 2 ^ 31) :
    Exact (seqPrintf m (ascii text)).2 (g.units ++ singles (ascii text))
      (TextFits m text.length) := by
  have hascii : (ascii text).length = text.length := length_ascii text
  have hexact := exact_seqPrintf hw h (nul_notMem_ascii htext) (by omega)
  rwa [hascii] at hexact

/-- **One print.** -/
theorem exact_seqStep (hw : 32 ≤ w) (h : Tracks m g) {op : SeqOp w} (hshort : op.Short)
    (hprint : (g.next inetAton host op).print = true) :
    Exact (seqStep inetAton host m op).1 (g.next inetAton host op).units
      (op.Fits inetAton host m) := by
  cases op with
  | printf text => exact exact_seqPrintf hw h text.nul_free hshort
  | printHex bin len => exact exact_seqPrintHex h bin len
  | printMacAddr mac fmt off =>
    obtain ⟨hprintable, hlength⟩ := macAddrText_spec host mac fmt off
    exact exact_seqPrintf_ascii hw h hprintable hlength (by decide)
  | printNet ipaddr netmask =>
    cases htext : seqNetText inetAton host ipaddr netmask with
    | none =>
      simp only [seqStep, seqPrintNet, Printed.next, SeqOp.units, SeqOp.Fits, htext,
        List.append_nil]
      exact exact_unchanged h
    | some text =>
      obtain ⟨hprintable, hlength⟩ := seqNetText_spec htext
      simp only [seqStep, seqPrintNet, Printed.next, SeqOp.units, SeqOp.Fits, htext]
      exact exact_seqPrintf_ascii hw h hprintable hlength (by decide)
  | clear => exact absurd hprint Bool.false_ne_true

/-- A file that was cleared is open. -/
theorem tracks_seqClear (h : Tracks m g) : Tracks (seqClear m) ⟨[], false⟩ := by
  have hsize : 0 < m.size.toNat := by
    cases h with
    | opened hopen _ => exact Nat.zero_lt_of_lt hopen.lt
    | cut hcut =>
      obtain ⟨_, _, _, hlt, _⟩ := hcut.string
      exact Nat.zero_lt_of_lt hlt
  exact .opened ⟨hsize, rfl, rfl, List.not_mem_nil⟩ nofun

/-- **The seq_file invariant.**  For every buffer of at least one byte and every sequence of calls:
after every print the position does not exceed the size, the buffer has a string that ends in it and
is a part of what was printed since the last `seq_clear`, from its start on and with both digits of
a byte or none, and all of it exactly if the file is not full, if and only if every call fits. -/
theorem seqFile_shown_iff (hw : 32 ≤ w) {m : SeqFile w} (hsize : 0 < m.size.toNat)
    (hcount : m.count = 0) {ops : List (SeqOp w)} (hshort : ∀ op ∈ ops, op.Short) :
    (∀ before, before <+: ops →
      let g := before.foldl (Printed.next inetAton host) ⟨[], false⟩
      g.print = true → Shown (run (seqStep inetAton host) m before).1 g.units) ↔
      Meets (seqStep inetAton host) (fun m op => op.Fits inetAton host m) m ops := by
  have hstart : Tracks m ⟨[], false⟩ := by
    have htracks : Open m [] := by
      refine ⟨?_, ?_, ?_, List.not_mem_nil⟩ <;> rw [hcount]
      · exact hsize
      · rfl
      · rfl
    exact .opened htracks nofun
  refine forall_prefix_iff_meets_of_meets (seqStep inetAton host) (Printed.next inetAton host)
    (D := fun _ op => op.Short) (I := Tracks) (P := fun m g => g.print = true → Shown m g.units)
    ?_ ?_ ops m ⟨[], false⟩ (meets_of_forall _ (fun op hop _ => hshort op hop) _) hstart nofun
  · intro m g op hop h
    cases op with
    | clear => exact iff_of_true nofun trivial
    | _ =>
      have hexact := exact_seqStep inetAton host hw h hop rfl
      exact ⟨fun hshown => hexact.1.mp (hshown rfl), fun hfits _ => hexact.1.mpr hfits⟩
  · intro m g op hop h hfits
    cases op with
    | clear => exact tracks_seqClear h
    | _ => exact (exact_seqStep inetAton host hw h hop rfl).2 hfits

/-- Two characters and the digits of two bytes, in a buffer of eight bytes. -/
theorem seqFile_shown_digits :
    let m : SeqFile 32 := ⟨fun _ => 0xff, 8, 0⟩
    let ops : List (SeqOp 32) :=
      [.printf ⟨ascii ['a', 'b'], by decide⟩, .printHex (fun i => .ofNat (0xcd + 0x22 * i)) 2]
    Shown (run (seqStep Libnbu.inetAtonOctets .big) m ops).1
      [ascii ['a'], ascii ['b'], ascii ['c', 'd'], ascii ['e', 'f']] := by
  intro m ops
  have hshort : ∀ op ∈ ops, op.Short :=
    List.forall_mem_cons.mpr
      ⟨show 2 < 2 ^ 31 by decide, List.forall_mem_singleton.mpr trivial⟩
  have hfits : Meets (seqStep Libnbu.inetAtonOctets .big)
      (fun m op => op.Fits Libnbu.inetAtonOctets .big m) m ops :=
    ⟨.inr (by decide), .inr (by decide), trivial⟩
  exact (seqFile_shown_iff Libnbu.inetAtonOctets .big (Nat.le_refl 32) (by decide) rfl hshort).mpr
    hfits ops List.prefix_rfl rfl

/-- Two bytes are printed to a buffer of four, which has the second one with one digit: `aba`.  With
a buffer of three the second byte is missing and the file is not full. -/
theorem seqFile_half_byte :
    let ops : List (SeqOp 32) := [.printHex (fun _ => 0xab) 2]
    let file (size : BitVec 32) := (run (seqStep Libnbu.inetAtonOctets .big)
      ⟨fun _ => 0xff, size, 0⟩ ops).1
    let units := [ascii ['a', 'b'], ascii ['a', 'b']]
    read (file 4).buf 0 4 = ascii ['a', 'b', 'a', '\x00'] ∧ ¬ Shown (file 4) units ∧
      read (file 3).buf 0 3 = ascii ['a', 'b', '\x00'] ∧ seqFull (file 3) = false ∧
      ¬ Shown (file 3) units := by
  intro ops file units
  have hopen {size : BitVec 32} (hsize : 0 < size.toNat) :
      Open (⟨fun _ => 0xff, size, 0⟩ : SeqFile 32) [] := ⟨hsize, rfl, rfl, List.not_mem_nil⟩
  refine ⟨by decide, ?_, by decide, by decide, ?_⟩
  · have hfile : Open (⟨fun _ => 0xff, 4, 0⟩ : SeqFile 32) [] := hopen (by decide)
    exact hfile.not_shown_seqPrintHex (fun _ => 0xab) 2 (by decide)
  · have hfile : Open (⟨fun _ => 0xff, 3, 0⟩ : SeqFile 32) [] := hopen (by decide)
    exact hfile.not_shown_seqPrintHex (fun _ => 0xab) 2 (by decide)

end Neufbox.Libetk
