import Mathlib.Algebra.Group.Nat.Defs
import Neufbox.Lib.Memory

/-!
# C strings in memory

`StringAt m a s`: from address `a` on, the memory holds the string `s` and the NUL that ends it.
`snprintf` stores as much of a text as there is room for, and always a NUL.

* `StringAt.unique`: there is one string at an address;
* `StringAt.append`: characters in front of a string;
* `stringAt_snprintf`: what can be read after `snprintf`.
-/

namespace Neufbox.CStrings

open Memory

variable {m m' : ℕ → UInt8} {a n : ℕ} {s t : List UInt8}

/-- The characters as bytes. -/
def ascii (cs : List Char) : List UInt8 := cs.map fun c => UInt8.ofNat c.toNat

/-- The string at the address. -/
structure StringAt (m : ℕ → UInt8) (a : ℕ) (s : List UInt8) : Prop where
  nul_free : 0 ∉ s
  chars : read m a s.length = s
  nul : m (a + s.length) = 0

/-- What `snprintf` leaves behind when it prints `text` to a buffer of `n` bytes at `a`. -/
def snprintf (m : ℕ → UInt8) (a n : ℕ) (text : List UInt8) : ℕ → UInt8 :=
  if n = 0 then m else write m a (text.take (n - 1) ++ [0])

/-- What it returns: the length of the whole text, or an error when that is no `int`. -/
def snprintfRet (text : List UInt8) : Int := if text.length < 2 ^ 31 then text.length else -1

/-- `"%d"` -/
def decimal (i : Int) : List Char :=
  if i < 0 then '-' :: Nat.toDigits 10 i.natAbs else Nat.toDigits 10 i.toNat

/-- A digit of `"%x"`. -/
def hexLower (n : ℕ) : Char := "0123456789abcdef".toList.getD n '?'

/-- A digit of `"%X"`. -/
def hexUpper (n : ℕ) : Char := "0123456789ABCDEF".toList.getD n '?'

/-- `"%02x"` or `"%02X"`, for a byte. -/
def hexByte (digit : ℕ → Char) (b : UInt8) : List Char :=
  [digit (b.toNat / 16), digit (b.toNat % 16)]

/-! ### Strings -/

/-- The longer of two strings would have a NUL inside. -/
theorem StringAt.length_le (hs : StringAt m a s) (ht : StringAt m a t) : t.length ≤ s.length := by
  by_contra hlt
  have hi : s.length < (read m a t.length).length := by
    rw [length_read]
    omega
  have hnul : (read m a t.length)[s.length] = 0 := (getElem_read ..).trans hs.nul
  have hmem : (0 : UInt8) ∈ read m a t.length := hnul ▸ List.getElem_mem hi
  rw [ht.chars] at hmem
  exact ht.nul_free hmem

theorem StringAt.unique (hs : StringAt m a s) (ht : StringAt m a t) : s = t := by
  have hlength : s.length = t.length := Nat.le_antisymm (ht.length_le hs) (hs.length_le ht)
  rw [← hs.chars, hlength, ht.chars]

theorem StringAt.iff_eq (hs : StringAt m a s) : StringAt m a t ↔ t = s :=
  ⟨fun ht => ht.unique hs, fun h => h ▸ hs⟩

/-- The first character of a string, and the string behind it. -/
theorem stringAt_cons_iff {b : UInt8} :
    StringAt m a (b :: s) ↔ b ≠ 0 ∧ m a = b ∧ StringAt m (a + 1) s := by
  have haddr : a + 1 + s.length = a + (s.length + 1) := by omega
  constructor
  · intro h
    have hchars := h.chars
    have hnul := h.nul
    have hfree := h.nul_free
    rw [List.length_cons, read_succ] at hchars
    rw [List.length_cons, ← haddr] at hnul
    rw [List.mem_cons, not_or] at hfree
    obtain ⟨hhead, htail⟩ := List.cons.inj hchars
    exact ⟨Ne.symm hfree.1, hhead, hfree.2, htail, hnul⟩
  · rintro ⟨hne, rfl, h⟩
    refine ⟨?_, ?_, ?_⟩
    · rw [List.mem_cons, not_or]
      exact ⟨Ne.symm hne, h.nul_free⟩
    · rw [List.length_cons, read_succ, h.chars]
    · rw [List.length_cons, ← haddr]
      exact h.nul

/-- A string is where it was when its cells are. -/
theorem StringAt.congr (h : StringAt m a s) (hm : ∀ j, a ≤ j → j ≤ a + s.length → m' j = m j) :
    StringAt m' a s where
  nul_free := h.nul_free
  chars := by
    have hread : read m' a s.length = read m a s.length :=
      read_congr fun i hi => hm _ (by omega) (by omega)
    exact hread.trans h.chars
  nul := (hm _ (by omega) (by omega)).trans h.nul

theorem StringAt.append (hchars : read m a s.length = s) (hs : 0 ∉ s)
    (h : StringAt m (a + s.length) t) : StringAt m a (s ++ t) where
  nul_free := by
    rw [List.mem_append, not_or]
    exact ⟨hs, h.nul_free⟩
  chars := by rw [List.length_append, read_add, hchars, h.chars]
  nul := by
    rw [List.length_append, ← Nat.add_assoc]
    exact h.nul

/-- The memory from another address on. -/
theorem StringAt.shift {b : ℕ} (h : StringAt m (b + a) s) : StringAt (fun i => m (b + i)) a s where
  nul_free := h.nul_free
  chars := by
    have hchars := h.chars
    simp only [Memory.read, Nat.add_assoc] at hchars ⊢
    exact hchars
  nul := by
    have hnul := h.nul
    rwa [Nat.add_assoc] at hnul

theorem stringAt_write (m : ℕ → UInt8) (a : ℕ) (hs : 0 ∉ s) :
    StringAt (write m a (s ++ [0])) a s := by
  have hread := read_write_self m a (s ++ [0])
  obtain ⟨hchars, -⟩ := read_eq_append_iff.mp hread
  have hlast : s.length < (s ++ [(0 : UInt8)]).length := by
    rw [List.length_append, List.length_singleton]
    omega
  have hnul := write_apply_add m a _ hlast
  rw [List.getElem_concat_length rfl] at hnul
  exact ⟨hs, hchars, hnul⟩

/-- A NUL stored over a character, or behind the last one, cuts the text off there. -/
theorem stringAt_update {p : ℕ} (hs : 0 ∉ s) (hchars : read m a s.length = s)
    (hp : p ≤ s.length) : StringAt (Function.update m (a + p) 0) a (s.take p) := by
  have hlength : (s.take p).length = p := by
    rw [List.length_take]
    omega
  refine ⟨fun hmem => hs (List.mem_of_mem_take hmem), ?_, ?_⟩
  · have htake : read m a p = s.take p := by
      have htake := take_read m a s.length p
      rwa [hchars, Nat.min_eq_right hp, eq_comm] at htake
    rw [hlength, ← htake]
    apply read_congr
    intro i hi
    exact Function.update_of_ne (by omega) _ _
  · rw [hlength, Function.update_self]

/-! ### Printing -/

theorem snprintf_of_pos (h : 0 < n) (text : List UInt8) :
    snprintf m a n text = write m a (text.take (n - 1) ++ [0]) :=
  if_neg (Nat.pos_iff_ne_zero.mp h)

/-- **`snprintf`** leaves the beginning of the text, with its NUL inside the buffer. -/
theorem stringAt_snprintf (m : ℕ → UInt8) (a : ℕ) (h : 0 < n) (hs : 0 ∉ s) :
    StringAt (snprintf m a n s) a (s.take (n - 1)) := by
  rw [snprintf_of_pos h]
  exact stringAt_write m a fun hmem => hs (List.mem_of_mem_take hmem)

/-- A text that fits is stored whole. -/
theorem stringAt_snprintf_of_lt (m : ℕ → UInt8) (a : ℕ) (h : s.length < n) (hs : 0 ∉ s) :
    StringAt (snprintf m a n s) a s := by
  have hprint := stringAt_snprintf m a (n := n) (by omega) hs
  rwa [List.take_of_length_le (by omega)] at hprint

/-- Nothing in front of the buffer is written. -/
theorem snprintf_apply_of_lt (m : ℕ → UInt8) (n : ℕ) (text : List UInt8) {j : ℕ} (h : j < a) :
    snprintf m a n text j = m j := by
  unfold snprintf
  split_ifs
  · rfl
  · exact write_apply_of_lt m a _ h

/-- The characters that there is room for. -/
theorem snprintf_apply_add (m : ℕ → UInt8) (a : ℕ) {i : ℕ} (hi : i < s.length) (h : i < n - 1) :
    snprintf m a n s (a + i) = s[i] := by
  have hlength : i < (s.take (n - 1) ++ [(0 : UInt8)]).length := by
    rw [List.length_append, List.length_take]
    omega
  have htake : i < (s.take (n - 1)).length := by
    rw [List.length_take]
    omega
  rw [snprintf_of_pos (by omega), write_apply_add m a _ hlength, List.getElem_append_left htake,
    List.getElem_take]

/-! ### Characters -/

/-- A property of the 256 bytes. -/
theorem forall_byte {P : UInt8 → Prop} (h : ∀ i : Fin 256, P (UInt8.ofNat i)) (b : UInt8) :
    P b := by
  have hb := h ⟨b.toNat, b.toNat_lt⟩
  rwa [UInt8.ofNat_toNat] at hb

theorem length_ascii (cs : List Char) : (ascii cs).length = cs.length := List.length_map ..

theorem decimal_natCast (n : ℕ) : decimal n = Nat.toDigits 10 n := by
  rw [decimal, if_neg (by omega), Int.toNat_natCast]

/-- Characters of one byte other than NUL. -/
def Printable (cs : List Char) : Prop := ∀ c ∈ cs, c.toNat ≠ 0 ∧ c.toNat < 256

theorem nul_notMem_ascii {cs : List Char} (h : Printable cs) : 0 ∉ ascii cs := by
  intro hmem
  obtain ⟨c, hc, hzero⟩ := List.mem_map.mp hmem
  have htoNat := congrArg UInt8.toNat hzero
  rw [UInt8.toNat_ofNat', Nat.mod_eq_of_lt (h c hc).2] at htoNat
  exact (h c hc).1 htoNat

/-- The bytes determine the characters. -/
theorem ascii_injective {cs ds : List Char} (hcs : Printable cs) (hds : Printable ds)
    (h : ascii cs = ascii ds) : cs = ds := by
  have hback {es : List Char} (hes : Printable es) :
      (ascii es).map (fun b => Char.ofNat b.toNat) = es := by
    rw [ascii, List.map_map]
    refine (List.map_congr_left fun c hc => ?_).trans (List.map_id es)
    show Char.ofNat (UInt8.ofNat c.toNat).toNat = c
    rw [UInt8.toNat_ofNat', Nat.mod_eq_of_lt (hes c hc).2, Char.ofNat_toNat]
  rw [← hback hcs, h, hback hds]

end Neufbox.CStrings
