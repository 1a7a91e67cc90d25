import Neufbox.Libnbd.Equiv.Encoding
import Neufbox.Libnbd.Equiv.Send

/-!
# What a query tells of the stack

The buffer of a query lies on the stack and is not cleared as a whole: `nbd_query_send` clears the
structure and stores the strings behind it.  The bytes it sends end one byte behind the last string,
and that byte was never stored: the terminator goes to the next one.

`Alike` compares two runs of the loop on different stacks, `Untouched` says what is still there of
the stack.  Two calls with the same arguments send the same if and only if the stacks they find
agree on the one byte behind the strings (`nbdQuerySend_same_iff`).
-/

namespace Neufbox.Libnbd

open Memory

variable {abi : Abi}

/-- Two packings with the same variables and the same bytes before `end`. -/
structure Alike (p p' : Packing abi) : Prop where
  argc : p'.argc = p.argc
  end_ : p'.end_ = p.end_
  len : p'.len = p.len
  below : ∀ j < p.end_, p'.buf j = p.buf j

/-- From `end` on, the buffer holds what the stack held; `packStart` clears one byte of it. -/
def Untouched (stack : ℕ → UInt8) (p : Packing abi) : Prop :=
  ∀ j, abi.sizeofQuery < j → p.end_ ≤ j → p.buf j = stack j

/-! ### The start -/

theorem alike_packStart (stack stack' : ℕ → UInt8) :
    Alike (packStart abi stack) (packStart abi stack') where
  argc := rfl
  end_ := rfl
  len := rfl
  below := by
    intro j hj
    have hstruct : j < abi.sizeofQuery := hj
    refine write_apply_congr _ _ (.inr (write_apply_congr _ _ (.inl ?_)))
    rw [List.length_replicate]
    omega

theorem untouched_packStart (stack : ℕ → UInt8) : Untouched stack (packStart abi stack) := by
  intro j hj _
  show write (write stack 0 (List.replicate abi.sizeofQuery 0)) abi.sizeofQuery [0] j = stack j
  rw [write_apply_of_ge _ _ _ (by rw [List.length_singleton]; omega),
    write_apply_of_ge _ _ _ (by rw [List.length_replicate]; omega)]

/-! ### The loop -/

variable {p p' : Packing abi} {done : List CString} {a : CString} {stack stack' : ℕ → UInt8}

/-- An argument that fits is stored whole, with its NUL. -/
theorem stored_of_fits (hp : Packed p done)
    (hfits : abi.sizeofQuery + packedSize (done ++ [a]) ≤ 511) :
    snprintfStore p.len.toNat a = a.bytes ++ [0] ∧
      (packArg p a).end_ = p.end_ + (a.bytes.length + 1) := by
  have hsize : packedSize (done ++ [a]) = packedSize done + (a.bytes.length + 1) := by simp
  have hlen := hp.len
  exact ⟨snprintfStore_of_lt (by omega), packArg_end p (by omega)⟩

theorem Alike.packArg (h : Alike p p') (hp : Packed p done)
    (hfits : abi.sizeofQuery + packedSize (done ++ [a]) ≤ 511) :
    Alike (packArg p a) (packArg p' a) := by
  obtain ⟨hstore, hend⟩ := stored_of_fits hp hfits
  refine ⟨?_, ?_, ?_, ?_⟩
  · simp only [Libnbd.packArg, h.argc]
  · simp only [Libnbd.packArg, h.end_]
  · simp only [Libnbd.packArg, h.len]
  · intro j hj
    simp only [Libnbd.packArg, h.argc, h.end_, h.len, hstore]
    refine write_apply_congr _ _ (.inr (write_apply_congr _ _ (.inr (write_apply_congr _ _ ?_))))
    -- the byte belongs to the new string or was the same before
    rw [hend] at hj
    by_cases hlt : j < p.end_
    · exact .inr (h.below j hlt)
    · left
      rw [List.length_append, List.length_singleton]
      omega

theorem Untouched.packArg (h : Untouched stack p) (hp : Packed p done)
    (hfits : abi.sizeofQuery + packedSize (done ++ [a]) ≤ 511) (hargs : done.length < 12) :
    Untouched stack (packArg p a) := by
  obtain ⟨hstore, hend⟩ := stored_of_fits hp hfits
  have h4 := abi.four_le_wordBytes
  have hword := abi.wordBytes_le_argvOffset p.argc
  have hlast := abi.argvOffset_add_le_sizeofQuery (i := p.argc) (by rw [hp.argc]; exact hargs)
  intro j hj hge
  rw [hend] at hge
  simp only [Libnbd.packArg, hstore]
  rw [write_apply_of_ge _ _ _ (by rw [Endian.length_encode]; omega),
    write_apply_of_ge _ _ _ (by rw [Endian.length_encode]; omega),
    write_apply_of_ge _ _ _ (by rw [List.length_append, List.length_singleton]; omega)]
  exact h j hj (by omega)

/-- **The loop** on two stacks. -/
theorem alike_foldl (args : List CString) (h : Alike p p') (hp : Packed p done)
    (huntouched : Untouched stack p)
    (hfits : abi.sizeofQuery + packedSize (done ++ args) ≤ 511)
    (hargs : (done ++ args).length ≤ 12) :
    Alike (args.foldl packArg p) (args.foldl packArg p') ∧
      Untouched stack (args.foldl packArg p) := by
  induction args generalizing p p' done with
  | nil => exact ⟨h, huntouched⟩
  | cons a args ih =>
    have hfits' : abi.sizeofQuery + packedSize (done ++ [a]) ≤ 511 := by
      simp only [packedSize_append, packedSize_cons, packedSize_nil] at hfits ⊢
      omega
    have hargs' : done.length < 12 := by
      rw [List.length_append, List.length_cons] at hargs
      omega
    refine ih (h.packArg hp hfits') (packed_packArg hp hfits' hargs')
      (huntouched.packArg hp hfits' hargs') ?_ ?_
    · simpa using hfits
    · simpa using hargs

/-! ### The query -/

variable {args : Args}

/-- The offset of the byte behind the strings. -/
def Abi.behindStrings (abi : Abi) (args : Args) : ℕ := abi.sizeofQuery + packedSize args.toList

theorem alike_buildQuery (stack stack' : ℕ → UInt8)
    (hfits : abi.sizeofQuery + packedSize args.toList ≤ 511) :
    Alike (args.toList.foldl packArg (packStart abi stack))
        (args.toList.foldl packArg (packStart abi stack')) ∧
      Untouched stack (args.toList.foldl packArg (packStart abi stack)) :=
  alike_foldl args.toList (alike_packStart stack stack') (packed_packStart abi stack)
    (untouched_packStart stack) (by simpa using hfits) (by simpa using args.length_toList_le)

/-- The bytes of a query are those of the structure and of the strings, and one of the stack. -/
theorem bytes_eq_concat (hfits : abi.sizeofQuery + packedSize args.toList ≤ 511) :
    (buildQuery abi stack args).bytes
      = read (args.toList.foldl packArg (packStart abi stack)).buf 0 (abi.behindStrings args)
        ++ [stack (abi.behindStrings args)] := by
  have hend := (packed_buildQuery stack hfits).end_
  have hpos : 0 < packedSize args.toList := by
    rw [Args.toList, packedSize_cons]
    omega
  have hbyte := (alike_buildQuery stack stack hfits).2 (abi.behindStrings args)
    (by unfold Abi.behindStrings; omega) (by rw [hend]; exact Nat.le_refl _)
  rw [bytes_buildQuery hfits, read_add, Nat.zero_add]
  exact congrArg (_ ++ [·]) hbyte

theorem bytes_eq_iff (hfits : abi.sizeofQuery + packedSize args.toList ≤ 511) :
    (buildQuery abi stack args).bytes = (buildQuery abi stack' args).bytes ↔
      stack (abi.behindStrings args) = stack' (abi.behindStrings args) := by
  have hend := (packed_buildQuery stack hfits).end_
  have hread : read (args.toList.foldl packArg (packStart abi stack)).buf 0
      (abi.behindStrings args)
      = read (args.toList.foldl packArg (packStart abi stack')).buf 0 (abi.behindStrings args) := by
    refine read_congr fun i hi => ?_
    refine ((alike_buildQuery stack stack' hfits).1.below _ ?_).symm
    rw [hend, Nat.zero_add]
    exact hi
  rw [bytes_eq_concat hfits, bytes_eq_concat hfits, hread, List.append_cancel_left_eq,
    List.singleton_inj]

/-- **Two calls with the same arguments**, all of which fit, send the same length and the same
bytes, whatever the connection does, if and only if the stacks hold the same byte behind the
strings. -/
theorem nbdQuerySend_same_iff (abi : Abi) (args : Args) (stack stack' : ℕ → UInt8)
    (hfits : abi.sizeofQuery + packedSize args.toList ≤ 511) :
    (∀ link writes attempts arrivals,
      nbdQuerySend abi link ⟨args, stack, writes, attempts, arrivals⟩
        = nbdQuerySend abi link ⟨args, stack', writes, attempts, arrivals⟩) ↔
    stack (abi.sizeofQuery + packedSize args.toList)
      = stack' (abi.sizeofQuery + packedSize args.toList) := by
  have hlen : (buildQuery abi stack args).len.toNat = (buildQuery abi stack' args).len.toNat := by
    rw [toNat_len_of_fits hfits, toNat_len_of_fits hfits]
  constructor
  · intro hsame
    -- a connection that takes everything
    have hsent := hsame ⟨some ⟨3, [], []⟩, []⟩ [.all, .all] [] []
    simp only [nbdQuerySend, sendBody, Link.write, safeWrite, hlen, Prod.mk.injEq, Link.mk.injEq,
      Option.some.injEq, Conn.mk.injEq, true_and, and_true, List.append_cancel_left_eq] at hsent
    exact (bytes_eq_iff hfits).mp hsent.2
  · intro hbyte link writes attempts arrivals
    have hbytes := (bytes_eq_iff hfits).mpr hbyte
    simp only [nbdQuerySend, hlen, hbytes]

/-- The query of the plugin `x`, on a clean stack and on one that held something. -/
theorem nbdQuerySend_same_iff_clean :
    let stack : ℕ → UInt8 := fun j => if j = 0 then 42 else 0
    Abi.mips.sizeofQuery + packedSize plainArgs.toList ≤ 511 ∧
      ∀ link writes attempts arrivals,
        nbdQuerySend .mips link ⟨plainArgs, fun _ => 0, writes, attempts, arrivals⟩
          = nbdQuerySend .mips link ⟨plainArgs, stack, writes, attempts, arrivals⟩ := by
  intro stack
  exact ⟨by decide, (nbdQuerySend_same_iff .mips plainArgs (fun _ => 0) stack (by decide)).mpr rfl⟩

/-- The last byte of the query is the one the stack held. -/
theorem nbdQuerySend_sends_stack :
    let link : Link := ⟨some ⟨3, [], []⟩, []⟩
    let sent (stack : ℕ → UInt8) : Option (List UInt8) :=
      (nbdQuerySend .mips link ⟨plainArgs, stack, [.all, .all], [], []⟩).2.conn.map Conn.sent
    Abi.mips.sizeofQuery + packedSize plainArgs.toList ≤ 511 ∧
      (sent fun _ => 0).bind List.getLast? = some 0 ∧
      (sent fun _ => 42).bind List.getLast? = some 42 := by
  decide

end Neufbox.Libnbd
