import Neufbox.Lib.Spsc
import Neufbox.Libetk.Equiv.Fifo
import Neufbox.Libetk.FifoThreads

/-!
# One writer and one reader need no lock

`Calls` is a byte queue together with what its two callers have found out about it, and
`Calls.next` says which events are possible and what they do to the queue.

* `WriterAt`, `ReaderAt`: what a thread knows at each place of its code.  A step of the other thread
  does not take it away, since the reader only makes room and the writer only appends;
* `threadStep_inv`: every step of a thread is one that is possible for the queue;
* `fifo_threads`: the result over every interleaving.
-/

namespace Neufbox.Libetk

open Memory Cyclic Machine Queue Words Spsc

/-- A queue, with the number of bytes that `fifo_in` is about to take, and that `fifo_out` is about
to give, or `fifo_skip` to give up. -/
structure Calls (cap : ℕ) where
  queue : Queue UInt8 cap
  taking : ℕ
  giving : ℕ

/-- What an event does to the queue, if it is possible.  More bytes than asked for can be skipped:
those that came between the look at `fifo_len` and `fifo_reset_out`. -/
def Calls.next {cap : ℕ} (c : Calls cap) : CallEvent → Option (Calls cap)
  | .avail len => some { c with taking := min len c.queue.room }
  | .in_ bytes =>
    if bytes.length = c.taking ∧ c.taking ≤ c.queue.room then
      some { c with queue := c.queue.push bytes } else none
  | .len len => some { c with giving := min len c.queue.items.length }
  | .out bytes =>
    if bytes = c.queue.items.take c.giving then
      some { c with queue := c.queue.pop c.giving } else none
  | .skip count =>
    if c.giving ≤ count ∧ count ≤ c.queue.items.length then
      some { c with queue := c.queue.pop count } else none

variable {k : ℕ}

theorem toNat_fifoOff_add_zero {fifo : Fifo} (hsize : fifo.size.toNat = 2 ^ k) (x : BitVec 32) :
    (fifoOff fifo (x + 0)).toNat = x.toNat % 2 ^ k := by
  rw [toNat_fifoOff hsize]
  exact congrArg (fun y : BitVec 32 => y.toNat % 2 ^ k) (BitVec.add_zero x)

/-- The two `memcpy` access consecutive cells. -/
theorem copyOff_eq {fifo : Fifo} (hsize : fifo.size.toNat = 2 ^ k) {off len : BitVec 32} {p i : ℕ}
    (hoff : off.toNat = p % 2 ^ k) (hlen : len.toNat ≤ 2 ^ k) (hi : i < len.toNat) :
    copyOff fifo off len i = (p + i) % 2 ^ k := by
  have hlt := Nat.mod_lt p (Nat.two_pow_pos k)
  have hl : (minUnsigned len (fifo.size - off)).toNat = min len.toNat (2 ^ k - p % 2 ^ k) := by
    rw [toNat_minUnsigned, toNat_sub_of_le (by omega), hsize, hoff]
  simp only [copyOff, hl, hoff]
  split_ifs with h
  · rw [add_mod_eq_of_lt (by omega)]
  · rw [add_mod_eq_sub_of_ge (by omega) (by omega) (Nat.two_pow_pos k)]
    omega

/-! ### What the threads know -/

/-- What the writer knows at each place. -/
def WriterAt (k : ℕ) (in_ : BitVec 32) (buffer : ℕ → UInt8) (room taking : ℕ) : Writer → Prop
  | .idle | .avail .. => True
  | .copy from_ len off todo =>
    len.toNat = taking ∧ taking ≤ room ∧ off.toNat = in_.toNat % 2 ^ k ∧
      Copying (fun i => buffer ((in_.toNat + i) % 2 ^ k) = from_ i) len.toNat todo

/-- What the reader knows at each place. -/
def ReaderAt (k : ℕ) (out : BitVec 32) (items : List UInt8) (giving : ℕ) : Reader → Prop
  | .idle | .len _ | .skip _ => True
  | .copy len off todo to_ =>
    len.toNat = giving ∧ giving ≤ items.length ∧ off.toNat = out.toNat % 2 ^ k ∧
      Copying (fun i => items[i]? = some (to_ i)) len.toNat todo
  | .skipAdd len => len.toNat = giving ∧ giving ≤ items.length
  | .reset => giving ≤ items.length
  | .resetOut in_ => giving ≤ (in_ - out).toNat ∧ (in_ - out).toNat ≤ items.length

theorem WriterAt.mono {in_ : BitVec 32} {buffer : ℕ → UInt8} {room room' taking : ℕ}
    {writer : Writer} (h : WriterAt k in_ buffer room taking writer) (hle : room ≤ room') :
    WriterAt k in_ buffer room' taking writer := by
  cases writer with
  | idle => trivial
  | avail from_ len => trivial
  | copy from_ len off todo => exact ⟨h.1, h.2.1.trans hle, h.2.2⟩

theorem ReaderAt.append {out : BitVec 32} {items : List UInt8} {giving : ℕ} {reader : Reader}
    (h : ReaderAt k out items giving reader) (bytes : List UInt8) :
    ReaderAt k out (items ++ bytes) giving reader := by
  have hle : items.length ≤ (items ++ bytes).length := by simp
  cases reader with
  | idle => trivial
  | len len => trivial
  | copy len off todo to_ =>
    refine ⟨h.1, h.2.1.trans hle, h.2.2.1, h.2.2.2.imp fun i hi => ?_⟩
    rw [List.getElem?_append_left (List.getElem?_eq_some_iff.mp hi).1]
    exact hi
  | skip len => trivial
  | skipAdd len => exact ⟨h.1, h.2.trans hle⟩
  | reset => exact Nat.le_trans h hle
  | resetOut in_ => exact ⟨h.1, h.2.trans hle⟩

/-- The fifo holds the queue, and the threads know what they know. -/
structure ThreadsInv (memory : ℕ → UInt8) (s : Threads) (c : Calls (2 ^ k)) : Prop where
  refines : Refines s.fifo c.queue
  writer : WriterAt k s.fifo.in_ s.fifo.buffer c.queue.room c.taking s.writer
  reader : ReaderAt k s.fifo.out c.queue.items c.giving s.reader
  /-- The memory behind the buffer is the one from the start. -/
  outside : ∀ j ≥ 2 ^ k, s.fifo.buffer j = memory j

variable {memory : ℕ → UInt8} {fifo : Fifo} {writer : Writer} {reader : Reader} {s : Threads}
  {c : Calls (2 ^ k)} {len off : BitVec 32} {todo : List ℕ} {next : ℕ}

/-! ### The steps of the writer -/

section

variable {from_ : ℕ → UInt8}

/-- A byte is stored behind the queue. -/
theorem ThreadsInv.store (h : ThreadsInv memory ⟨fifo, .copy from_ len off todo, reader⟩ c)
    (hnext : next ∈ todo) :
    ThreadsInv memory
      ⟨{ fifo with
          buffer := Function.update fifo.buffer (copyOff fifo off len next) (from_ next) },
        .copy from_ len off (todo.filter (· ≠ next)), reader⟩ c := by
  obtain ⟨hlen, hroom, hoff, hcopying⟩ := h.writer
  have hsize : fifo.size.toNat = 2 ^ k := h.refines.size
  have hcap : c.queue.items.length + len.toNat ≤ 2 ^ k := by
    have := c.queue.length_le
    rw [Queue.room] at hroom
    omega
  have hi : next < len.toNat := hcopying.lt next hnext
  rw [copyOff_eq hsize hoff (by omega) hi]
  refine ⟨⟨hsize, h.refines.len, ?_⟩, ⟨hlen, hroom, hoff, ?_⟩, h.reader, fun j hj => ?_⟩
  · have hin : fifo.in_.toNat % 2 ^ k = _ := h.refines.in_mod
    have hcell : (fifo.in_.toNat + next) % 2 ^ k
        = (fifo.out.toNat + (c.queue.items.length + next)) % 2 ^ k := by
      rw [← Nat.add_assoc, Nat.add_mod, hin, ← Nat.add_mod]
    dsimp only
    rw [hcell]
    exact queued_store h.refines.queued (by omega) _
  · refine hcopying.next (Function.update_self ..) fun j hj hne heq => ?_
    dsimp only
    rw [Function.update_of_ne (add_mod_ne (by omega) (by omega) hne), heq]
  · have := Nat.mod_lt (fifo.in_.toNat + next) (Nat.two_pow_pos k)
    exact (Function.update_of_ne (by omega) ..).trans (h.outside j hj)

/-- All bytes are stored, and `fifo->in` is written. -/
theorem ThreadsInv.publish (h : ThreadsInv memory ⟨fifo, .copy from_ len off [], reader⟩ c) :
    ∃ c', c.next (.in_ (read from_ 0 len.toNat)) = some c' ∧
      ThreadsInv memory ⟨fifoAddIn fifo len, .idle, reader⟩ c' := by
  obtain ⟨hlen, hroom, -, hcopying⟩ := h.writer
  have hlength : (read from_ 0 len.toNat).length = c.taking := (length_read ..).trans hlen
  have hcap : c.taking ≤ 2 ^ k := hroom.trans (Nat.sub_le _ _)
  refine ⟨_, if_pos ⟨hlength, hroom⟩, ?_, trivial, ?_, h.outside⟩
  · have hput := refines_put h.refines (length_read from_ 0 len.toNat).symm (hlength ▸ hroom)
    rwa [put_eq_self (Nat.two_pow_pos k) (hlength ▸ hcap) fun i hi => ?_] at hput
    rw [getElem_read, Nat.zero_add]
    exact hcopying.copied i (by rwa [length_read] at hi) (by simp)
  · dsimp only
    rw [items_push]
    exact h.reader.append _

end

theorem writerStep_inv (h : ThreadsInv memory s c) (next : ℕ) :
    ∃ c', (writerStep s next).2.foldlM Calls.next c = some c' ∧
      ThreadsInv memory (writerStep s next).1 c' := by
  obtain ⟨fifo, writer, reader⟩ := s
  cases writer with
  | idle => exact ⟨c, rfl, h⟩
  | avail from_ len =>
    -- the room cannot get less from now on
    have hlen : (minUnsigned (fifoAvail fifo) len).toNat = min len.toNat c.queue.room := by
      rw [toNat_minUnsigned, h.refines.toNat_fifoAvail, Nat.min_comm]
    exact ⟨_, rfl, h.refines, ⟨hlen, Nat.min_le_right _ _,
      toNat_fifoOff_add_zero h.refines.size _, copying_start _ _⟩, h.reader, h.outside⟩
  | copy from_ len off todo =>
    cases todo with
    | nil =>
      obtain ⟨c', hc', hnext⟩ := h.publish
      exact ⟨c', by simp [writerStep, hc'], hnext⟩
    | cons first rest =>
      simp only [writerStep]
      split_ifs with hmem
      · exact ⟨c, rfl, h.store hmem⟩
      · exact ⟨c, rfl, h⟩

/-! ### The steps of the reader -/

/-- A call of the reader gives up bytes and returns. -/
theorem ThreadsInv.take (h : ThreadsInv memory ⟨fifo, writer, reader⟩ c) (len : BitVec 32)
    (hlen : len.toNat ≤ c.queue.items.length) :
    ThreadsInv memory ⟨fifoAddOut fifo len, writer, .idle⟩
      { c with queue := c.queue.pop len.toNat } := by
  refine ⟨refines_fifoAddOut h.refines len hlen, h.writer.mono ?_, trivial, h.outside⟩
  simp only [Queue.room, items_pop, List.length_drop]
  omega

section

variable {to_ : ℕ → UInt8}

/-- A byte of the queue is loaded. -/
theorem ThreadsInv.load (h : ThreadsInv memory ⟨fifo, writer, .copy len off todo to_⟩ c)
    (hnext : next ∈ todo) :
    ThreadsInv memory ⟨fifo, writer, .copy len off (todo.filter (· ≠ next))
      (Function.update to_ next (fifo.buffer (copyOff fifo off len next)))⟩ c := by
  obtain ⟨hlen, hle, hoff, hcopying⟩ := h.reader
  have hcap := c.queue.length_le
  have hi : next < len.toNat := hcopying.lt next hnext
  refine ⟨h.refines, h.writer, ⟨hlen, hle, hoff, hcopying.next ?_ fun j _ hne heq => ?_⟩,
    h.outside⟩
  · have hbyte : fifo.buffer ((fifo.out.toNat + next) % 2 ^ k) = _ :=
      h.refines.queued next (by omega)
    rw [Function.update_self, copyOff_eq h.refines.size hoff (by omega) hi, hbyte]
    exact List.getElem?_eq_getElem _
  · rwa [Function.update_of_ne hne]

/-- All bytes are loaded, and `fifo->out` is written. -/
theorem ThreadsInv.give (h : ThreadsInv memory ⟨fifo, writer, .copy len off [] to_⟩ c) :
    ∃ c', c.next (.out (read to_ 0 len.toNat)) = some c' ∧
      ThreadsInv memory ⟨fifoAddOut fifo len, writer, .idle⟩ c' := by
  obtain ⟨hlen, hle, -, hcopying⟩ := h.reader
  refine ⟨_, if_pos ?_, hlen ▸ h.take len (hlen ▸ hle)⟩
  apply List.ext_getElem
  · rw [length_read, List.length_take, hlen, Nat.min_eq_left hle]
  · intro i hi _
    rw [length_read] at hi
    have hbyte := hcopying.copied i hi (by simp)
    rw [getElem_read, Nat.zero_add, List.getElem_take]
    exact ((List.getElem?_eq_some_iff.mp hbyte).2).symm

end

theorem readerStep_inv (h : ThreadsInv memory s c) (next : ℕ) :
    ∃ c', (readerStep s next).2.foldlM Calls.next c = some c' ∧
      ThreadsInv memory (readerStep s next).1 c' := by
  obtain ⟨fifo, writer, reader⟩ := s
  have hitems : (fifoLen fifo).toNat = c.queue.items.length := h.refines.len
  cases reader with
  | idle => exact ⟨c, rfl, h⟩
  | len len =>
    have hlen : (minUnsigned (fifoLen fifo) len).toNat = min len.toNat c.queue.items.length := by
      rw [toNat_minUnsigned, hitems, Nat.min_comm]
    exact ⟨_, rfl, h.refines, h.writer, ⟨hlen, Nat.min_le_right _ _,
      toNat_fifoOff_add_zero h.refines.size _, copying_start _ _⟩, h.outside⟩
  | copy len off todo to_ =>
    cases todo with
    | nil =>
      obtain ⟨c', hc', hnext⟩ := h.give
      exact ⟨c', by simp [readerStep, hc'], hnext⟩
    | cons first rest =>
      simp only [readerStep]
      split_ifs with hmem
      · exact ⟨c, rfl, h.load hmem⟩
      · exact ⟨c, rfl, h⟩
  | skip len =>
    refine ⟨_, rfl, h.refines, h.writer, ?_, h.outside⟩
    simp only [readerStep]
    split_ifs with hlt
    · have := BitVec.lt_def.mp hlt
      exact ⟨by omega, Nat.min_le_right _ _⟩
    · exact Nat.min_le_right _ _
  | skipAdd len =>
    obtain ⟨hlen, hle⟩ := h.reader
    have hskip : c.next (.skip len.toNat) = some _ := if_pos ⟨hlen.ge, hlen ▸ hle⟩
    exact ⟨_, by rw [readerStep, List.foldlM_cons, hskip]; rfl, h.take len (hlen ▸ hle)⟩
  | reset => exact ⟨c, rfl, h.refines, h.writer, ⟨hitems ▸ h.reader, hitems.le⟩, h.outside⟩
  | resetOut in_ =>
    have hskip : c.next (.skip (in_ - fifo.out).toNat) = some _ := if_pos h.reader
    have hout : fifoAddOut fifo (in_ - fifo.out) = { fifo with out := in_ } := by
      rw [fifoAddOut, BitVec.add_comm, BitVec.sub_add_cancel]
    exact ⟨_, by rw [readerStep, List.foldlM_cons, hskip]; rfl, hout ▸ h.take _ h.reader.2⟩

/-- **A step of either thread.** -/
theorem threadStep_inv (h : ThreadsInv memory s c) (action : Action) :
    ∃ c', (threadStep s action).2.foldlM Calls.next c = some c' ∧
      ThreadsInv memory (threadStep s action).1 c' := by
  cases action with
  | fifoIn from_ len =>
    simp only [threadStep]
    split
    · exact ⟨c, rfl, h.refines, trivial, h.reader, h.outside⟩
    · exact ⟨c, rfl, h⟩
  | writer next => exact writerStep_inv h next
  | fifoOut len =>
    simp only [threadStep]
    split
    · exact ⟨c, rfl, h.refines, h.writer, trivial, h.outside⟩
    · exact ⟨c, rfl, h⟩
  | fifoSkip len =>
    simp only [threadStep]
    split
    · exact ⟨c, rfl, h.refines, h.writer, trivial, h.outside⟩
    · exact ⟨c, rfl, h⟩
  | reader next => exact readerStep_inv h next

/-- **One writer and one reader.**  For every fifo whose size is a power of two, empty with its
counters anywhere, and every interleaving of the steps of a thread that calls `fifo_in` and one that
calls `fifo_out` and `fifo_skip`: the calls are those of a byte queue.  `fifo_in` takes as many
bytes as there is room for when it looks and appends them all when it returns, `fifo_out` gives the
oldest bytes, as many as there are when it looks, and no byte is lost, repeated, or read before it
is there.  At every point the fifo holds the queue, and no memory outside of the buffer is
written. -/
theorem fifo_threads (k : ℕ) (fifo : Fifo) (hsize : fifo.size.toNat = 2 ^ k)
    (hempty : fifo.in_ = fifo.out) (actions : List Action) :
    let r := run threadStep ⟨fifo, .idle, .idle⟩ actions
    ∃ c : Calls (2 ^ k), r.2.foldlM Calls.next ⟨.empty, 0, 0⟩ = some c ∧
      Refines r.1.fifo c.queue ∧ ∀ j ≥ 2 ^ k, r.1.fifo.buffer j = fifo.buffer j := by
  have hstart : ThreadsInv fifo.buffer ⟨fifo, .idle, .idle⟩ (⟨.empty, 0, 0⟩ : Calls (2 ^ k)) :=
    ⟨refines_empty hsize hempty, trivial, trivial, fun _ _ => rfl⟩
  obtain ⟨c, hc, h⟩ := run_inv threadStep (P := fun s history => ∃ c : Calls (2 ^ k),
      history.foldlM Calls.next ⟨.empty, 0, 0⟩ = some c ∧ ThreadsInv fifo.buffer s c)
    ⟨_, rfl, hstart⟩
    (fun s history action ⟨c, hc, h⟩ => by
      obtain ⟨c', hc', h'⟩ := threadStep_inv h action
      exact ⟨c', by simp [List.foldlM_append, hc, hc'], h'⟩) actions
  exact ⟨c, hc, h.refines, h.outside⟩

/-- The counters wrap while three bytes are stored, the last one first, and two of them are read
between the stores of the next call. -/
theorem fifo_threads_wrapping :
    let fifo : Fifo := ⟨fun _ => 0, 4, 0xfffffffe, 0xfffffffe⟩
    let actions : List Action :=
      .fifoIn (fun i => .ofNat (10 + i)) 3 :: [0, 2, 0, 1, 0].map .writer ++
        [.fifoOut 2, .fifoIn (fun _ => 99) 2] ++
        [0, 1, 0, 0].flatMap fun next => [.writer next, .reader next]
    (run threadStep ⟨fifo, .idle, .idle⟩ actions).2
        = [.avail 3, .in_ [10, 11, 12], .avail 2, .len 2, .in_ [99], .out [10, 11]] ∧
      ∃ c : Calls (2 ^ 2),
        (run threadStep ⟨fifo, .idle, .idle⟩ actions).2.foldlM Calls.next ⟨.empty, 0, 0⟩ = some c ∧
          Refines (run threadStep ⟨fifo, .idle, .idle⟩ actions).1.fifo c.queue := by
  intro fifo actions
  obtain ⟨c, hc, hrefines, -⟩ := fifo_threads 2 fifo rfl rfl actions
  exact ⟨by decide +kernel, c, hc, hrefines⟩

end Neufbox.Libetk
