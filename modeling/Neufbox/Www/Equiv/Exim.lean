import Neufbox.Www.Exim

/-!
# Import and report

The import copies the upload without looking at any result.  The copy is the whole upload exactly if
nothing went wrong (`Complete`), and the daemon is asked to import it in any case
(`neverPartial_iff`).

The report is two chains of encrypted blocks, the outer one begun with the MAC text
(`report_eq`): it can be undone.  The last block was to be the digest of the body, and is the last
block of the body itself (`report_iff`).
-/

namespace Neufbox.Www

open Cbc Memory

/-! ### The import -/

theorem unlink_self (files : Files) (filename : String) : unlink files filename filename = none :=
  Function.update_self ..

theorem unlink_of_ne {filename name : String} (h : name ≠ filename) (files : Files) :
    unlink files filename name = files name :=
  Function.update_of_ne h ..

/-- The rounds read all of the upload, and write what they read. -/
def Copies : List Round → List UInt8 → Prop
  | [], config => config = []
  | round :: rounds, config =>
    let buf := config.take (min round.read 256)
    config = [] ∨ buf ≠ [] ∧ buf.length ≤ round.written ∧ Copies rounds (config.drop buf.length)

/-- What the rounds get into the file. -/
def stored : List Round → List UInt8 → List UInt8
  | [], _ => []
  | round :: rounds, config =>
    let buf := config.take (min round.read 256)
    if buf = [] then []
    else buf.take round.written ++ stored rounds (config.drop buf.length)

theorem copyLoop_eq (rounds : List Round) (config temp : List UInt8) :
    copyLoop rounds config temp = temp ++ stored rounds config := by
  induction rounds generalizing config temp with
  | nil => exact (List.append_nil temp).symm
  | cons round rounds ih =>
    rw [copyLoop, stored]
    split_ifs
    · exact (List.append_nil temp).symm
    · rw [ih, List.append_assoc]

theorem length_stored_le (rounds : List Round) (config : List UInt8) :
    (stored rounds config).length ≤ config.length := by
  induction rounds generalizing config with
  | nil => exact Nat.zero_le _
  | cons round rounds ih =>
    rw [stored]
    split_ifs
    · exact Nat.zero_le _
    · have hrest := ih (config.drop (config.take (min round.read 256)).length)
      rw [List.length_drop] at hrest
      have hbuf : (config.take (min round.read 256)).length ≤ config.length :=
        List.length_take_le' _ _
      rw [List.length_append, List.length_take]
      omega

/-- **The copy is whole** exactly if every round did its part: none can make up for another. -/
theorem stored_eq_iff (rounds : List Round) (config : List UInt8) :
    stored rounds config = config ↔ Copies rounds config := by
  induction rounds generalizing config with
  | nil => exact eq_comm
  | cons round rounds ih =>
    rw [stored, Copies]
    have hwhole : config.take (min round.read 256)
        ++ config.drop (config.take (min round.read 256)).length = config :=
      List.prefix_iff_eq_append.mp ⟨_, List.take_append_drop _ _⟩
    have hle := length_stored_le rounds
      (config.drop (config.take (min round.read 256)).length)
    generalize config.take (min round.read 256) = buf at hwhole hle ⊢
    generalize config.drop buf.length = rest at hwhole hle ⊢
    subst hwhole
    by_cases hnil : buf = []
    · rw [if_pos hnil]
      exact ⟨fun h => .inl h.symm, fun h => h.elim Eq.symm fun h => absurd hnil h.1⟩
    rw [if_neg hnil]
    constructor
    · intro heq
      have hlength := congrArg List.length heq
      rw [List.length_append, List.length_append, List.length_take] at hlength
      have hwritten : buf.length ≤ round.written := by omega
      rw [List.take_of_length_le hwritten] at heq
      exact .inr ⟨hnil, hwritten, (ih rest).mp (List.append_cancel_left heq)⟩
    · rintro (hempty | ⟨-, hwritten, hrest⟩)
      · exact absurd (List.append_eq_nil_iff.mp hempty).1 hnil
      · rw [List.take_of_length_le hwritten, (ih rest).mpr hrest]

/-- Nothing goes wrong with the copy. -/
def Complete (run : Copying) (upload : List UInt8) : Prop :=
  Copies run.rounds upload ∧ upload.length ≤ run.kept

/-- The daemon is only asked to import the whole upload, without that an error is returned, and a
temporary file that was opened is removed.  The other files are left as they are. -/
def NeverPartial (run : Copying) (files : Files) (config : Option (List UInt8)) : Prop :=
  let result := nblEximConfigUserImport run files config
  (∀ copy, result.asked = some copy → config = some copy) ∧
    (result.asked = none → result.ret = false) ∧
    (config.isSome ∧ run.opens → result.files run.filename = none) ∧
    ∀ name, name ≠ run.filename → result.files name = files name

theorem take_stored_eq_iff (run : Copying) (upload : List UInt8) :
    (stored run.rounds upload).take run.kept = upload ↔ Complete run upload := by
  have hle := length_stored_le run.rounds upload
  rw [Complete, ← stored_eq_iff]
  constructor
  · intro heq
    have hlength := congrArg List.length heq
    rw [List.length_take] at hlength
    rw [List.take_of_length_le (by omega)] at heq
    exact ⟨heq, by omega⟩
  · rintro ⟨heq, hkept⟩
    rw [heq, List.take_of_length_le hkept]

/-- Without an upload or a temporary file there is nothing to import, and nothing to remove. -/
theorem neverPartial_of_not_opened {run : Copying} {files : Files}
    {config : Option (List UInt8)} (hopened : ¬(config.isSome ∧ run.opens))
    (himport : nblEximConfigUserImport run files config = ⟨false, none, files⟩) :
    NeverPartial run files config := by
  unfold NeverPartial
  rw [himport]
  exact ⟨(fun copy h => nomatch h), fun _ => rfl, fun h => absurd h hopened, fun _ _ => rfl⟩

/-- What the import of an opened file leaves: the daemon was asked for the copy, and there is no
temporary file. -/
theorem nblEximConfigUserImport_of_opens {run : Copying} (hopens : run.opens = true)
    (files : Files) (upload : List UInt8) :
    nblEximConfigUserImport run files (some upload)
      = ⟨run.accepted, some ((stored run.rounds upload).take run.kept),
          unlink files run.filename⟩ := by
  rw [nblEximConfigUserImport, if_pos hopens, copyLoop_eq, List.nil_append]
  dsimp only
  rw [Function.update_self, unlink, Function.update_idem]
  rfl

/-- **The import.**  For every upload, all files there are and everything that can happen to the
temporary one: the import is never partial if and only if nothing goes wrong with the copy, or there
is none: no upload, or no temporary file. -/
theorem neverPartial_iff (run : Copying) (files : Files) (config : Option (List UInt8)) :
    NeverPartial run files config ↔
      ∀ upload, config = some upload → run.opens = true → Complete run upload := by
  cases config with
  | none =>
    exact iff_of_true (neverPartial_of_not_opened (fun h => nomatch h.1) rfl)
      fun upload h => nomatch h
  | some upload =>
    by_cases hopens : run.opens = true
    · unfold NeverPartial
      rw [nblEximConfigUserImport_of_opens hopens]
      dsimp only
      constructor
      · rintro ⟨hasked, -⟩ upload' hupload -
        obtain rfl := Option.some.inj hupload
        have hcopy := Option.some.inj (hasked _ rfl)
        exact (take_stored_eq_iff run upload).mp hcopy.symm
      · intro hcomplete
        have hcopy := (take_stored_eq_iff run upload).mpr (hcomplete upload rfl hopens)
        refine ⟨fun copy hasked => ?_, (fun h => nomatch h), fun _ => unlink_self files _,
          fun name hname => unlink_of_ne hname files⟩
        rw [← Option.some.inj hasked, hcopy]
    · exact iff_of_true (neverPartial_of_not_opened (fun h => hopens h.2) (if_neg hopens))
        fun _ _ h => absurd h hopens

/-- The disk is full behind the first byte, and one byte is imported. -/
theorem import_of_full_disk :
    let run : Copying := ⟨0, true, [⟨256, 1⟩], 256, true⟩
    let result := nblEximConfigUserImport run (fun _ => none) (some [1, 2, 3])
    result.ret = true ∧ result.asked = some [1] ∧
      ¬ NeverPartial run (fun _ => none) (some [1, 2, 3]) := by
  intro run result
  have hresult :=
    nblEximConfigUserImport_of_opens (rfl : run.opens = true) (fun _ => none) [1, 2, 3]
  have hasked : result.asked = some [1] := congrArg Imported.asked hresult
  refine ⟨congrArg Imported.ret hresult, hasked, fun h => ?_⟩
  exact absurd (h.1 [1] hasked) (by decide)

/-! ### The blocks of the report -/

theorem Block.xor_xor (x v : Block) : x ^^^ v ^^^ v = x := by
  apply Block.ext
  show List.zipWith (· ^^^ ·) (List.zipWith (· ^^^ ·) x.bytes v.bytes) v.bytes = x.bytes
  apply List.ext_getElem
  · simp [x.length_bytes, v.length_bytes]
  · intro i h1 h2
    simp only [List.getElem_zipWith]
    rw [UInt8.xor_assoc, UInt8.xor_self, UInt8.xor_zero]

theorem Chunk.length_append_replicate (chunk : Chunk) :
    (chunk.bytes ++ List.replicate (16 - chunk.bytes.length) 0).length = 16 := by
  have := chunk.le
  rw [List.length_append, List.length_replicate]
  omega

/-- A chunk, filled up with zeros. -/
def Chunk.padded (chunk : Chunk) : Block :=
  ⟨chunk.bytes ++ List.replicate (16 - chunk.bytes.length) 0, chunk.length_append_replicate⟩

/-- What `msg` held before does not come through. -/
theorem padded_store (msg : Block) (chunk : Chunk) :
    (msg.store chunk).padded chunk.bytes.length = chunk.padded := by
  apply Block.ext
  show (chunk.bytes ++ msg.bytes.drop chunk.bytes.length).take chunk.bytes.length ++ _ = _
  rw [List.take_left]
  rfl

/-- The blocks of a file that is read in full blocks except for the last one. -/
theorem flatMap_padded {reads : List Chunk}
    (h : ∀ chunk ∈ reads.dropLast, chunk.bytes.length = 16) :
    let file := reads.flatMap Chunk.bytes
    reads.length = (file.length + 15) / 16 ∧
      (reads.map Chunk.padded).flatMap Block.bytes
        = file ++ List.replicate ((16 - file.length % 16) % 16) 0 := by
  induction reads with
  | nil => exact ⟨rfl, rfl⟩
  | cons chunk reads ih =>
    cases reads with
    | nil =>
      -- the last chunk is the one that is filled up
      have hpos := chunk.pos
      have hle := chunk.le
      have hpad : (16 - chunk.bytes.length % 16) % 16 = 16 - chunk.bytes.length := by omega
      simp only [List.map_cons, List.map_nil, List.flatMap_singleton, List.length_singleton]
      refine ⟨by omega, ?_⟩
      rw [hpad]
      rfl
    | cons next reads =>
      obtain ⟨hlength, hpadded⟩ := ih fun c hc => h c (List.mem_cons_of_mem chunk hc)
      have hfull : chunk.bytes.length = 16 := h chunk List.mem_cons_self
      have hself : chunk.padded.bytes = chunk.bytes := by
        show chunk.bytes ++ List.replicate (16 - chunk.bytes.length) 0 = chunk.bytes
        rw [hfull]
        exact List.append_nil _
      generalize next :: reads = rest at hlength hpadded ⊢
      have hpad : (16 - (16 + (rest.flatMap Chunk.bytes).length) % 16) % 16
          = (16 - (rest.flatMap Chunk.bytes).length % 16) % 16 := by omega
      rw [List.map_cons, List.flatMap_cons, List.flatMap_cons]
      dsimp only
      rw [List.length_append, hfull, hpad, hpadded, hself, List.append_assoc, List.length_cons]
      exact ⟨by omega, rfl⟩

/-! ### The chains of the report -/

section

variable (aes : Cipher Block Block) (md5 : List UInt8 → Block)

/-- What is written for some blocks: they go through the inner chain and then through the outer
one. -/
def chained (key2 iv1 iv2 : Block) (bs : List Block) : List Block :=
  cbc aes key1 iv1 (cbc aes key2 iv2 bs)

theorem chained_cons (key2 iv1 iv2 b : Block) (bs : List Block) :
    chained aes key2 iv1 iv2 (b :: bs)
      = crypt aes key1 iv1 (crypt aes key2 iv2 b) ::
        chained aes key2 (crypt aes key1 iv1 (crypt aes key2 iv2 b)) (crypt aes key2 iv2 b) bs :=
  rfl

theorem encrypt_written (key2 : Block) (s : Export) :
    (Export.encrypt aes key2 s).written = s.written ++ chained aes key2 s.iv1 s.iv2 [s.buf] :=
  rfl

theorem round_eq (key2 : Block) (s : Export) (chunk : Chunk) :
    let msg := crypt aes key2 s.iv2 chunk.padded
    let buf := crypt aes key1 s.iv1 msg
    Export.round aes key2 s chunk
      = { iv1 := buf, iv2 := msg, buf := buf, msg := msg, hashed := s.hashed ++ buf.bytes,
          written := s.written ++ [buf] } := by
  intro msg buf
  rw [Export.round, padded_store]
  rfl

/-- **The loop**: what is written is hashed, `buf` is the last block of it, and the vectors are such
that one more block is chained to the others. -/
theorem foldl_round (key2 : Block) (reads : List Chunk) (s : Export) :
    let t := reads.foldl (Export.round aes key2) s
    let body := chained aes key2 s.iv1 s.iv2 (reads.map Chunk.padded)
    t.written = s.written ++ body ∧ t.hashed = s.hashed ++ body.flatMap Block.bytes ∧
      t.buf = body.getLast?.getD s.buf ∧
      ∀ b, t.written ++ chained aes key2 t.iv1 t.iv2 [b]
        = s.written ++ chained aes key2 s.iv1 s.iv2 (reads.map Chunk.padded ++ [b]) := by
  induction reads generalizing s with
  | nil => exact ⟨(List.append_nil _).symm, (List.append_nil _).symm, rfl, fun b => rfl⟩
  | cons chunk reads ih =>
    obtain ⟨hwritten, hhashed, hbuf, hlast⟩ := ih (Export.round aes key2 s chunk)
    rw [List.foldl_cons, List.map_cons, chained_cons]
    rw [round_eq] at hwritten hhashed hbuf hlast ⊢
    refine ⟨?_, ?_, ?_, fun b => ?_⟩
    · rw [hwritten, List.append_assoc, List.singleton_append]
    · rw [hhashed, List.append_assoc, List.flatMap_cons]
    · rw [hbuf, List.getLast?_cons, Option.getD_some]
    · rw [hlast, List.append_assoc, List.singleton_append, List.cons_append, chained_cons]

/-- **The report**: the MAC text, the blocks of the dump in the inner chain, and once more the block
that was written last. -/
theorem report_eq (stack : Block) (mac : Option (ℕ → UInt8)) (reads : List Chunk) :
    let text := macText mac stack
    let first := crypt aes key1 iv1 text
    let body := chained aes (key2 md5 text) first (iv2 md5 text) (reads.map Chunk.padded)
    nblEximDiagnosticReportExport aes md5 stack mac reads
      = (cbc aes key1 iv1 (text :: cbc aes (key2 md5 text) (iv2 md5 text)
            (reads.map Chunk.padded ++ [body.getLast?.getD text])),
          md5 (body.flatMap Block.bytes)) := by
  intro text first body
  obtain ⟨-, hhashed, hbuf, hlast⟩ := foldl_round aes (key2 md5 text) reads
    { iv1 := first, iv2 := iv2 md5 text, buf := text, msg := first, hashed := [],
      written := [first] }
  rw [nblEximDiagnosticReportExport, encrypt_written, hlast, hbuf, hhashed]
  rfl

/-- The blocks between the first and the last one. -/
theorem report_body (key2 iv2 text last : Block) (bs : List Block) :
    (cbc aes key1 iv1 (text :: cbc aes key2 iv2 (bs ++ [last]))).tail.dropLast
      = chained aes key2 (crypt aes key1 iv1 text) iv2 bs := by
  rw [cbc, List.tail_cons, cbc_concat, cbc_concat, List.dropLast_concat]
  rfl

/-- **The report can be undone**, and its last block is the digest of the body exactly if the body,
which is the dump in the two chains, ends with its own digest. -/
theorem report_iff (stack : Block) (mac : Option (ℕ → UInt8)) (reads : List Chunk)
    (hreads : ∀ chunk ∈ reads.dropLast, chunk.bytes.length = 16) :
    let file := reads.flatMap Chunk.bytes
    let text := macText mac stack
    let body := chained aes (key2 md5 text) (crypt aes key1 iv1 text) (iv2 md5 text)
      (reads.map Chunk.padded)
    let report := (nblEximDiagnosticReportExport aes md5 stack mac reads).1
    let outer := uncbc aes key1 iv1 report
    let inner := uncbc aes (key2 md5 text) (iv2 md5 text) outer.tail
    report.length = 1 + (file.length + 15) / 16 + 1 ∧
      outer.head? = some text ∧ report.tail.dropLast = body ∧
      inner.dropLast.flatMap Block.bytes
        = file ++ List.replicate ((16 - file.length % 16) % 16) 0 ∧
      (inner.getLast? = some (md5 (report.tail.dropLast.flatMap Block.bytes)) ↔
        md5 (body.flatMap Block.bytes) = body.getLast?.getD text) := by
  intro file text body report outer inner
  obtain ⟨hlength, hpadded⟩ := flatMap_padded hreads
  let plain := reads.map Chunk.padded
  let last := body.getLast?.getD text
  have hreport : report = cbc aes key1 iv1
      (text :: cbc aes (key2 md5 text) (iv2 md5 text) (plain ++ [last])) :=
    congrArg Prod.fst (report_eq aes md5 stack mac reads)
  have hbody : report.tail.dropLast = body := by rw [hreport, report_body]
  have houter : outer = text :: cbc aes (key2 md5 text) (iv2 md5 text) (plain ++ [last]) := by
    show uncbc aes key1 iv1 report = _
    rw [hreport, uncbc_cbc aes key1 Block.xor_xor]
  have hinner : inner = plain ++ [last] := by
    show uncbc aes (key2 md5 text) (iv2 md5 text) outer.tail = _
    rw [houter, List.tail_cons, uncbc_cbc aes _ Block.xor_xor]
  refine ⟨?_, ?_, hbody, ?_, ?_⟩
  · rw [hreport, length_cbc, List.length_cons, length_cbc, List.length_append, List.length_map,
      List.length_singleton, hlength]
    show (file.length + 15) / 16 + 1 + 1 = _
    rw [Nat.add_comm 1]
  · rw [houter]
    rfl
  · rw [hinner, List.dropLast_concat]
    exact hpadded
  · rw [hinner, hbody, List.getLast?_concat, Option.some_inj]
    exact eq_comm

end

/-- A cipher and a digest with which the one byte of the dump is its own digest. -/
theorem report_of_zero :
    let aes : Cipher Block Block := ⟨fun _ b => b, fun _ b => b, fun _ _ => rfl⟩
    let md5 : List UInt8 → Block := fun _ => ⟨List.replicate 16 0, rfl⟩
    let report := (nblEximDiagnosticReportExport aes md5 iv1 none
      [⟨[0], Nat.one_pos, by decide⟩]).1
    report.length = 3 ∧
      (uncbc aes (key2 md5 iv1) (iv2 md5 iv1) (uncbc aes key1 iv1 report).tail).getLast?
        = some (md5 (report.tail.dropLast.flatMap Block.bytes)) := by
  intro aes md5 report
  obtain ⟨hlength, -, -, -, hlast⟩ := report_iff aes md5 iv1 none [⟨[0], Nat.one_pos, by decide⟩]
    (List.forall_mem_nil _)
  exact ⟨hlength, hlast.mpr (by decide)⟩

/-- The same cipher and digest, and another byte: the last block is not the digest, which is zero
throughout. -/
theorem report_of_one :
    let aes : Cipher Block Block := ⟨fun _ b => b, fun _ b => b, fun _ _ => rfl⟩
    let md5 : List UInt8 → Block := fun _ => ⟨List.replicate 16 0, rfl⟩
    let report := (nblEximDiagnosticReportExport aes md5 iv1 none
      [⟨[1], Nat.one_pos, by decide⟩]).1
    ((uncbc aes (key2 md5 iv1) (iv2 md5 iv1) (uncbc aes key1 iv1 report).tail).getLast?.map
        Block.bytes) = some (1 :: List.replicate 15 0) ∧
      (md5 (report.tail.dropLast.flatMap Block.bytes)).bytes = List.replicate 16 0 := by
  decide

end Neufbox.Www
