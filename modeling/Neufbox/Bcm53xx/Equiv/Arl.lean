import Neufbox.Bcm53xx.Switch
import Neufbox.Lib.Run
import Neufbox.Lib.Slots

/-!
# Multicast groups in a bucket

A multicast call reads the bucket of its address, changes the entry it finds (or a new one) and
writes it back.  `Outcome` says what the call can do to the bucket; the rest is read off it.

* `mcastCall_outcome`: a call changes the bucket of its address only, as `Outcome` says;
* `bucket_lawful_of_fits`: in a run whose calls all fit the bucket (`Fits`), each address has at
  most one slot, a call that succeeds changes no slot of another address and leaves its address
  with the CPU port and the ports that were added and not deleted since, and an add fails only if
  every slot is taken by another address.

An add whose address has no slot writes the entry into every free slot, not into one
(`add_takes_every_slot`).
-/

namespace Neufbox.Bcm53xx

open Function (update)
open Slots Machine

variable {chip : Chip} {ι : Type} [DecidableEq ι] (hash : EtherAddr → ι)

/-! ### The loops -/

/-- What `bcm53xx_l2_write` stores. -/
def l2Stored : {chip : Chip} → Arl chip → EtherAddr → Arl chip
  | .bcm5325, entry, e => { entry with macAddress := e }
  | .bcm5395, entry, e => { entry with vid := 0, macAddress := e }

@[simp] theorem l2Stored_macAddress (entry : Arl chip) (e : EtherAddr) :
    (l2Stored entry e).macAddress = e := by
  cases chip <;> rfl

@[simp] theorem l2Stored_valid (entry : Arl chip) (e : EtherAddr) :
    (l2Stored entry e).valid = entry.valid := by
  cases chip <;> rfl

@[simp] theorem l2Stored_portid (entry : Arl chip) (e : EtherAddr) :
    (l2Stored entry e).portid = entry.portid := by
  cases chip <;> rfl

variable (s : Switch chip ι)

omit [DecidableEq ι] in
theorem l2Write_eq (n : ℕ) (entry : Arl chip) (e : EtherAddr) :
    l2Write s n entry e
      = { s with regs := update s.regs (roboArlEntry0 + n) (l2Stored entry e) } := by
  cases chip <;> rfl

/-- The registers that the loops access. -/
def loopRegs (chip : Chip) : List ℕ := (loopOffsets chip).map (roboArlEntry0 + ·)

/-- The switch with these registers, and what they have of the loaded bucket in the table. -/
def withRegs (regs : ℕ → Arl chip) : Switch chip ι :=
  { s with table := update s.table (hash s.index) fun n => regs (slotReg chip n), regs := regs }

omit [DecidableEq ι] in
/-- A lookup loads every slot. -/
theorem regs_slotReg (e : EtherAddr) (n : Fin chip.arlEntryCount) :
    (l2LookupStart hash s e).regs (slotReg chip n) = s.table (hash e) n := by
  have hfind : (List.finRange _).find? (fun m => slotReg chip m = slotReg chip n) = some n := by
    cases chip <;> revert n <;> decide
  simp only [l2LookupStart, hfind]

omit [DecidableEq ι] in
/-- A second lookup of the address loads the same. -/
theorem lookupStart_lookupStart (e : EtherAddr) :
    l2LookupStart hash (l2LookupStart hash s e) e = l2LookupStart hash s e := by
  simp only [l2LookupStart]
  congr 1
  funext reg
  split <;> rfl

theorem withRegs_lookupStart (e : EtherAddr) :
    withRegs hash (l2LookupStart hash s e) (l2LookupStart hash s e).regs
      = l2LookupStart hash s e := by
  simp only [withRegs, regs_slotReg]
  simp [l2LookupStart]

/-- A round on a switch whose registers are `acc.1`. -/
theorem l2SetupRound_withRegs (picks : Arl chip → Bool) (e : EtherAddr) (entry : Arl chip)
    (s : Switch chip ι) (acc : (ℕ → Arl chip) × Bool) (n : ℕ) :
    l2SetupRound hash picks e entry (withRegs hash s acc.1, acc.2) n
      = (withRegs hash s (scanStep picks (l2Stored entry e) acc (roboArlEntry0 + n)).1,
        (scanStep picks (l2Stored entry e) acc (roboArlEntry0 + n)).2) := by
  by_cases hp : picks (acc.1 (roboArlEntry0 + n))
  · simp [l2SetupRound, scanStep, l2Read, withRegs, hp, l2Write_eq, l2Commit]
  · simp [l2SetupRound, scanStep, l2Read, withRegs, hp]

/-- The registers with `v` in each that a loop picks. -/
def written (picks : Arl chip → Bool) (v : Arl chip) (regs : ℕ → Arl chip) : ℕ → Arl chip :=
  fun reg => if reg ∈ loopRegs chip ∧ picks (regs reg) then v else regs reg

theorem l2SetupLoop_eq (picks : Arl chip → Bool) (e : EtherAddr) (entry : Arl chip)
    (s : Switch chip ι) (regs : ℕ → Arl chip) :
    l2SetupLoop hash picks e entry (withRegs hash s regs)
      = (withRegs hash s (written picks (l2Stored entry e) regs),
        decide (∃ reg ∈ loopRegs chip, picks (regs reg))) := by
  let load : (ℕ → Arl chip) × Bool → Switch chip ι × Bool := fun acc =>
    (withRegs hash s acc.1, acc.2)
  have hnodup : (loopRegs chip).Nodup := by cases chip <;> decide
  have hany : ((loopRegs chip).any fun reg => picks (regs reg))
      = decide (∃ reg ∈ loopRegs chip, picks (regs reg)) := Bool.eq_iff_iff.mpr (by simp)
  calc l2SetupLoop hash picks e entry (withRegs hash s regs)
      = (loopOffsets chip).foldl (l2SetupRound hash picks e entry) (load (regs, false)) := rfl
    _ = load ((loopRegs chip).foldl (scanStep picks (l2Stored entry e)) (regs, false)) := by
        rw [loopRegs, List.foldl_map]
        exact List.foldl_hom load (l2SetupRound_withRegs hash picks e entry s)
    _ = _ := by
        rw [foldl_scanStep _ _ hnodup, Bool.false_or, hany]
        rfl

/-! ### The search -/

/-- The entry that the search finds. -/
def found (regs : ℕ → Arl chip) (e : EtherAddr) : Option (Arl chip) :=
  ((loopRegs chip).map regs).find? fun entry => l2Matches entry e

/-- The register that the loops access last. -/
def lastReg (chip : Chip) : ℕ := roboArlEntry0 + sizeofArl * (chip.arlEntryCount - 1)

omit [DecidableEq ι] in
/-- The search stops at the first entry with the address, if there is one, and otherwise leaves the
last one that it read. -/
theorem l2EntryLoop_eq (e : EtherAddr) (l : List ℕ) (entry : Arl chip) :
    l2EntryLoop s e l entry = match (l.map (l2Read s)).find? fun cur => l2Matches cur e with
      | some cur => (0, cur)
      | none => (-1, (l.map (l2Read s)).getLastD entry) := by
  induction l generalizing entry with
  | nil => rfl
  | cons n l ih =>
    rw [l2EntryLoop, List.map_cons, List.find?_cons, List.getLastD_cons, ih]
    cases l2Matches (l2Read s n) e <;> rfl

omit [DecidableEq ι] in
theorem l2Entry_eq (e : EtherAddr) (entry : Arl chip) :
    let loaded := l2LookupStart hash s e
    l2Entry hash s e entry = (loaded, match found loaded.regs e with
      | some cur => (0, cur)
      | none => (-1, loaded.regs (lastReg chip))) := by
  intro loaded
  have hlast : ((loopOffsets chip).map (l2Read loaded)).getLastD entry
      = loaded.regs (lastReg chip) := by
    cases chip <;> rfl
  have hreads : (loopOffsets chip).map (l2Read loaded) = (loopRegs chip).map loaded.regs := by
    rw [loopRegs, List.map_map]
    rfl
  rw [l2Entry, l2EntryLoop_eq, hlast, hreads]
  rfl

theorem found_eq_none {regs : ℕ → Arl chip} {e : EtherAddr} :
    found regs e = none ↔ ∀ reg ∈ loopRegs chip, (regs reg).macAddress ≠ e := by
  simp [found, l2Matches]

theorem exists_of_found {regs : ℕ → Arl chip} {e : EtherAddr} {entry : Arl chip}
    (h : found regs e = some entry) :
    ∃ reg ∈ loopRegs chip, regs reg = entry ∧ entry.macAddress = e := by
  obtain ⟨reg, hreg, rfl⟩ := List.mem_map.mp (List.mem_of_find?_eq_some h)
  have hmac := List.find?_some h
  exact ⟨reg, hreg, rfl, of_decide_eq_true hmac⟩

/-! ### The setup -/

/-- What the setup overwrites: the entries with the address, or the free ones if there is none. -/
def picked (regs : ℕ → Arl chip) (e : EtherAddr) (cur : Arl chip) : Bool :=
  if (found regs e).isSome then l2Matches cur e else !l2Valid cur

theorem picked_of_found {regs : ℕ → Arl chip} {e : EtherAddr} {entry : Arl chip}
    (h : found regs e = some entry) : picked regs e = fun cur => l2Matches cur e := by
  funext cur
  simp [picked, h]

theorem picked_of_none {regs : ℕ → Arl chip} {e : EtherAddr} (h : found regs e = none) :
    picked regs e = fun cur => !l2Valid cur := by
  funext cur
  simp [picked, h]

theorem l2Setup_eq (e : EtherAddr) (entry : Arl chip) :
    let loaded := l2LookupStart hash s e
    let picks := picked loaded.regs e
    l2Setup hash s e entry
      = (withRegs hash loaded (written picks (l2Stored entry e) loaded.regs),
        if ∃ reg ∈ loopRegs chip, picks (loaded.regs reg) then 0 else -1) := by
  intro loaded picks
  have hfirst := l2SetupLoop_eq hash (fun cur => l2Matches cur e) e entry loaded loaded.regs
  rw [withRegs_lookupStart] at hfirst
  cases hfound : found loaded.regs e with
  | some cur =>
    obtain ⟨reg, hreg, rfl, hmac⟩ := exists_of_found hfound
    have hpicks : picks = fun cur => l2Matches cur e := picked_of_found hfound
    have hex : ∃ reg ∈ loopRegs chip, l2Matches (loaded.regs reg) e :=
      ⟨reg, hreg, decide_eq_true hmac⟩
    simp only [l2Setup, hpicks, loaded, hfirst, if_pos hex, decide_eq_true hex, if_true]
  | none =>
    -- Nothing was written, so the second loop is on the bucket as it was loaded.
    have hpicks : picks = fun cur => !l2Valid cur := picked_of_none hfound
    have hex : ¬∃ reg ∈ loopRegs chip, l2Matches (loaded.regs reg) e := fun ⟨reg, hreg, hmac⟩ =>
      found_eq_none.mp hfound reg hreg (of_decide_eq_true hmac)
    have hkept : written (fun cur => l2Matches cur e) (l2Stored entry e) loaded.regs
        = loaded.regs := funext fun reg => if_neg fun h => hex ⟨reg, h⟩
    rw [hkept] at hfirst
    simp only [l2Setup, hpicks, hfirst, l2SetupLoop_eq, decide_eq_false hex, Bool.false_eq_true,
      if_false]
    by_cases hfree : ∃ reg ∈ loopRegs chip, !l2Valid (loaded.regs reg)
    · simp only [if_pos hfree, decide_eq_true hfree, Bool.not_true, Bool.false_eq_true, if_false]
    · simp only [if_neg hfree, decide_eq_false hfree, Bool.not_false, if_true]

/-- The slots that a loop with `picks` writes: those that it reaches, as far as they are picked. -/
def reaches (picks : Arl chip → Bool) (n : Fin chip.arlEntryCount) (cur : Arl chip) : Bool :=
  slotReg chip n ∈ loopRegs chip && picks cur

/-- The bucket after the setup of an address that was looked up, and what the setup returns. -/
theorem l2Setup_lookupStart (e : EtherAddr) (entry : Arl chip) :
    let loaded := l2LookupStart hash s e
    let picks := picked loaded.regs e
    let setup := l2Setup hash loaded e entry
    setup.1.table = update s.table (hash e)
        (replaceWhere (reaches picks) (l2Stored entry e) (s.table (hash e))) ∧
      setup.2 = if ∃ reg ∈ loopRegs chip, picks (loaded.regs reg) then 0 else -1 := by
  intro loaded picks setup
  have hsetup : setup = _ := l2Setup_eq hash loaded e entry
  rw [lookupStart_lookupStart] at hsetup
  rw [hsetup]
  refine ⟨congrArg (update s.table (hash e)) (funext fun n => ?_), rfl⟩
  simp only [written, replaceWhere, reaches, regs_slotReg, Bool.and_eq_true, decide_eq_true_eq]
  rfl

/-- The setup of an address that the search found writes to the slots with the address. -/
theorem l2Setup_of_found {e : EtherAddr} {cur : Arl chip}
    (hfound : found (l2LookupStart hash s e).regs e = some cur) (entry : Arl chip) :
    let setup := l2Setup hash (l2LookupStart hash s e) e entry
    setup.1.table = update s.table (hash e) (replaceWhere (reaches fun cur => l2Matches cur e)
        (l2Stored entry e) (s.table (hash e))) ∧ setup.2 = 0 := by
  obtain ⟨htable, hret⟩ := l2Setup_lookupStart hash s e entry
  rw [picked_of_found hfound] at htable hret
  obtain ⟨reg, hreg, rfl, hmac⟩ := exists_of_found hfound
  exact ⟨htable, hret.trans (if_pos ⟨reg, hreg, decide_eq_true hmac⟩)⟩

/-- A bucket of which no slot that is reached is free is left as it is. -/
theorem replaceWhere_of_full {slots : Bucket chip}
    (hfull : ∀ n, slotReg chip n ∈ loopRegs chip → (slots n).valid = true) (entry : Arl chip) :
    replaceWhere (reaches fun cur => !l2Valid cur) entry slots = slots := by
  refine replaceWhere_eq_self fun n hn => ?_
  simp only [reaches, l2Valid, Bool.and_eq_true, decide_eq_true_eq] at hn
  rw [hfull n hn.1] at hn
  exact absurd hn.2 (by decide)

/-! ### What a call does to its bucket -/

/-- The bucket before and after a call that finds these registers, and what the call returns. -/
inductive Outcome (regs : ℕ → Arl chip) : McastCall → Bucket chip → Bucket chip → Int → Prop
  | addFound {e port slots} (entry) (hfound : found regs e = some entry) :
    Outcome regs (.add e port) slots (replaceWhere (reaches fun cur => l2Matches cur e)
      (l2Stored (entry.addPort port) e) slots) 0
  | addFree {e port slots} (hnone : found regs e = none) (reg) (hreg : reg ∈ loopRegs chip)
      (hfree : (regs reg).valid = false) :
    Outcome regs (.add e port) slots (replaceWhere (reaches fun cur => !l2Valid cur)
      (l2Stored ((Arl.zero chip).addPort port) e) slots) 0
  | addFull {e port slots} (hnone : found regs e = none)
      (hfull : ∀ reg ∈ loopRegs chip, (regs reg).valid = true) :
    Outcome regs (.add e port) slots slots (-1)
  | delFound {e port slots} (entry) (hfound : found regs e = some entry) :
    Outcome regs (.del e port) slots (replaceWhere (reaches fun cur => l2Matches cur e)
      (l2Stored (entry.delPort port) e) slots) 0
  | delAbsent {e port slots} (hnone : found regs e = none) :
    Outcome regs (.del e port) slots slots (-1)

/-- **A call changes the bucket of its address only**, as `Outcome` says. -/
theorem mcastCall_outcome (call : McastCall) :
    ∃ slots, Outcome (l2LookupStart hash s call.address).regs call (s.table (hash call.address))
        slots (mcastCall hash s call).2 ∧
      (mcastCall hash s call).1.table = update s.table (hash call.address) slots := by
  cases call with
  | add e port =>
    rw [mcastCall, l2McastAdd, l2Entry_eq]
    cases hfound : found (l2LookupStart hash s e).regs e with
    | some cur =>
      obtain ⟨htable, hret⟩ := l2Setup_of_found hash s hfound (cur.addPort port)
      exact ⟨_, hret.symm ▸ .addFound _ hfound, htable⟩
    | none =>
      -- The search leaves the last entry that was read, and it is cleared.
      obtain ⟨htable, hret⟩ := l2Setup_lookupStart hash s e ((Arl.zero chip).addPort port)
      rw [picked_of_none hfound] at htable hret
      by_cases hfree : ∃ reg ∈ loopRegs chip, !l2Valid ((l2LookupStart hash s e).regs reg)
      · rw [if_pos hfree] at hret
        obtain ⟨reg, hreg, hfree⟩ := hfree
        have hfree : ((l2LookupStart hash s e).regs reg).valid = false := by
          simpa [l2Valid] using hfree
        exact ⟨_, hret.symm ▸ .addFree hfound reg hreg hfree, htable⟩
      · rw [if_neg hfree] at hret
        have hfull : ∀ reg ∈ loopRegs chip, ((l2LookupStart hash s e).regs reg).valid = true := by
          simpa [l2Valid] using hfree
        rw [replaceWhere_of_full fun n hn => regs_slotReg hash s e n ▸ hfull _ hn] at htable
        exact ⟨_, hret.symm ▸ .addFull hfound hfull, htable⟩
  | del e port =>
    rw [mcastCall, l2McastDel, l2Entry_eq]
    cases hfound : found (l2LookupStart hash s e).regs e with
    | some cur =>
      obtain ⟨htable, hret⟩ := l2Setup_of_found hash s hfound (cur.delPort port)
      exact ⟨_, hret.symm ▸ .delFound _ hfound, htable⟩
    | none => exact ⟨_, .delAbsent hfound, (Function.update_eq_self ..).symm⟩

/-! ### Ports -/

/-- The address of a slot that is in use. -/
def Arl.key (entry : Arl chip) : Option EtherAddr :=
  if entry.valid then some entry.macAddress else none

theorem Arl.key_eq_some {entry : Arl chip} {e : EtherAddr} :
    entry.key = some e ↔ entry.valid = true ∧ entry.macAddress = e := by
  simp [Arl.key]

/-- The ports of a field. -/
def portSet {w : ℕ} (portid : BitVec w) : Set ℕ := {port | portid.getLsbD port = true}

/-- The ports of an address. -/
def portsOf (slots : Bucket chip) (e : EtherAddr) : Set ℕ :=
  gather Arl.key (fun entry => portSet entry.portid) slots e

theorem portSet_or {w : ℕ} (x y : BitVec w) : portSet (x ||| y) = portSet x ∪ portSet y := by
  ext port
  simp [portSet]

theorem portSet_zero : portSet (Arl.zero chip).portid = ∅ := by
  ext port
  simp [portSet, Arl.zero]

theorem portSet_portBit {port : ℕ} (h : port < chip.portidWidth) :
    portSet (portBit chip port) = {port} := by
  have hw : chip.portidWidth < 32 := by cases chip <;> decide
  ext p
  simp only [portSet, portBit, Nat.mod_eq_of_lt (h.trans hw), BitVec.getLsbD_setWidth,
    BitVec.getLsbD_shiftLeft, BitVec.getLsbD_one, Set.mem_ofPred_eq, Set.mem_singleton_iff,
    Bool.and_eq_true, Bool.not_eq_true', decide_eq_true_eq, decide_eq_false_iff_not]
  omega

theorem portSet_and_not {w : ℕ} (x y : BitVec w) :
    portSet (x &&& ~~~y) = portSet x \ portSet y := by
  ext p
  simp only [portSet, BitVec.getLsbD_and, BitVec.getLsbD_not, Set.mem_ofPred_eq, Set.mem_sdiff,
    Bool.and_eq_true, Bool.not_eq_true', decide_eq_true_eq, Bool.not_eq_true]
  exact ⟨fun hp => ⟨hp.1, hp.2.2⟩, fun hp => ⟨hp.1, BitVec.lt_of_getLsbD hp.1, hp.2⟩⟩

/-- A port is taken out of a field. -/
theorem portSet_and_not_portBit (x : BitVec chip.portidWidth) {port : ℕ}
    (h : port < chip.portidWidth) :
    portSet (x &&& ~~~portBit chip port) = portSet x \ {port} := by
  rw [portSet_and_not, portSet_portBit h]

@[simp] theorem addPort_valid (entry : Arl chip) (port : ℕ) : (entry.addPort port).valid = true :=
  rfl

theorem portSet_addPort (entry : Arl chip) {port : ℕ} (h : port < chip.portidWidth) :
    portSet (entry.addPort port).portid
      = portSet chip.cpuPort ∪ insert port (portSet entry.portid) := by
  simp only [Arl.addPort, portSet_or, portSet_portBit h]
  ext p
  simp only [Set.mem_union, Set.mem_insert_iff, Set.mem_singleton_iff]
  tauto

@[simp] theorem delPort_valid (entry : Arl chip) (port : ℕ) :
    (entry.delPort port).valid = entry.valid := by
  unfold Arl.delPort
  dsimp only
  split_ifs <;> rfl

theorem portSet_delPort (entry : Arl chip) {port : ℕ} (h : port < chip.portidWidth) :
    portSet (entry.delPort port).portid = portSet entry.portid \ {port} := by
  have hportid : (entry.delPort port).portid = entry.portid &&& ~~~portBit chip port := by
    unfold Arl.delPort
    dsimp only
    split_ifs <;> rfl
  rw [hportid, portSet_and_not_portBit _ h]

/-! ### Calls that fit the bucket -/

/-- The loops read every slot with the address, and no other entry with it. -/
structure Sees (slots : Bucket chip) (regs : ℕ → Arl chip) (e : EtherAddr) : Prop where
  read : ∀ n, (slots n).macAddress = e → slotReg chip n ∈ loopRegs chip
  own : ∀ reg ∈ loopRegs chip, (regs reg).macAddress = e → ∃ n, slotReg chip n = reg

instance (slots : Bucket chip) (regs : ℕ → Arl chip) (e : EtherAddr) :
    Decidable (Sees slots regs e) :=
  decidable_of_iff (_ ∧ _) ⟨fun h => ⟨h.1, h.2⟩, fun h => ⟨h.read, h.own⟩⟩

/-- A slot with the address is in use. -/
def NoStale (slots : Bucket chip) (e : EtherAddr) : Prop :=
  ∀ n, (slots n).macAddress = e → (slots n).valid = true

/-- One of the slots that the loops read is free. -/
def OneFree (slots : Bucket chip) : Prop :=
  ∃ n, reaches (fun cur => !l2Valid cur) n (slots n) ∧
    AtMostOne (reaches fun cur => !l2Valid cur) slots

/-- When a call keeps the bucket in order.  The loops see its address, and no slot that is free has
it.  An add has a port of the field, and its address has a slot, or one slot that is read is free,
or neither a slot nor what is read in place of one; a delete has a port of the field that is not the
CPU port, and the entry of its address has the CPU port. -/
def Fits (slots : Bucket chip) (regs : ℕ → Arl chip) : McastCall → Prop
  | .add e port => Sees slots regs e ∧ NoStale slots e ∧ port < chip.portidWidth ∧
      ((∃ n, (slots n).macAddress = e) ∨ OneFree slots ∨
        (∀ n, (slots n).valid = true) ∧ ∀ reg ∈ loopRegs chip, (regs reg).valid = true)
  | .del e port => Sees slots regs e ∧ NoStale slots e ∧ port < chip.portidWidth ∧
      chip.cpuPort.getLsbD port = false ∧
      ∀ n, (slots n).macAddress = e → (slots n).portid ||| chip.cpuPort = (slots n).portid

instance (slots : Bucket chip) (regs : ℕ → Arl chip) (call : McastCall) :
    Decidable (Fits slots regs call) := by
  cases call <;> unfold Fits NoStale OneFree <;> infer_instance

theorem key_l2Stored {entry : Arl chip} (h : entry.valid = true) (e : EtherAddr) :
    (l2Stored entry e).key = some e :=
  Arl.key_eq_some.mpr ⟨by rw [l2Stored_valid, h], l2Stored_macAddress entry e⟩

section

variable {slots : Bucket chip} {regs : ℕ → Arl chip} {e : EtherAddr}

/-- The slots with the address are those in use by it. -/
theorem NoStale.key_eq (h : NoStale slots e) {n : Fin chip.arlEntryCount}
    (hn : (slots n).macAddress = e) : (slots n).key = some e :=
  Arl.key_eq_some.mpr ⟨h n hn, hn⟩

theorem NoStale.atMostOne (h : NoStale slots e) (honce : KeyedOnce Arl.key slots) :
    AtMostOne (reaches fun cur => l2Matches cur e) slots := fun _ _ hi hj =>
  honce (h.key_eq (of_decide_eq_true (Bool.and_eq_true_iff.mp hi).2))
    (h.key_eq (of_decide_eq_true (Bool.and_eq_true_iff.mp hj).2))

/-- A slot with the address is overwritten. -/
theorem Sees.picks (h : Sees slots regs e) {n : Fin chip.arlEntryCount}
    (hn : (slots n).macAddress = e) : reaches (fun cur => l2Matches cur e) n (slots n) :=
  Bool.and_eq_true_iff.mpr ⟨decide_eq_true (h.read n hn), decide_eq_true hn⟩

theorem Sees.picks_of_key (h : Sees slots regs e) (n : Fin chip.arlEntryCount)
    (hn : (slots n).key = some e) : reaches (fun cur => l2Matches cur e) n (slots n) :=
  h.picks (Arl.key_eq_some.mp hn).2

variable (hload : ∀ n, regs (slotReg chip n) = slots n)

include hload

/-- What is found is a slot with the address. -/
theorem Sees.exists_slot (h : Sees slots regs e) {entry : Arl chip}
    (hfound : found regs e = some entry) : ∃ n, slots n = entry ∧ (slots n).macAddress = e := by
  obtain ⟨reg, hreg, rfl, hmac⟩ := exists_of_found hfound
  obtain ⟨n, rfl⟩ := h.own reg hreg hmac
  exact ⟨n, (hload n).symm, hload n ▸ hmac⟩

theorem Sees.forall_ne (h : Sees slots regs e) (hnone : found regs e = none)
    (n : Fin chip.arlEntryCount) : (slots n).macAddress ≠ e := fun hn =>
  found_eq_none.mp hnone _ (h.read n hn) (hload n ▸ hn)

end

theorem key_l2Stored_ne {entry : Arl chip} {e e' : EtherAddr} (h : e' ≠ e) :
    (l2Stored entry e).key ≠ some e' := fun hkey =>
  h ((Arl.key_eq_some.mp hkey).2.symm.trans (l2Stored_macAddress entry e))

section

variable {regs : ℕ → Arl chip} {call : McastCall} {slots slots' : Bucket chip} {ret : Int}

/-- **No slot of another address is changed.** -/
theorem Outcome.frame (h : Outcome regs call slots slots' ret) {n : Fin chip.arlEntryCount}
    (hvalid : (slots n).valid = true) (hn : (slots n).macAddress ≠ call.address) :
    slots' n = slots n := by
  cases h with
  | addFound | delFound =>
    exact replaceWhere_of_not_picked fun hp =>
      hn (of_decide_eq_true (Bool.and_eq_true_iff.mp hp).2)
  | addFree => exact replaceWhere_of_not_picked (by simp [reaches, l2Valid, hvalid])
  | addFull | delAbsent => rfl

/-- Another address keeps its ports. -/
theorem Outcome.portsOf_of_ne (h : Outcome regs call slots slots' ret) {e : EtherAddr}
    (he : e ≠ call.address) : portsOf slots' e = portsOf slots e := by
  cases h with
  | addFound | delFound =>
    refine gather_replaceWhere_of_ne (key_l2Stored_ne he) fun m hm hkey => he ?_
    exact (Arl.key_eq_some.mp hkey).2.symm.trans (of_decide_eq_true (Bool.and_eq_true_iff.mp hm).2)
  | addFree =>
    refine gather_replaceWhere_of_ne (key_l2Stored_ne he) fun m hm hkey => ?_
    simp [reaches, l2Valid, (Arl.key_eq_some.mp hkey).1] at hm
  | addFull | delAbsent => rfl

/-- A call that fails changes nothing. -/
theorem Outcome.eq_of_failed (h : Outcome regs call slots slots' ret) (hret : ret ≠ 0) :
    slots' = slots := by
  cases h with
  | addFound | addFree | delFound => exact absurd rfl hret
  | addFull | delAbsent => rfl

variable (hload : ∀ n, regs (slotReg chip n) = slots n)

include hload

/-- An add that does not find its address and a free entry has a free slot. -/
theorem Fits.oneFree {e : EtherAddr} {port : ℕ} (hfits : Fits slots regs (.add e port))
    (hnone : found regs e = none) {reg : ℕ} (hreg : reg ∈ loopRegs chip)
    (hfree : (regs reg).valid = false) : OneFree slots := by
  obtain ⟨n, hn⟩ | hone | hfull := hfits.2.2.2
  · exact absurd hn (hfits.1.forall_ne hload hnone n)
  · exact hone
  · rw [hfull.2 reg hreg] at hfree
    exact nomatch hfree

/-- **One slot for each address.** -/
theorem Outcome.keyedOnce (h : Outcome regs call slots slots' ret) (hfits : Fits slots regs call)
    (honce : KeyedOnce Arl.key slots) : KeyedOnce Arl.key slots' := by
  cases h with
  | addFound entry hfound =>
    exact honce.replaceWhere (key_l2Stored (addPort_valid ..) _) (hfits.2.1.atMostOne honce)
      hfits.1.picks_of_key
  | addFree hnone reg hreg hfree =>
    -- The address has no slot yet, so that it gets one only if no second slot is free.
    obtain ⟨-, -, hone⟩ := hfits.oneFree hload hnone hreg hfree
    exact honce.replaceWhere (key_l2Stored (addPort_valid ..) _) hone
      fun m hm => absurd (Arl.key_eq_some.mp hm).2 (hfits.1.forall_ne hload hnone m)
  | addFull => exact honce
  | delFound entry hfound =>
    obtain ⟨n, rfl, hn⟩ := hfits.1.exists_slot hload hfound
    exact honce.replaceWhere (key_l2Stored ((delPort_valid ..).trans (hfits.2.1 n hn)) _)
      (hfits.2.1.atMostOne honce) hfits.1.picks_of_key
  | delAbsent => exact honce

theorem Outcome.portsOf_add {e : EtherAddr} {port : ℕ}
    (h : Outcome regs (.add e port) slots slots' 0) (hfits : Fits slots regs (.add e port))
    (honce : KeyedOnce Arl.key slots) :
    portsOf slots' e = portSet chip.cpuPort ∪ insert port (portsOf slots e) := by
  cases h with
  | addFound entry hfound =>
    obtain ⟨n, rfl, hn⟩ := hfits.1.exists_slot hload hfound
    have hbefore : portsOf slots e = portSet (slots n).portid :=
      honce.gather_eq (hfits.2.1.key_eq hn)
    refine (gather_replaceWhere_self (key_l2Stored (addPort_valid ..) _) (hfits.1.picks hn)
      hfits.1.picks_of_key).trans ?_
    rw [l2Stored_portid, portSet_addPort _ hfits.2.2.1, hbefore]
  | addFree hnone reg hreg hfree =>
    have hother := hfits.1.forall_ne hload hnone
    have hbefore : portsOf slots e = ∅ :=
      gather_eq_empty fun m hm => hother m (Arl.key_eq_some.mp hm).2
    obtain ⟨n, hn, -⟩ := hfits.oneFree hload hnone hreg hfree
    refine (gather_replaceWhere_self (p := reaches fun cur => !l2Valid cur)
      (key_l2Stored (addPort_valid ..) _) hn
      fun m hm => absurd (Arl.key_eq_some.mp hm).2 (hother m)).trans ?_
    rw [l2Stored_portid, portSet_addPort _ hfits.2.2.1, hbefore, portSet_zero]

theorem Outcome.portsOf_del {e : EtherAddr} {port : ℕ}
    (h : Outcome regs (.del e port) slots slots' 0) (hfits : Fits slots regs (.del e port))
    (honce : KeyedOnce Arl.key slots) :
    portsOf slots' e = (portSet chip.cpuPort ∪ portsOf slots e) \ {port} := by
  cases h with
  | delFound entry hfound =>
    obtain ⟨n, rfl, hn⟩ := hfits.1.exists_slot hload hfound
    have hbefore : portsOf slots e = portSet (slots n).portid :=
      honce.gather_eq (hfits.2.1.key_eq hn)
    refine (gather_replaceWhere_self
      (key_l2Stored ((delPort_valid ..).trans (hfits.2.1 n hn)) _) (hfits.1.picks hn)
      hfits.1.picks_of_key).trans ?_
    -- The entry has the CPU port already.
    rw [l2Stored_portid, portSet_delPort _ hfits.2.2.1, hbefore, Set.union_comm, ← portSet_or,
      hfits.2.2.2.2 n hn]

/-- **An add fails only if every slot is taken by another address.** -/
theorem Outcome.full {e : EtherAddr} {port : ℕ}
    (h : Outcome regs (.add e port) slots slots' ret) (hfits : Fits slots regs (.add e port))
    (hret : ret ≠ 0) (n : Fin chip.arlEntryCount) :
    (slots n).valid = true ∧ (slots n).macAddress ≠ e := by
  cases h with
  | addFound | addFree => exact absurd rfl hret
  | addFull hnone hfull =>
    refine ⟨?_, hfits.1.forall_ne hload hnone n⟩
    obtain ⟨m, hm⟩ | ⟨m, hm, -⟩ | hused := hfits.2.2.2
    · exact absurd hm (hfits.1.forall_ne hload hnone m)
    · -- A free slot that is read would have been taken.
      simp only [reaches, l2Valid, Bool.and_eq_true, decide_eq_true_eq] at hm
      rw [← hload m, hfull _ hm.1] at hm
      exact nomatch hm.2
    · exact hused.1 n

end

/-! ### Runs -/

/-- The ports that were added and not deleted since, after one more call that returned. -/
def portsNext (ports : EtherAddr → Set ℕ) : McastCall × Int → EtherAddr → Set ℕ
  | (.add e port, ret) => if ret = 0 then update ports e (insert port (ports e)) else ports
  | (.del e port, ret) => if ret = 0 then update ports e (ports e \ {port}) else ports

/-- The ports of each address that were added and not deleted since, when it began with
`ports`. -/
def portsSince (ports : EtherAddr → Set ℕ) (history : List (McastCall × Int)) :
    EtherAddr → Set ℕ :=
  history.foldl portsNext ports

/-- What a call is to do to the bucket of its address, where `ports` are the ports that were added
and not deleted since. -/
structure Lawful (call : McastCall) (slots slots' : Bucket chip) (ret : Int)
    (ports : EtherAddr → Set ℕ) : Prop where
  keyedOnce : KeyedOnce Arl.key slots'
  frame : ret = 0 → ∀ n, (slots n).valid = true → (slots n).macAddress ≠ call.address →
    slots' n = slots n
  ports : ret = 0 → portsOf slots' call.address = portSet chip.cpuPort ∪ ports call.address
  full : ∀ e port, call = .add e port → ret ≠ 0 →
    ∀ n, (slots n).valid = true ∧ (slots n).macAddress ≠ e

/-- The bucket has the ports of the address, up to the CPU port. -/
def Tracks (slots : Bucket chip) (ports : EtherAddr → Set ℕ) (e : EtherAddr) : Prop :=
  portSet chip.cpuPort ∪ portsOf slots e = portSet chip.cpuPort ∪ ports e

section

variable {regs : ℕ → Arl chip} {call : McastCall} {slots slots' : Bucket chip} {ret : Int}
  {ports : EtherAddr → Set ℕ}

theorem portsNext_of_ne {e : EtherAddr} (he : e ≠ call.address) :
    portsNext ports (call, ret) e = ports e := by
  cases call with
  | add | del =>
    rw [portsNext]
    split_ifs
    · exact Function.update_of_ne he ..
    · rfl

theorem portsNext_of_failed (hret : ret ≠ 0) : portsNext ports (call, ret) = ports := by
  cases call <;> exact if_neg hret

variable (hload : ∀ n, regs (slotReg chip n) = slots n)

include hload

theorem Outcome.portsOf_eq (h : Outcome regs call slots slots' ret) (hfits : Fits slots regs call)
    (honce : KeyedOnce Arl.key slots) (htracks : Tracks slots ports call.address)
    (hret : ret = 0) :
    portsOf slots' call.address
      = portSet chip.cpuPort ∪ portsNext ports (call, ret) call.address := by
  subst hret
  cases call with
  | add e port =>
    calc portsOf slots' e
        = insert port (portSet chip.cpuPort ∪ portsOf slots e) := by
          rw [h.portsOf_add hload hfits honce, Set.union_insert]
      _ = insert port (portSet chip.cpuPort ∪ ports e) := congrArg (insert port) htracks
      _ = portSet chip.cpuPort ∪ portsNext ports (.add e port, 0) e := by
          rw [portsNext, if_pos rfl, Function.update_self, Set.union_insert]
  | del e port =>
    calc portsOf slots' e
        = (portSet chip.cpuPort ∪ portsOf slots e) \ {port} := h.portsOf_del hload hfits honce
      _ = (portSet chip.cpuPort ∪ ports e) \ {port} := congrArg (· \ {port}) htracks
      _ = portSet chip.cpuPort ∪ portsNext ports (.del e port, 0) e := by
          have hcpu : port ∉ portSet chip.cpuPort := Bool.eq_false_iff.mp hfits.2.2.2.1
          rw [portsNext, if_pos rfl, Function.update_self, Set.union_sdiff_distrib,
            Set.sdiff_singleton_eq_self hcpu]

theorem Outcome.lawful (h : Outcome regs call slots slots' ret) (hfits : Fits slots regs call)
    (honce : KeyedOnce Arl.key slots) (htracks : Tracks slots ports call.address) :
    Lawful call slots slots' ret (portsNext ports (call, ret)) where
  keyedOnce := h.keyedOnce hload hfits honce
  frame _ _ := h.frame
  ports := h.portsOf_eq hload hfits honce htracks
  full _ _ hcall hret := by
    subst hcall
    exact h.full hload hfits hret

theorem Outcome.tracks (h : Outcome regs call slots slots' ret) (hfits : Fits slots regs call)
    (honce : KeyedOnce Arl.key slots) {e : EtherAddr} (htracks : Tracks slots ports e) :
    Tracks slots' (portsNext ports (call, ret)) e := by
  by_cases he : e = call.address
  · subst he
    by_cases hret : ret = 0
    · rw [Tracks, h.portsOf_eq hload hfits honce htracks hret, ← Set.union_assoc, Set.union_self]
    · rwa [h.eq_of_failed hret, portsNext_of_failed hret]
  · rwa [Tracks, h.portsOf_of_ne he, portsNext_of_ne he]

end

/-- The registers that a call finds. -/
def regsFound (input : McastCall × (ℕ → Arl chip)) : ℕ → Arl chip :=
  (l2LookupStart hash { s with regs := input.2 } input.1.address).regs

/-- The bucket after a call. -/
theorem mcastStep_table (input : McastCall × (ℕ → Arl chip)) :
    ∃ slots ret,
      Outcome (regsFound hash s input) input.1 (s.table (hash input.1.address)) slots ret ∧
      (mcastStep hash s input).1.table = update s.table (hash input.1.address) slots ∧
      (mcastStep hash s input).2 = [(input.1, ret)] := by
  obtain ⟨slots, hout, htable⟩ := mcastCall_outcome hash { s with regs := input.2 } input.1
  exact ⟨slots, _, hout, htable, rfl⟩

/-- The invariant of a run: each address has at most one slot of the bucket, with the ports that
were added and not deleted since. -/
def Sound (b : ι) (start : EtherAddr → Set ℕ) (s : Switch chip ι)
    (history : List (McastCall × Int)) : Prop :=
  KeyedOnce Arl.key (s.table b) ∧
    ∀ e, hash e = b → Tracks (s.table b) (portsSince start history) e

theorem portsSince_concat (start : EtherAddr → Set ℕ) (history : List (McastCall × Int))
    (call : McastCall × Int) :
    portsSince start (history ++ [call]) = portsNext (portsSince start history) call :=
  List.foldl_concat ..

/-- A call of an address of the bucket fits it. -/
def FitsBucket (b : ι) (s : Switch chip ι) (input : McastCall × (ℕ → Arl chip)) : Prop :=
  hash input.1.address = b → Fits (s.table b) (regsFound hash s input) input.1

instance (b : ι) (s : Switch chip ι) (input : McastCall × (ℕ → Arl chip)) :
    Decidable (FitsBucket hash b s input) :=
  inferInstanceAs (Decidable (_ = b → Fits (s.table b) (regsFound hash s input) input.1))

theorem sound_step {b : ι} {start : EtherAddr → Set ℕ} {s : Switch chip ι}
    {history : List (McastCall × Int)} {input : McastCall × (ℕ → Arl chip)}
    (hfits : FitsBucket hash b s input) (h : Sound hash b start s history) :
    Sound hash b start (mcastStep hash s input).1 (history ++ (mcastStep hash s input).2) := by
  obtain ⟨slots, ret, hout, htable, hevents⟩ := mcastStep_table hash s input
  have hload := regs_slotReg hash { s with regs := input.2 } input.1.address
  rw [hevents]
  by_cases hb : hash input.1.address = b
  · subst hb
    rw [Sound, htable, Function.update_self]
    refine ⟨hout.keyedOnce hload (hfits rfl) h.1, fun e he => ?_⟩
    rw [portsSince_concat]
    exact hout.tracks hload (hfits rfl) h.1 (h.2 e he)
  · -- A call for another bucket changes neither this one nor the ports of its addresses.
    rw [Sound, htable, Function.update_of_ne (Ne.symm hb)]
    refine ⟨h.1, fun e he => ?_⟩
    have hne : e ≠ input.1.address := fun heq => hb (heq ▸ he)
    rw [Tracks, portsSince_concat, portsNext_of_ne hne]
    exact h.2 e he

/-- **The bucket is kept in order**: in a run that starts with each address in at most one slot of
the bucket and whose calls for addresses of the bucket all fit it, each address is in at most one
slot at the end, and every such call is lawful. -/
theorem bucket_lawful_of_fits (b : ι) (s : Switch chip ι) (honce : KeyedOnce Arl.key (s.table b))
    (calls : List (McastCall × (ℕ → Arl chip)))
    (hfits : Meets (mcastStep hash) (FitsBucket hash b) s calls) :
    KeyedOnce Arl.key ((run (mcastStep hash) s calls).1.table b) ∧
      ∀ before call after, calls = before ++ call :: after → hash call.1.address = b →
        ∃ ret, (mcastStep hash (run (mcastStep hash) s before).1 call).2 = [(call.1, ret)] ∧
          Lawful call.1 ((run (mcastStep hash) s before).1.table b)
            ((run (mcastStep hash) s (before ++ [call])).1.table b) ret
            (portsSince (portsOf (s.table b)) (run (mcastStep hash) s (before ++ [call])).2) := by
  have hsound : ∀ {calls}, Meets (mcastStep hash) (FitsBucket hash b) s calls →
      Sound hash b (portsOf (s.table b)) (run (mcastStep hash) s calls).1
        (run (mcastStep hash) s calls).2 := fun {calls} hmeets =>
    run_inv_of_meets (mcastStep hash) (fun s h call => sound_step hash) calls s []
      ⟨honce, fun _ _ => rfl⟩ hmeets
  refine ⟨(hsound hfits).1, ?_⟩
  rintro before call after rfl hb
  obtain ⟨hbefore, hcall, -⟩ := (meets_append (mcastStep hash)).mp hfits
  obtain ⟨honce', htracks⟩ := hsound hbefore
  obtain ⟨slots, ret, hout, htable, hevents⟩ :=
    mcastStep_table hash (run (mcastStep hash) s before).1 call
  subst hb
  have hload := regs_slotReg hash { (run (mcastStep hash) s before).1 with regs := call.2 }
    call.1.address
  have hlawful := hout.lawful hload (hcall rfl) honce' (htracks _ rfl)
  refine ⟨ret, hevents, ?_⟩
  rw [run_append, run_cons, run_nil]
  dsimp only
  rw [htable, Function.update_self, List.append_nil, hevents, portsSince_concat]
  exact hlawful

/-- A group. -/
def someGroup : EtherAddr := #v[0x01, 0x00, 0x5e, 0x00, 0x00, 0x01]

/-- A table of one bucket, with these slots. -/
def oneBucket (slots : Bucket chip) : Switch chip Unit where
  table _ := slots
  index := someGroup
  regs _ := .zero chip

/-- A bucket of which stations have all slots but the last one. -/
def nearlyFull : Bucket .bcm5395 := fun n =>
  if n.val < 3 then
    { Arl.zero _ with macAddress := #v[0x00, 0x17, 0x33, 0x00, 0x00, n.val.toUInt8], valid := true }
  else .zero _

/-- With one slot free, a group is added there, on two ports of which one is deleted again. -/
theorem bucket_lawful_of_fits_one_free :
    let s := oneBucket nearlyFull
    let regs : ℕ → Arl .bcm5395 := fun _ => .zero _
    let before := [(.add someGroup 1, regs), (.add someGroup 2, regs)]
    let call := (.del someGroup 1, regs)
    ∃ ret, Lawful call.1 ((run (mcastStep fun _ => ()) s before).1.table ())
      ((run (mcastStep fun _ => ()) s (before ++ [call])).1.table ()) ret
      (portsSince (portsOf (s.table ())) (run (mcastStep fun _ => ()) s (before ++ [call])).2) := by
  intro s regs before call
  have h := (bucket_lawful_of_fits (fun _ => ()) () s (by decide) (before ++ [call])
    (by decide +kernel)).2 before call [] rfl rfl
  exact h.imp fun _ hlawful => hlawful.2

/-- The first add of a group to a free bucket takes every slot of the bucket. -/
theorem add_takes_every_slot :
    KeyedOnce Arl.key ((oneBucket fun _ => Arl.zero .bcm5395).table ()) ∧
      ¬KeyedOnce Arl.key ((mcastCall (fun _ => ()) (oneBucket fun _ => Arl.zero .bcm5395)
        (.add someGroup 1)).1.table ()) := by
  decide

end Neufbox.Bcm53xx
