import Neufbox.Libnbu.Equiv.Net
import Neufbox.Www.Equiv.Forms

/-!
# The range of the DHCP form

The addresses `/network/dhcp` sets as `dhcp_start` and `dhcp_end` have the first three octets of the
box and a submitted one.  They are hosts of their own subnets; that these are the subnet of the box
is not looked at, and goes without saying up to a prefix of 24 bits only.  They are compared with
the address of the box, if it can be read once more (`dhcp_range_iff`).

A monitor follows the reads of the address of the box; `RangeChecked` is what the handler has found
out before it sets anything.
-/

namespace Neufbox.Www

open Libnbd Libnbu Dialogue Subnet

/-- The octet that is submitted under the name, as `strtol` reads it. -/
def submittedOctet (form : Form) (name : String) : UInt8 :=
  UInt8.ofNat (Decimal.strtol ((form.query name).getD "").toList).value.toNat

/-- The octets of the box, and the submitted one. -/
def rangeStart (box : Ipv4) (form : Form) : Ipv4 :=
  { box with d := submittedOctet form "dhcp_start_p3" }

def rangeEnd (box : Ipv4) (form : Form) : Ipv4 :=
  { box with d := submittedOctet form "dhcp_end_p3" }

/-- A read of `lan_ipaddr` and of `lan_netmask` gives what is stored, or fails. -/
def AnswersStored (box mask : Ipv4) : FormItem → Prop
  | .asked (.config (.nvGet key)) (a : Option String) =>
    (key = "lan_ipaddr" → a = none ∨ a = some box.text) ∧
      (key = "lan_netmask" → a = none ∨ a = some mask.text)
  | _ => True

/-- A read of `lan_ipaddr` that failed. -/
def readFailed : FormItem → Bool
  | .asked (.config (.nvGet key)) (a : Option String) => key = "lan_ipaddr" && a.isNone
  | _ => false

/-- A host of the LAN other than the box. -/
structure LanHost (box mask ip : Ipv4) : Prop where
  inSubnet : ip.addr ∈ subnet box.addr mask.addr
  isHost : IsHost ip.addr mask.addr
  ne_box : ip ≠ box

/-- **A range of the LAN**, from `dhcpStart` to `dhcpEnd`. -/
def LanRange (box mask : Ipv4) (dhcpStart dhcpEnd : String) : Prop :=
  ∃ s e : Ipv4, dhcpStart = s.text ∧ dhcpEnd = e.text ∧ LanHost box mask s ∧ LanHost box mask e ∧
    s.addr < e.addr

/-! ### What is checked -/

/-- What the handler knows; `failed` is whether a read of `lan_ipaddr` has failed. -/
structure RangeChecked (box mask : Ipv4) (form : Form) (failed : Bool) : Prop where
  startHost : IsHost (rangeStart box form).addr mask.addr
  endHost : IsHost (rangeEnd box form).addr mask.addr
  lt : (submittedOctet form "dhcp_start_p3").toNat < (submittedOctet form "dhcp_end_p3").toNat
  ne_box : failed = false → rangeStart box form ≠ box ∧ rangeEnd box form ≠ box

/-- What is set after that. -/
def RangeSet (box mask : Ipv4) (form : Form) (failed : Bool) (key data : String) : Prop :=
  RangeChecked box mask form failed ∧ (key = "dhcp_start" → data = (rangeStart box form).text) ∧
    (key = "dhcp_end" → data = (rangeEnd box form).text)

def rangeMonitor (box mask : Ipv4) (form : Form) : Monitor NbdCall.Answer Note Bool where
  next failed item := failed || readFailed item
  rely _ q a := AnswersStored box mask (.asked q a)
  demand failed
    | .ask (.config (.cset _ key data)) => RangeSet box mask form failed key data
    | _ => True

/-- Only a read of the address of the box that fails is remembered. -/
theorem rangeMonitor_next {box mask : Ipv4} {form : Form} {failed : Bool} {item : FormItem}
    (h : readFailed item = false) : (rangeMonitor box mask form).next failed item = failed := by
  show (failed || readFailed item) = failed
  rw [h, Bool.or_false]

/-- An address joined from the octets of the box and a part of the form. -/
theorem joined_eq {box mask : Ipv4} {form : Form} {name val t : String}
    (hval : form.query name = some val)
    {joinMac : (p0 p1 p2 p3 p4 p5 : String) → Option String}
    (h : ((NetFuncs.libnbu joinMac).joinIp (octetText box.a) (octetText box.b) (octetText box.c)
      val).filter ((NetFuncs.libnbu joinMac).validateFullIp · mask.text) = some t) :
    t = { box with d := submittedOctet form name }.text ∧
      IsHost { box with d := submittedOctet form name }.addr mask.addr ∧
      (Decimal.strtol val.toList).value = (submittedOctet form name).toNat := by
  simp only [NetFuncs.libnbu] at h
  obtain ⟨hjoin, hfull⟩ := Option.filter_eq_some_iff.mp h
  obtain ⟨ip, rfl, ha, hb, hc, hd⟩ := nbuNetJoinIp_eq_some (Nat.le_refl 16) hjoin
  rw [decide_eq_true_eq] at hfull
  have hoctet : ∀ {m n : UInt8}, parsePart 16 (octetText m) = some (n.toNat : Int) → n = m := by
    intro m n hpart
    rw [parsePart_octetText] at hpart
    have heq : (m.toNat : Int) = n.toNat := Option.some.inj hpart
    exact UInt8.toNat_inj.mp (by omega)
  have hvalue := parsePart_eq_some (Nat.le_refl 16) hd
  have hlast : submittedOctet form name = ip.d := by
    rw [submittedOctet, hval, Option.getD_some, hvalue, Int.toNat_natCast, UInt8.ofNat_toNat]
  have hip : { box with d := submittedOctet form name } = ip := by
    rw [hlast, ← hoctet ha, ← hoctet hb, ← hoctet hc]
  rw [hip, hlast]
  exact ⟨rfl, ((nbuNetValidateFullIp_text ip mask).mp hfull).2, hvalue⟩

/-! ### The handler -/

section RangeRules

variable {box mask : Ipv4} {form : Form} {failed : Bool}
  {joinMac : (p0 p1 p2 p3 p4 p5 : String) → Option String}

/-- Any end, in any state. -/
abbrev AnyState (_ : Unit) (_ : Bool) : Prop := True

theorem ignoresNotes_rangeMonitor : IgnoresNotes (rangeMonitor box mask form) :=
  fun _ _ => ⟨trivial, rangeMonitor_next rfl⟩

theorem ignoresDirect_rangeMonitor : IgnoresDirect (rangeMonitor box mask form) := by
  intro failed q hq
  cases q with
  | config c => exact nomatch hq
  | _ => exact ⟨trivial, fun _ => rangeMonitor_next rfl⟩

/-- A value of the form. -/
theorem keeps_query {name : String} {rest : String → FormPart Unit}
    (h : ∀ val, form.query name = some val →
      (rest val).Keeps (rangeMonitor box mask form) AnyState failed) :
    (orReturn (ewfHdfSget form name) rest).Keeps (rangeMonitor box mask form) AnyState failed := by
  apply keeps_orReturn
  unfold ewfHdfSget
  cases hquery : form.query name with
  | none => trivial
  | some val =>
    dsimp only
    split_ifs
    · exact h val hquery
    · exact ⟨trivial, trivial⟩

theorem keeps_rangeSet {trx : Trx} {nvname hdfname value : String} {rest : Trx → FormPart Unit}
    (hset : RangeSet box mask form failed nvname value)
    (h : ∀ trx, (rest trx).Keeps (rangeMonitor box mask form) AnyState failed) :
    (orReturn (nvSetWtrx trx nvname hdfname value) rest).Keeps (rangeMonitor box mask form)
      AnyState failed := by
  apply keeps_orReturn
  refine ⟨hset, fun (ret : Int) _ => ?_⟩
  rw [rangeMonitor_next rfl]
  dsimp only
  split_ifs
  · exact h trx
  · refine ⟨trivial, ?_⟩
    rw [rangeMonitor_next rfl]
    exact h _
  · exact ⟨trivial, trivial, fun _ _ => trivial⟩

theorem setDhcpRange_keeps_range {dhcpActive dhcpLease : String}
    (h : RangeChecked box mask form failed) :
    (setDhcpRange dhcpActive (rangeStart box form).text (rangeEnd box form).text dhcpLease).Keeps
      (rangeMonitor box mask form) AnyState failed := by
  apply keeps_orReturn
  refine ⟨trivial, fun (id : Int) _ => ?_⟩
  rw [rangeMonitor_next rfl]
  dsimp only
  split_ifs
  · exact ⟨trivial, trivial⟩
  · refine keeps_rangeSet ⟨h, (absurd · (by decide)), (absurd · (by decide))⟩ fun trx => ?_
    refine keeps_rangeSet ⟨h, fun _ => rfl, (absurd · (by decide))⟩ fun trx => ?_
    refine keeps_rangeSet ⟨h, (absurd · (by decide)), fun _ => rfl⟩ fun trx => ?_
    refine keeps_rangeSet ⟨h, (absurd · (by decide)), (absurd · (by decide))⟩ fun trx => ?_
    have hrestart : ∀ (ret : Int) (failed : Bool),
        (if ret = nvCommitSuccess then send (.sysAsyncRun "/etc/init.d/dhcpd" "restart") (done ())
          else done () : FormPart Unit).Keeps (rangeMonitor box mask form) AnyState failed := by
      intro ret failed
      split_ifs
      · exact ⟨trivial, fun _ _ => trivial⟩
      · trivial
    rw [keeps_bind]
    unfold nvTrxXcommit
    split_ifs
    · exact ⟨trivial, fun _ _ => hrestart _ _⟩
    · exact ⟨trivial, fun ret _ => ⟨trivial, fun _ _ => hrestart ret _⟩⟩

theorem dhcpConfigForm_keeps_range :
    (dhcpConfigForm (.libnbu joinMac) form box.text mask.text).Keeps (rangeMonitor box mask form)
      AnyState false := by
  refine keeps_query fun dhcpActive _ => ?_
  refine keeps_query fun dhcpStartP3 hstart => keeps_query fun dhcpEndP3 hend => ?_
  refine keeps_query fun dhcpLease _ => ?_
  have hsplit : (NetFuncs.libnbu joinMac).splitIp box.text
      = some (octetText box.a, octetText box.b, octetText box.c, octetText box.d) := by
    simp only [NetFuncs.libnbu, nbuNetSplitIp_text]
  rw [hsplit]
  dsimp only
  split
  · exact ⟨trivial, trivial⟩
  · rename_i dhcpStart hstartJoined
    split
    · exact ⟨trivial, trivial⟩
    · rename_i dhcpEnd hendJoined
      obtain ⟨rfl, hstartHost, hstartValue⟩ : dhcpStart = (rangeStart box form).text ∧
          IsHost (rangeStart box form).addr mask.addr ∧ _ := joined_eq hstart hstartJoined
      obtain ⟨rfl, hendHost, hendValue⟩ : dhcpEnd = (rangeEnd box form).text ∧
          IsHost (rangeEnd box form).addr mask.addr ∧ _ := joined_eq hend hendJoined
      refine ⟨trivial, fun (buffer : Option String) hbuffer => ?_⟩
      dsimp only
      split_ifs with hboxStart hboxEnd hrange
      · exact ⟨trivial, trivial⟩
      · exact ⟨trivial, trivial⟩
      · exact ⟨trivial, trivial⟩
      · apply setDhcpRange_keeps_range
        refine ⟨hstartHost, hendHost, ?_, ?_⟩
        · simp only [NetFuncs.libnbu, hstartValue, hendValue] at hrange
          omega
        · -- The second read of the address did not fail, so that it was compared.
          intro hread
          rcases hbuffer.1 rfl with rfl | rfl
          · exact nomatch hread
          · refine ⟨fun heq => hboxStart ?_, fun heq => hboxEnd ?_⟩
            · rw [heq]
            · rw [heq]

theorem networkDhcpForm_keeps_range :
    (networkDhcpForm (.libnbu joinMac) form).Keeps (rangeMonitor box mask form) AnyState false := by
  apply keeps_orReturn
  refine ⟨trivial, fun (a : Option String) ha => ?_⟩
  rcases ha.1 rfl with rfl | rfl
  · trivial
  · apply keeps_orReturn
    refine ⟨trivial, fun (a : Option String) ha => ?_⟩
    rcases ha.2 rfl with rfl | rfl
    · trivial
    · show Keeps _ _ false _
      dsimp only
      split_ifs
      · exact dhcpAddForm_keeps ignoresNotes_rangeMonitor ignoresDirect_rangeMonitor trivial ..
      · exact dhcpRemoveForm_keeps ignoresNotes_rangeMonitor ignoresDirect_rangeMonitor trivial ..
      · exact dhcpConfigForm_keeps_range

end RangeRules

/-! ### The range -/

theorem exists_readFailed {box mask : Ipv4} {form : Form} {items : List FormItem}
    (h : items.foldl (rangeMonitor box mask form).next false = true) :
    ∃ item ∈ items, readFailed item = true := by
  induction items using List.reverseRecOn with
  | nil => exact nomatch h
  | append_singleton items item ih =>
    rw [List.foldl_append] at h
    rcases Bool.or_eq_true_iff.mp h with h | h
    · obtain ⟨item', hmem, hfailed⟩ := ih h
      exact ⟨item', List.mem_append_left _ hmem, hfailed⟩
    · exact ⟨item, List.mem_append_right _ (List.mem_singleton_self item), h⟩

/-- What is set in a run, and what was checked before. -/
theorem rangeSet_of_mem {joinMac : (p0 p1 p2 p3 p4 p5 : String) → Option String} {form : Form}
    {box mask : Ipv4} {trace : List FormItem}
    (hran : Ran (networkDhcpForm (.libnbu joinMac) form) trace ())
    (hstored : ∀ item ∈ trace, AnswersStored box mask item) {id ret : Int} {key data : String}
    (hset : .asked (.config (.cset id key data)) ret ∈ trace) :
    ∃ failed, RangeSet box mask form failed key data ∧
      (failed = true → ∃ item ∈ trace, readFailed item = true) := by
  have hserved : Served (rangeMonitor box mask form) false trace :=
    served_of_forall fun q a hmem _ => hstored _ hmem
  obtain ⟨hkept, -⟩ := hran.kept networkDhcpForm_keeps_range hserved
  obtain ⟨before, after, rfl, hdemand⟩ := hkept.demand_of_mem hset
  refine ⟨_, hdemand, fun hfailed => ?_⟩
  obtain ⟨item, hmem, hitem⟩ := exists_readFailed hfailed
  exact ⟨item, List.mem_append_left _ hmem, hitem⟩

theorem lanHost_iff {box mask : Ipv4} {k : ℕ} (hmask : mask.addr = prefixMask 32 k) {p : UInt8}
    (hhost : IsHost { box with d := p }.addr mask.addr) :
    LanHost box mask { box with d := p } ↔
      (k ≤ 24 ∨ p.toNat / 2 ^ (32 - k) = box.d.toNat / 2 ^ (32 - k)) ∧ p ≠ box.d := by
  have hsubnet : { box with d := p }.addr ∈ subnet box.addr mask.addr ↔
      k ≤ 24 ∨ p.toNat / 2 ^ (32 - k) = box.d.toNat / 2 ^ (32 - k) := by
    rw [mem_subnet, hmask]
    exact box.and_prefixMask_last_iff p k
  have hbox : { box with d := p } = box ↔ p = box.d := by
    constructor
    · intro heq
      exact congrArg Ipv4.d heq
    · rintro rfl
      rfl
  constructor
  · rintro ⟨hin, -, hne⟩
    exact ⟨hsubnet.mp hin, fun heq => hne (hbox.mpr heq)⟩
  · rintro ⟨hin, hne⟩
    exact ⟨hsubnet.mpr hin, hhost, fun heq => hne (hbox.mp heq)⟩

/-- The texts of two addresses in their order are a range if both are hosts of the LAN. -/
theorem lanRange_text_iff {box mask s e : Ipv4} (hlt : s.addr < e.addr) :
    LanRange box mask s.text e.text ↔ LanHost box mask s ∧ LanHost box mask e := by
  constructor
  · rintro ⟨s', e', hs, he, hhosts, hhoste, -⟩
    rw [Ipv4.text_injective hs, Ipv4.text_injective he]
    exact ⟨hhosts, hhoste⟩
  · rintro ⟨hs, he⟩
    exact ⟨s, e, rfl, rfl, hs, he, hlt⟩

theorem RangeChecked.addr_lt {box mask : Ipv4} {form : Form} {failed : Bool}
    (h : RangeChecked box mask form failed) :
    (rangeStart box form).addr < (rangeEnd box form).addr := by
  have := h.lt
  rw [BitVec.lt_def, Ipv4.toNat_addr, Ipv4.toNat_addr]
  dsimp only [rangeStart, rangeEnd]
  omega

/-- The box is told apart by the comparison, unless the read for it failed. -/
theorem RangeChecked.octet_ne {box mask : Ipv4} {form : Form} {failed : Bool}
    (h : RangeChecked box mask form failed) (hok : failed = false) :
    submittedOctet form "dhcp_start_p3" ≠ box.d ∧ submittedOctet form "dhcp_end_p3" ≠ box.d := by
  obtain ⟨hnes, hnee⟩ := h.ne_box hok
  refine ⟨fun heq => hnes ?_, fun heq => hnee ?_⟩
  · rw [rangeStart, heq]
  · rw [rangeEnd, heq]

/-- **The range**: what is set is a range of the LAN of the box exactly if, for a prefix longer than
24 bits, the submitted octets are in the block of the box, and if none of them is the one of the box
in case its address could not be read again. -/
theorem dhcp_range_iff (joinMac : (p0 p1 p2 p3 p4 p5 : String) → Option String) (form : Form)
    (box mask : Ipv4) (k : ℕ) (hmask : mask.addr = prefixMask 32 k) {trace : List FormItem}
    (hran : Ran (networkDhcpForm (.libnbu joinMac) form) trace ())
    (hstored : ∀ item ∈ trace, AnswersStored box mask item) {id id' ret ret' : Int}
    {dhcpStart dhcpEnd : String}
    (hstart : .asked (.config (.cset id "dhcp_start" dhcpStart)) ret ∈ trace)
    (hend : .asked (.config (.cset id' "dhcp_end" dhcpEnd)) ret' ∈ trace) :
    LanRange box mask dhcpStart dhcpEnd ↔
      (k ≤ 24 ∨
        ((submittedOctet form "dhcp_start_p3").toNat / 2 ^ (32 - k)
            = box.d.toNat / 2 ^ (32 - k) ∧
          (submittedOctet form "dhcp_end_p3").toNat / 2 ^ (32 - k)
            = box.d.toNat / 2 ^ (32 - k))) ∧
      ((∀ item ∈ trace, readFailed item = false) ∨
        (submittedOctet form "dhcp_start_p3" ≠ box.d ∧
          submittedOctet form "dhcp_end_p3" ≠ box.d)) := by
  obtain ⟨failed, ⟨hchecked, hstartEq, -⟩, hfailed⟩ := rangeSet_of_mem hran hstored hstart
  obtain ⟨-, ⟨-, -, hendEq⟩, -⟩ := rangeSet_of_mem hran hstored hend
  obtain rfl := hstartEq rfl
  obtain rfl := hendEq rfl
  have hs := lanHost_iff hmask hchecked.startHost
  have he := lanHost_iff hmask hchecked.endHost
  have hread : (∀ item ∈ trace, readFailed item = false) →
      submittedOctet form "dhcp_start_p3" ≠ box.d ∧
        submittedOctet form "dhcp_end_p3" ≠ box.d := by
    intro hall
    apply hchecked.octet_ne
    rw [← Bool.not_eq_true]
    intro htrue
    obtain ⟨item, hmem, hitem⟩ := hfailed htrue
    rw [hall item hmem] at hitem
    exact nomatch hitem
  rw [lanRange_text_iff hchecked.addr_lt, rangeStart, rangeEnd, hs, he]
  constructor
  · rintro ⟨⟨hblocks, hnes⟩, hblocke, hnee⟩
    refine ⟨?_, .inr ⟨hnes, hnee⟩⟩
    rcases hblocks with hk | hblocks
    · exact .inl hk
    · exact hblocke.imp_right fun hblocke => ⟨hblocks, hblocke⟩
  · rintro ⟨hblock, hbox⟩
    obtain ⟨hnes, hnee⟩ := hbox.elim hread fun h => h
    rcases hblock with hk | ⟨hblocks, hblocke⟩
    · exact ⟨⟨.inl hk, hnes⟩, .inl hk, hnee⟩
    · exact ⟨⟨.inr hblocks, hnes⟩, .inr hblocke, hnee⟩

/-- A daemon that has the address and the mask stored, and does what it is asked to. -/
def storedDaemon (box mask : Ipv4) : (q : NbdCall) → q.Answer :=
  NbdCall.daemon (Nbd.daemon (fun key =>
    if key = "lan_ipaddr" then some box.text
    else if key = "lan_netmask" then some mask.text
    else none) none fun _ => 0)

def rangeForm (dhcpStartP3 dhcpEndP3 : String) : Form where
  query varName :=
    if varName = "dhcp_start_p3" then some dhcpStartP3
    else if varName = "dhcp_end_p3" then some dhcpEndP3
    else if varName = "action" then none
    else some "on"
  valid _ _ := true

/-- A range from 10 to 200 in `192.168.1.0/24`. -/
theorem dhcp_range_iff_24 :
    let trace := (networkDhcpForm (.libnbu fun _ _ _ _ _ _ => none) (rangeForm "10" "200")).trace
      (storedDaemon ⟨192, 168, 1, 1⟩ ⟨255, 255, 255, 0⟩)
    .asked (.config (.cset 1 "dhcp_start" "192.168.1.10")) nvSetSuccess ∈ trace ∧
      .asked (.config (.cset 1 "dhcp_end" "192.168.1.200")) nvSetSuccess ∈ trace ∧
      LanRange ⟨192, 168, 1, 1⟩ ⟨255, 255, 255, 0⟩ "192.168.1.10" "192.168.1.200" := by
  intro trace
  have htrace : trace = [.asked (.config (.nvGet "lan_ipaddr")) (some "192.168.1.1"),
      .asked (.config (.nvGet "lan_netmask")) (some "255.255.255.0"),
      .asked (.config (.nvGet "lan_ipaddr")) (some "192.168.1.1"),
      .asked (.config .cursorNew) (1 : Int),
      .asked (.config (.cset 1 "dhcp_active" "on")) nvSetSuccess,
      .asked (.config (.cset 1 "dhcp_start" "192.168.1.10")) nvSetSuccess,
      .asked (.config (.cset 1 "dhcp_end" "192.168.1.200")) nvSetSuccess,
      .asked (.config (.cset 1 "dhcp_lease" "on")) nvSetSuccess,
      .asked (.config (.cursorCommit 1)) nvCommitSuccess,
      .asked (.config (.cursorClose 1)) (0 : Int),
      .asked (.sysAsyncRun "/etc/init.d/dhcpd" "restart") (0 : Int)] := rfl
  have hstart : .asked (.config (.cset 1 "dhcp_start" "192.168.1.10")) nvSetSuccess ∈ trace := by
    rw [htrace]
    simp
  have hend : .asked (.config (.cset 1 "dhcp_end" "192.168.1.200")) nvSetSuccess ∈ trace := by
    rw [htrace]
    simp
  have hbox : "192.168.1.1" = (⟨192, 168, 1, 1⟩ : Ipv4).text := by decide
  have hmask : "255.255.255.0" = (⟨255, 255, 255, 0⟩ : Ipv4).text := by decide
  have hstored : ∀ item ∈ trace, AnswersStored ⟨192, 168, 1, 1⟩ ⟨255, 255, 255, 0⟩ item := by
    rw [htrace]
    simp [AnswersStored, hbox, hmask]
  refine ⟨hstart, hend, (dhcp_range_iff _ _ _ _ 24 (by decide) (ran_trace _ _) hstored hstart
    hend).mpr ⟨.inl (by decide), .inl ?_⟩⟩
  show ∀ item ∈ trace, readFailed item = false
  rw [htrace]
  simp [readFailed]

/-- The box is in the lower half of `192.168.1.0/24`, and the range is set in the upper one. -/
theorem dhcp_range_outside :
    let trace := (networkDhcpForm (.libnbu fun _ _ _ _ _ _ => none) (rangeForm "129" "200")).trace
      (storedDaemon ⟨192, 168, 1, 1⟩ ⟨255, 255, 255, 128⟩)
    trace = [.asked (.config (.nvGet "lan_ipaddr")) (some "192.168.1.1"),
        .asked (.config (.nvGet "lan_netmask")) (some "255.255.255.128"),
        .asked (.config (.nvGet "lan_ipaddr")) (some "192.168.1.1"),
        .asked (.config .cursorNew) (1 : Int),
        .asked (.config (.cset 1 "dhcp_active" "on")) nvSetSuccess,
        .asked (.config (.cset 1 "dhcp_start" "192.168.1.129")) nvSetSuccess,
        .asked (.config (.cset 1 "dhcp_end" "192.168.1.200")) nvSetSuccess,
        .asked (.config (.cset 1 "dhcp_lease" "on")) nvSetSuccess,
        .asked (.config (.cursorCommit 1)) nvCommitSuccess,
        .asked (.config (.cursorClose 1)) (0 : Int),
        .asked (.sysAsyncRun "/etc/init.d/dhcpd" "restart") (0 : Int)] ∧
      ¬LanRange ⟨192, 168, 1, 1⟩ ⟨255, 255, 255, 128⟩ "192.168.1.129" "192.168.1.200" := by
  intro trace
  refine ⟨rfl, ?_⟩
  rintro ⟨s, e, hs, -, hhost, -, -⟩
  have htext : "192.168.1.129" = (⟨192, 168, 1, 129⟩ : Ipv4).text := by decide
  obtain rfl : s = ⟨192, 168, 1, 129⟩ := Ipv4.text_injective (hs.symm.trans htext)
  exact absurd (mem_subnet.mp hhost.inSubnet) (by decide)

end Neufbox.Www
