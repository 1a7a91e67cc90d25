import Mathlib.Algebra.Order.BigOperators.Group.List
import Mathlib.Algebra.Order.Ring.Nat
import Neufbox.LanTopology.Plc

/-!
# What the power-line discovery finds

`Discovery` is a well-formed frame of type `0xa039`, with stations of any number in every network.
`mme_discover` walks the networks as an array, whose elements have one station each: it asks the
right stations in all frames with given numbers of stations exactly if every network but the last
has one (`mmeDiscover_frame_iff`).  It does not look at the length of the frame either; it reads
nothing behind it exactly if the records that it walks are inside (`mmeDiscover_inside_iff`).
-/

namespace Neufbox.LanTopology

open Records

/-! ### Well-formed frames -/

structure Station where
  mac : EtherAddr
  /-- `TEI`, `BDA`, `AVGTX` and `AVGRX` -/
  rest : Vector UInt8 9

def Station.bytes (station : Station) : List UInt8 := station.mac.toList ++ station.rest.toList

structure Network where
  /-- `NID`, `SNID`, `TEI`, `ROLE`, `CCO_MACADDR` and `CCO_TEI` -/
  header : Vector UInt8 17
  stations : List Station
  length_lt : stations.length < 256

def Network.bytes (network : Network) : List UInt8 :=
  network.header.toList ++ UInt8.ofNat network.stations.length ::
    network.stations.flatMap Station.bytes

/-- A frame of type `0xa039` that is well formed. -/
structure Discovery where
  /-- `ether_dhost` and `ether_shost` -/
  addresses : Vector UInt8 12
  mmeV : UInt8
  mmeOui : Vector UInt8 3
  networks : List Network
  padding : List UInt8
  length_lt : networks.length < 256

def Discovery.data (d : Discovery) : List UInt8 :=
  UInt8.ofNat d.networks.length :: (d.networks.flatMap Network.bytes ++ d.padding)

def Discovery.frame (d : Discovery) : List UInt8 :=
  d.addresses.toList ++ (Endian.big.encode 2 0x88e1 ++
    (d.mmeV :: (Endian.little.encode 2 0xa039 ++ (d.mmeOui.toList ++ d.data))))

/-- The numbers of stations. -/
def Discovery.shape (d : Discovery) : List ℕ :=
  d.networks.map fun network => network.stations.length

/-- One request to each station of each network, in order. -/
def Discovery.requests (lanEthaddr : EtherAddr) (d : Discovery) : List PlcAction :=
  d.networks.flatMap fun network =>
    network.stations.map fun station => mmeRequest lanEthaddr.toList station.mac.toList 0xa000

/-- The frame, without padding, can be received. -/
def FitsFrame (shape : List ℕ) : Prop :=
  21 + (shape.map fun stations => 18 + 15 * stations).sum ≤ ethFrameLen

instance (shape : List ℕ) : Decidable (FitsFrame shape) := by unfold FitsFrame; infer_instance

theorem Station.length_bytes (station : Station) : station.bytes.length = 15 := by
  simp [Station.bytes]

theorem length_flatMap_bytes (stations : List Station) :
    (stations.flatMap Station.bytes).length = 15 * stations.length := by
  induction stations with
  | nil => rfl
  | cons station stations ih =>
    rw [List.flatMap_cons, List.length_append, ih, Station.length_bytes, List.length_cons]
    omega

theorem Network.length_bytes (network : Network) :
    network.bytes.length = 18 + 15 * network.stations.length := by
  rw [Network.bytes, List.length_append, List.length_cons, length_flatMap_bytes,
    Vector.length_toList]
  omega

/-! ### The frame as it is walked -/

section

variable {lanEthaddr : EtherAddr}

/-- The type of the frame is found. -/
theorem mmeDiscover_frame (d : Discovery) (stack : List UInt8) :
    mmeDiscover lanEthaddr d.frame stack
      = (discoverNetworks lanEthaddr (d.data ++ stack)).map (0, ·) := by
  have hmem : d.frame ++ stack = d.addresses.toList ++ (Endian.big.encode 2 0x88e1 ++
      (d.mmeV :: (Endian.little.encode 2 0xa039 ++ (d.mmeOui.toList ++ (d.data ++ stack))))) := by
    simp [Discovery.frame]
  have htype : (d.frame ++ stack).drop offsetofEtherType = Endian.big.encode 2 0x88e1 ++
      (d.mmeV :: (Endian.little.encode 2 0xa039 ++ (d.mmeOui.toList ++ (d.data ++ stack)))) := by
    rw [hmem, List.drop_left' (by simp [offsetofEtherType])]
  have hmme : (d.frame ++ stack).drop sizeofEtherHeader =
      d.mmeV :: (Endian.little.encode 2 0xa039 ++ (d.mmeOui.toList ++ (d.data ++ stack))) := by
    rw [hmem, ← List.append_assoc, List.drop_left' (by simp [sizeofEtherHeader])]
  have hdata : ((d.frame ++ stack).drop sizeofEtherHeader).drop sizeofMmeHeader
      = d.data ++ stack := by
    rw [hmme, ← List.cons_append, ← List.append_assoc, List.drop_left' (by simp [sizeofMmeHeader])]
  rw [mmeDiscover, if_neg (by simp [Discovery.frame])]
  dsimp only
  rw [htype, bytes?_left (by simp), hdata, hmme]
  have hbig : Endian.big.decode (Endian.big.encode 2 0x88e1) = 0x88e1 :=
    Endian.decode_encode _ (by decide)
  have hlittle : Endian.little.decode (Endian.little.encode 2 0xa039) = 0xa039 :=
    Endian.decode_encode _ (by decide)
  have hmmeType : bytes? 2 ((d.mmeV :: (Endian.little.encode 2 0xa039 ++
      (d.mmeOui.toList ++ (d.data ++ stack)))).drop offsetofMmeType)
        = some (Endian.little.encode 2 0xa039) :=
    bytes?_left (by simp) _
  simp only [Option.bind_eq_bind, Option.bind_some, hbig, hmmeType, hlittle, ne_eq, not_true,
    if_false, if_true]
  cases discoverNetworks lanEthaddr (d.data ++ stack) <;> rfl

/-- A network that starts where it is looked for. -/
theorem discoverStations_bytes (network : Network) (l : List UInt8) :
    discoverStations lanEthaddr (network.bytes ++ l)
      = some (network.stations.map fun station =>
        mmeRequest lanEthaddr.toList station.mac.toList 0xa000) := by
  have hnum : (network.bytes ++ l)[offsetofNetworkNum]?
      = some (UInt8.ofNat network.stations.length) := by
    simp [Network.bytes, offsetofNetworkNum]
  have hstations : (network.bytes ++ l).drop offsetofNetworkStation
      = network.stations.flatMap Station.bytes ++ l := by
    rw [Network.bytes, ← List.singleton_append, ← List.append_assoc, List.append_assoc _ _ l,
      List.drop_left' (by simp [offsetofNetworkStation])]
  have hlength : (UInt8.ofNat network.stations.length).toNat = network.stations.length :=
    UInt8.toNat_ofNat_of_lt network.length_lt
  rw [discoverStations, hnum]
  simp only [Option.bind_eq_bind, Option.bind_some, hlength]
  rw [List.map_eq_flatMap]
  refine gather_eq_flatMap fun j hj => ?_
  rw [← List.drop_drop, hstations, sizeofStation,
    drop_flatMap_append l hj.le (fun station _ => station.length_bytes),
    List.drop_eq_getElem_cons hj, List.flatMap_cons, List.append_assoc, Station.bytes,
    List.append_assoc, bytes?_left (by simp)]
  rfl

/-- As many networks are looked for as there are. -/
theorem discoverNetworks_data_eq (d : Discovery) (stack : List UInt8) :
    discoverNetworks lanEthaddr (d.data ++ stack)
      = gather (fun i => discoverStations lanEthaddr
        ((d.data ++ stack).drop (offsetofNetworksNetwork + sizeofNetwork * i)))
      d.networks.length := by
  have hlength : (UInt8.ofNat d.networks.length).toNat = d.networks.length :=
    UInt8.toNat_ofNat_of_lt d.length_lt
  have hnum : (d.data ++ stack)[0]? = some (UInt8.ofNat d.networks.length) := rfl
  rw [discoverNetworks, hnum, Option.bind_eq_bind, Option.bind_some, hlength]

/-- Where every network but the last has one station, all are where they are looked for. -/
theorem discoverNetworks_data (d : Discovery) (h : ∀ stations ∈ d.shape.dropLast, stations = 1)
    (stack : List UInt8) :
    discoverNetworks lanEthaddr (d.data ++ stack) = some (d.requests lanEthaddr) := by
  rw [discoverNetworks_data_eq]
  refine gather_eq_flatMap fun i hi => ?_
  have hsize : ∀ network ∈ d.networks.take i, network.bytes.length = sizeofNetwork := by
    intro network hnetwork
    have hmem : network ∈ d.networks.dropLast := by
      rw [List.dropLast_eq_take]
      exact List.take_subset_take_left d.networks (by omega) hnetwork
    have hone : network.stations.length = 1 := by
      refine h _ ?_
      rw [Discovery.shape, ← List.map_dropLast]
      exact List.mem_map_of_mem hmem
    rw [Network.length_bytes, hone, sizeofNetwork]
  rw [← List.drop_drop, offsetofNetworksNetwork, Discovery.data, List.cons_append, List.drop_one,
    List.tail_cons, List.append_assoc, drop_flatMap_append _ hi.le hsize,
    List.drop_eq_getElem_cons hi, List.flatMap_cons,
    List.append_assoc, discoverStations_bytes]

/-! ### Frames that are misread -/

/-- All bytes but the counts are 255. -/
def Station.uniform : Station := ⟨Vector.replicate 6 255, Vector.replicate 9 255⟩

def Network.uniform (stations : ℕ) : Network where
  header := Vector.replicate 17 255
  stations := List.replicate (stations % 256) .uniform
  length_lt := by
    rw [List.length_replicate]
    exact Nat.mod_lt _ (by decide)

def Discovery.uniform (shape : List ℕ) (h : shape.length < 256) : Discovery where
  addresses := Vector.replicate 12 255
  mmeV := 255
  mmeOui := Vector.replicate 3 255
  networks := shape.map .uniform
  padding := []
  length_lt := by rwa [List.length_map]

theorem Network.bytes_uniform (stations : ℕ) :
    (Network.uniform stations).bytes
      = List.replicate 17 255 ++ UInt8.ofNat (stations % 256) ::
        List.replicate (15 * (stations % 256)) 255 := by
  have hstations : ∀ k, (List.replicate k Station.uniform).flatMap Station.bytes
      = List.replicate (15 * k) 255 := by
    intro k
    induction k with
    | zero => rfl
    | succ k ih =>
      rw [List.replicate_succ, List.flatMap_cons, ih, Nat.mul_succ, Nat.add_comm,
        ← List.replicate_append_replicate]
      rfl
  rw [Network.bytes, Network.uniform, List.length_replicate, hstations]
  rfl

/-- The bytes behind the count of a network, up to the next count. -/
theorem getElem?_bytes_uniform {stations k : ℕ} (hlt : stations < 256) (hle : 18 ≤ k)
    (hk : k < 18 + 15 * stations + 17) (l : List UInt8) :
    ((Network.uniform stations).bytes ++ (List.replicate 17 255 ++ l))[k]? = some 255 := by
  have hbytes : (Network.uniform stations).bytes ++ (List.replicate 17 255 ++ l)
      = (List.replicate 17 255 ++ [UInt8.ofNat stations]) ++
        (List.replicate (15 * stations + 17) 255 ++ l) := by
    rw [Network.bytes_uniform, Nat.mod_eq_of_lt hlt, ← List.replicate_append_replicate]
    simp only [List.append_assoc, List.cons_append, List.nil_append]
  have hhead : (List.replicate 17 255 ++ [UInt8.ofNat stations]).length = 18 := by simp
  rw [hbytes, List.getElem?_append_right (hhead.trans_le hle), hhead,
    List.getElem?_append_left (by rw [List.length_replicate]; omega),
    List.getElem?_replicate_of_lt (by omega)]

/-- After a network that has not one station, the count of the next is read from another byte. -/
theorem getElem?_misread {stations next : ℕ} (hne : stations ≠ 1) (hlt : stations < 256)
    (hlt' : next < 256) (l : List UInt8) :
    ((Network.uniform stations).bytes ++
      ((Network.uniform next).bytes ++ (List.replicate 17 255 ++ l)))[50]? = some 255 := by
  obtain rfl | hge : stations = 0 ∨ 2 ≤ stations := by omega
  · rw [List.getElem?_append_right (by rw [Network.length_bytes]; decide)]
    have hindex : 50 - (Network.uniform 0).bytes.length = 32 := by rw [Network.length_bytes]; rfl
    rw [hindex]
    exact getElem?_bytes_uniform hlt' (by decide) (by omega) l
  · rw [Network.bytes_uniform next, List.append_assoc]
    exact getElem?_bytes_uniform hlt (by decide) (by omega) _

/-- The first network that has not one station, with the one after it. -/
theorem exists_first_ne_one {shape : List ℕ} (h : ¬∀ stations ∈ shape.dropLast, stations = 1) :
    ∃ ones stations next rest, shape = ones ++ stations :: next :: rest ∧
      (∀ one ∈ ones, one = 1) ∧ stations ≠ 1 := by
  induction shape with
  | nil => exact absurd (by simp) h
  | cons stations shape ih =>
    cases shape with
    | nil => exact absurd (by simp) h
    | cons next rest =>
      by_cases hone : stations = 1
      · have htail : ¬∀ stations ∈ (next :: rest).dropLast, stations = 1 := by
          intro htail
          exact h (by simpa [hone] using htail)
        obtain ⟨ones, stations', next', rest', heq, hones, hne⟩ := ih htail
        refine ⟨stations :: ones, stations', next', rest', by rw [heq, List.cons_append], ?_, hne⟩
        simpa [hone] using hones
      · exact ⟨[], stations, next, rest, rfl, by simp, hone⟩

theorem sum_map_sizes (shape : List ℕ) :
    (shape.map fun stations => 18 + 15 * stations).sum = 18 * shape.length + 15 * shape.sum := by
  induction shape with
  | nil => rfl
  | cons stations shape ih =>
    rw [List.map_cons, List.sum_cons, ih, List.length_cons, List.sum_cons]
    omega

theorem FitsFrame.bounds {shape : List ℕ} (h : FitsFrame shape) :
    shape.length < 256 ∧ shape.sum < 255 ∧ ∀ stations ∈ shape, stations < 256 := by
  rw [FitsFrame, sum_map_sizes, ethFrameLen] at h
  refine ⟨by omega, by omega, fun stations hmem => ?_⟩
  have := List.le_sum_of_mem hmem
  omega

theorem length_requests (d : Discovery) : (d.requests lanEthaddr).length = d.shape.sum := by
  simp [Discovery.requests, Discovery.shape, List.length_flatMap]

theorem shape_uniform {shape : List ℕ} (hlength : shape.length < 256)
    (hlt : ∀ stations ∈ shape, stations < 256) :
    (Discovery.uniform shape hlength).shape = shape := by
  have hmod : ∀ stations ∈ shape, (Network.uniform stations).stations.length = stations := by
    intro stations hmem
    rw [Network.uniform, List.length_replicate, Nat.mod_eq_of_lt (hlt stations hmem)]
  rw [Discovery.shape, Discovery.uniform, List.map_map]
  exact (List.map_congr_left hmod).trans (List.map_id shape)

/-- A network with 255 stations, where there is none. -/
theorem length_discoverStations {network : List UInt8} {num : UInt8}
    (hnum : network[offsetofNetworkNum]? = some num) {requests : List PlcAction}
    (h : discoverStations lanEthaddr network = some requests) : requests.length = num.toNat := by
  rw [discoverStations, hnum] at h
  refine length_gather (fun j ys hys => ?_) h
  simp only [Option.bind_eq_bind, Option.bind_eq_some_iff, Option.some_inj] at hys
  obtain ⟨mac, -, rfl⟩ := hys
  rfl

theorem length_frame (d : Discovery) :
    d.frame.length
      = 21 + (d.shape.map fun stations => 18 + 15 * stations).sum + d.padding.length := by
  have hnetworks : (d.networks.flatMap Network.bytes).length
      = (d.shape.map fun stations => 18 + 15 * stations).sum := by
    rw [List.length_flatMap, Discovery.shape, List.map_map]
    exact congrArg List.sum (List.map_congr_left fun network _ => network.length_bytes)
  simp only [Discovery.frame, Discovery.data, List.length_append, List.length_cons, hnetworks,
    Vector.length_toList, Endian.length_encode]
  omega

/-- The networks after the ones with one station, with what is behind the frame. -/
theorem drop_uniform {ones : List ℕ} (hones : ∀ one ∈ ones, one = 1) (stations next : ℕ)
    (rest : List ℕ) :
    ∃ l, (((ones ++ stations :: next :: rest).map Network.uniform).flatMap Network.bytes ++
        List.replicate 17 255).drop (sizeofNetwork * ones.length)
      = (Network.uniform stations).bytes ++
        ((Network.uniform next).bytes ++ (List.replicate 17 255 ++ l)) := by
  have hones' : ones.length = (ones.map Network.uniform).length := List.length_map _ |>.symm
  have hsize :
      ∀ network ∈ ((ones ++ stations :: next :: rest).map Network.uniform).take ones.length,
      network.bytes.length = sizeofNetwork := by
    rw [List.map_append, List.take_left' hones'.symm]
    intro network hmem
    obtain ⟨one, hone, rfl⟩ := List.mem_map.mp hmem
    rw [hones one hone]
    exact Network.length_bytes _
  rw [drop_flatMap_append _ (by simp) hsize, List.map_append, List.drop_left' hones'.symm]
  cases rest with
  | nil => exact ⟨[], by simp⟩
  | cons network rest =>
    refine ⟨UInt8.ofNat (network % 256) :: List.replicate (15 * (network % 256)) 255 ++
      ((rest.map Network.uniform).flatMap Network.bytes ++ List.replicate 17 255), ?_⟩
    simp only [List.map_cons, List.flatMap_cons, Network.bytes_uniform network, List.append_assoc]

/-- Where the number of stations of the next network is looked for. -/
theorem num_misread {ones : List ℕ} (hones : ∀ one ∈ ones, one = 1) {stations next : ℕ}
    (hne : stations ≠ 1) (hstations : stations < 256) (hnext : next < 256) {rest : List ℕ}
    (hlength : (ones ++ stations :: next :: rest).length < 256) :
    (((Discovery.uniform _ hlength).data ++ List.replicate 17 255).drop
      (offsetofNetworksNetwork + sizeofNetwork * (ones.length + 1)))[offsetofNetworkNum]?
        = some 255 := by
  obtain ⟨l, hdrop⟩ := drop_uniform hones stations next rest
  have hnum := getElem?_misread hne hstations hnext l
  rw [← hdrop, List.getElem?_drop] at hnum
  rw [List.getElem?_drop, Discovery.data, Discovery.uniform, List.append_nil, List.cons_append,
    ← hnum]
  have hindex : offsetofNetworksNetwork + sizeofNetwork * (ones.length + 1) + offsetofNetworkNum
      = sizeofNetwork * ones.length + 50 + 1 := by
    rw [offsetofNetworksNetwork, sizeofNetwork, offsetofNetworkNum]
    omega
  rw [hindex, List.getElem?_cons_succ]

/-- Where another network but the last has not one station, a frame is misread. -/
theorem exists_misread {shape : List ℕ} (hfits : FitsFrame shape)
    (h : ¬∀ stations ∈ shape.dropLast, stations = 1) :
    ∃ d : Discovery, d.shape = shape ∧ d.frame.length ≤ ethFrameLen ∧
      ∃ stack, mmeDiscover lanEthaddr d.frame stack ≠ some (0, d.requests lanEthaddr) := by
  obtain ⟨hlength, hsum, hlt⟩ := hfits.bounds
  have hshape := shape_uniform hlength hlt
  refine ⟨.uniform shape hlength, hshape, ?_, List.replicate 17 255, fun heq => ?_⟩
  · rw [length_frame, hshape]
    exact hfits
  rw [mmeDiscover_frame, Option.map_eq_some_iff] at heq
  obtain ⟨requests, hrequests, hpair⟩ := heq
  obtain ⟨-, rfl⟩ := Prod.mk.inj hpair
  obtain ⟨ones, stations, next, rest, rfl, hones, hne⟩ := exists_first_ne_one h
  have hmisread := num_misread hones hne (hlt stations (by simp)) (hlt next (by simp)) hlength
  -- 255 stations are found in one network; the frame has fewer altogether.
  rw [discoverNetworks_data_eq] at hrequests
  have hnext : ones.length + 1
      < (Discovery.uniform (ones ++ stations :: next :: rest) hlength).networks.length := by
    simp [Discovery.uniform]
  obtain ⟨ys, hys, hle⟩ := length_le_of_gather hrequests hnext
  have hcount := length_discoverStations hmisread hys
  rw [length_requests, hshape, hcount] at hle
  exact absurd hsum (not_lt_of_ge hle)

theorem mmeDiscover_frame_iff {shape : List ℕ} (hfits : FitsFrame shape) :
    (∀ d : Discovery, d.shape = shape → d.frame.length ≤ ethFrameLen → ∀ stack,
      mmeDiscover lanEthaddr d.frame stack = some (0, d.requests lanEthaddr)) ↔
      ∀ stations ∈ shape.dropLast, stations = 1 := by
  constructor
  · intro h
    by_contra hne
    obtain ⟨d, hshape, hlength, stack, hmisread⟩ := exists_misread hfits hne
    exact hmisread (h d hshape hlength stack)
  · rintro h d rfl - stack
    rw [mmeDiscover_frame, discoverNetworks_data d h, Option.map_some]

/-! ### What is read -/

/-- The stations of a network are inside the frame, which is given from the network on. -/
def StationsInside (network : List UInt8) : Prop :=
  offsetofNetworkStation ≤ network.length ∧
    ∀ j < (network.getD offsetofNetworkNum 0).toNat,
      offsetofNetworkStation + sizeofStation * j + 6 ≤ network.length

/-- All records that are walked are inside the frame. -/
def NetworksInside (networks : List UInt8) : Prop :=
  offsetofNetworksNetwork ≤ networks.length ∧
    ∀ i < (networks.getD 0 0).toNat,
      StationsInside (networks.drop (offsetofNetworksNetwork + sizeofNetwork * i))

/-- All that is read of the frame is inside. -/
def Inside (frame : List UInt8) : Prop :=
  let mme := frame.drop sizeofEtherHeader
  let data := mme.drop sizeofMmeHeader
  frame = [] ∨ sizeofEtherHeader ≤ frame.length ∧
    (Endian.big.decode ((frame.drop offsetofEtherType).take 2) = 0x88e1 →
      offsetofMmeType + 2 ≤ mme.length ∧
      (Endian.little.decode ((mme.drop offsetofMmeType).take 2) = 0xa039 → NetworksInside data) ∧
      (Endian.little.decode ((mme.drop offsetofMmeType).take 2) = 0xa001 →
        0 ∈ data.drop offsetofInfoVersion))

theorem getElem?_eq_getD {l : List UInt8} {k : ℕ} (h : k < l.length) :
    l[k]? = some (l.getD k 0) := by
  rw [List.getD_eq_getElem?_getD, List.getElem?_eq_getElem h, Option.getD_some]

theorem isSome_discoverStations (network : List UInt8) :
    (discoverStations lanEthaddr network).isSome ↔ StationsInside network := by
  unfold discoverStations StationsInside
  by_cases hle : offsetofNetworkStation ≤ network.length
  · have hlt : offsetofNetworkNum < network.length := hle
    have hstation : ∀ j, (do
        let mac ← bytes? 6 (network.drop (offsetofNetworkStation + sizeofStation * j))
        some [mmeRequest lanEthaddr.toList mac 0xa000]).isSome ↔
        offsetofNetworkStation + sizeofStation * j + 6 ≤ network.length := by
      intro j
      rw [Option.bind_eq_bind, isSome_bytes?_bind, List.length_drop]
      simp only [Option.isSome_some, and_true]
      omega
    simp only [getElem?_eq_getD hlt, Option.bind_eq_bind, Option.bind_some, isSome_gather, hle,
      true_and]
    exact forall₂_congr fun j _ => hstation j
  · have hnone : network[offsetofNetworkNum]? = none := List.getElem?_eq_none (Nat.not_lt.mp hle)
    simp [hnone, hle]

theorem isSome_discoverNetworks (networks : List UInt8) :
    (discoverNetworks lanEthaddr networks).isSome ↔ NetworksInside networks := by
  unfold discoverNetworks NetworksInside
  by_cases hle : offsetofNetworksNetwork ≤ networks.length
  · have hlt : 0 < networks.length := hle
    simp only [getElem?_eq_getD hlt, Option.bind_eq_bind, Option.bind_some, isSome_gather, hle,
      true_and, isSome_discoverStations]
  · have hnone : networks[0]? = none := List.getElem?_eq_none (Nat.not_lt.mp hle)
    simp [hnone, hle]

theorem isSome_mmeDiscover (frame : List UInt8) :
    (mmeDiscover lanEthaddr frame []).isSome ↔ Inside frame := by
  by_cases hnil : frame = []
  · simp [mmeDiscover, Inside, hnil]
  rw [mmeDiscover, if_neg (by simpa using hnil), List.append_nil, Inside]
  simp only [Option.bind_eq_bind]
  rw [or_iff_right hnil, isSome_bytes?_bind]
  have hether : 2 ≤ (frame.drop offsetofEtherType).length ↔ sizeofEtherHeader ≤ frame.length := by
    rw [List.length_drop, offsetofEtherType, sizeofEtherHeader]
    omega
  rw [hether]
  refine and_congr_right fun hle => ?_
  by_cases hplc : Endian.big.decode ((frame.drop offsetofEtherType).take 2) = 0x88e1
  swap
  · simp [hplc]
  rw [if_neg (not_not_intro hplc), forall_prop_of_true hplc, isSome_bytes?_bind]
  have hmme : 2 ≤ ((frame.drop sizeofEtherHeader).drop offsetofMmeType).length ↔
      offsetofMmeType + 2 ≤ (frame.drop sizeofEtherHeader).length := by
    rw [List.length_drop]
    omega
  rw [hmme]
  refine and_congr_right fun _ => ?_
  generalize Endian.little.decode (((frame.drop sizeofEtherHeader).drop offsetofMmeType).take 2)
    = mmeType
  split_ifs with hnetworks hinfo
  · rw [Option.isSome_bind]
    simp [hnetworks, isSome_discoverNetworks]
  · have hshost : 6 ≤ (frame.drop offsetofEtherShost).length := by
      rw [List.length_drop, offsetofEtherShost]
      rw [sizeofEtherHeader] at hle
      omega
    rw [isSome_bytes?_bind, and_iff_right hshost, isSome_upTo?_bind]
    simp [hinfo]
  · simp [hnetworks, hinfo]

theorem discoverStations_append {network : List UInt8} {requests : List PlcAction}
    (h : discoverStations lanEthaddr network = some requests) (l : List UInt8) :
    discoverStations lanEthaddr (network ++ l) = some requests := by
  obtain ⟨num, hnum, hgather⟩ := Option.bind_eq_some_iff.mp h
  refine Option.bind_eq_some_iff.mpr ⟨num, getElem?_append_of_some hnum l, ?_⟩
  refine gather_mono (fun j _ ys hys => ?_) hgather
  obtain ⟨mac, hmac, hys⟩ := Option.bind_eq_some_iff.mp hys
  refine Option.bind_eq_some_iff.mpr ⟨mac, ?_, hys⟩
  rw [List.drop_append]
  exact bytes?_append hmac _

theorem discoverNetworks_append {networks : List UInt8} {requests : List PlcAction}
    (h : discoverNetworks lanEthaddr networks = some requests) (l : List UInt8) :
    discoverNetworks lanEthaddr (networks ++ l) = some requests := by
  obtain ⟨num, hnum, hgather⟩ := Option.bind_eq_some_iff.mp h
  refine Option.bind_eq_some_iff.mpr ⟨num, getElem?_append_of_some hnum l, ?_⟩
  refine gather_mono (fun i _ ys hys => ?_) hgather
  rw [List.drop_append]
  exact discoverStations_append hys _

/-- What is done without reading behind the frame does not depend on what is there. -/
theorem mmeDiscover_append {frame : List UInt8} {result : Int × List PlcAction}
    (h : mmeDiscover lanEthaddr frame [] = some result) (stack : List UInt8) :
    mmeDiscover lanEthaddr frame stack = some result := by
  unfold mmeDiscover at h ⊢
  rw [List.append_nil] at h
  split_ifs at h ⊢ with hnil
  · exact h
  obtain ⟨etherType, hether, h⟩ := Option.bind_eq_some_iff.mp h
  simp only [List.drop_append]
  refine Option.bind_eq_some_iff.mpr ⟨etherType, bytes?_append hether _, ?_⟩
  split_ifs at h ⊢ with htype
  · exact h
  obtain ⟨mmeType, hmme, h⟩ := Option.bind_eq_some_iff.mp h
  refine Option.bind_eq_some_iff.mpr ⟨mmeType, bytes?_append hmme _, ?_⟩
  split_ifs at h ⊢ with hnetworks hinfo
  · obtain ⟨requests, hrequests, h⟩ := Option.bind_eq_some_iff.mp h
    exact Option.bind_eq_some_iff.mpr ⟨requests, discoverNetworks_append hrequests _, h⟩
  · obtain ⟨etherShost, hshost, h⟩ := Option.bind_eq_some_iff.mp h
    obtain ⟨version, hversion, h⟩ := Option.bind_eq_some_iff.mp h
    exact Option.bind_eq_some_iff.mpr ⟨etherShost, bytes?_append hshost _,
      Option.bind_eq_some_iff.mpr ⟨version, upTo?_append hversion _, h⟩⟩
  · exact h

theorem mmeDiscover_inside_iff (frame : List UInt8) :
    (∃ result, ∀ stack, mmeDiscover lanEthaddr frame stack = some result) ↔ Inside frame := by
  have hsome : (mmeDiscover lanEthaddr frame []).isSome ↔ Inside frame := isSome_mmeDiscover frame
  rw [← hsome, Option.isSome_iff_exists]
  constructor
  · rintro ⟨result, h⟩
    exact ⟨result, h []⟩
  · rintro ⟨result, h⟩
    exact ⟨result, mmeDiscover_append h⟩

end

/-- **Power-line discovery.**  All frames with given numbers of stations are answered with one
request to each station, in order, exactly if every network but the last has one station.  Nothing
behind a frame is used exactly if what is read of it is inside. -/
theorem plc_discovery_iff (lanEthaddr : EtherAddr) :
    (∀ shape, FitsFrame shape →
      ((∀ d : Discovery, d.shape = shape → d.frame.length ≤ ethFrameLen → ∀ stack,
          mmeDiscover lanEthaddr d.frame stack = some (0, d.requests lanEthaddr)) ↔
        ∀ stations ∈ shape.dropLast, stations = 1)) ∧
    ∀ frame, (∃ result, ∀ stack, mmeDiscover lanEthaddr frame stack = some result) ↔ Inside frame :=
  ⟨fun _ hfits => mmeDiscover_frame_iff hfits, mmeDiscover_inside_iff⟩

/-- A network with one station and one with two. -/
theorem plc_discovery_iff_three :
    mmeDiscover (Vector.replicate 6 0) (Discovery.uniform [1, 2] (by decide)).frame []
      = some (0, (Discovery.uniform [1, 2] (by decide)).requests (Vector.replicate 6 0)) :=
  ((plc_discovery_iff (Vector.replicate 6 0)).1 [1, 2] (by decide)).mpr (by decide)
    (Discovery.uniform [1, 2] (by decide)) (by decide) (by decide) []

/-- A network with the stations 1 and 2, and one with the station 3. -/
def threeStations : Discovery where
  addresses := Vector.replicate 12 0
  mmeV := 0
  mmeOui := #v[0x00, 0xB0, 0x52]
  networks :=
    [⟨Vector.replicate 17 0, [⟨#v[0, 0, 0, 0, 0, 1], Vector.replicate 9 0⟩,
        ⟨#v[0, 0, 0, 0, 0, 2], Vector.replicate 9 0⟩], by decide⟩,
      ⟨Vector.replicate 17 0, [⟨#v[0, 0, 0, 0, 0, 3], Vector.replicate 9 0⟩], by decide⟩]
  padding := []
  length_lt := by decide

/-- A frame of type `0xa001` that ends with the first character of the version. -/
def shortInfo : List UInt8 :=
  List.replicate 12 0 ++ [0x88, 0xe1, 0x00, 0x01, 0xa0, 0x00, 0xB0, 0x52, 0x00, 0x01, 0x02, 0x41]

/-- The third station is not asked, and the version goes on behind the frame. -/
theorem third_station_not_asked :
    mmeDiscover (Vector.replicate 6 0) threeStations.frame []
        = some (0, (threeStations.requests (Vector.replicate 6 0)).take 2) ∧
      (threeStations.requests (Vector.replicate 6 0)).length = 3 ∧
    mmeDiscover (Vector.replicate 6 0) shortInfo [0x42, 0x00]
      = some (0, [.plcAdd "00:00:00:00:00:00" [0x41, 0x42]]) ∧
    mmeDiscover (Vector.replicate 6 0) shortInfo [0x00]
      = some (0, [.plcAdd "00:00:00:00:00:00" [0x41]]) := by
  decide

end Neufbox.LanTopology
