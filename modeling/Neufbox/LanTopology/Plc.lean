import Neufbox.Lib.Bytes
import Neufbox.Lib.Records

/-!
# Power-line discovery

Model of `mme_discover` and `mme_request` of `efixo-lan-topology`'s `plc.c`, with the layout of the
frames from `etk/mme.h`.  A plug answers the discovery (type `0xa039`) with the networks it sees and
their stations, and `mme_discover` asks every station for its version; the answer to that (type
`0xa001`) is given to the daemon.

`mme_discover` reads a frame into a buffer on the stack.  The memory from the buffer on is the bytes
that were received and then `stack`, what was there before; what is read past its end is `none`.
-/

namespace Neufbox.LanTopology

open Records

abbrev EtherAddr := Vector UInt8 6

/-- `ETH_FRAME_LEN` -/
def ethFrameLen : ℕ := 1514

/-- `ETHER_MIN_LEN` -/
def etherMinLen : ℕ := 64

/-! ### The layout of the structures -/

def offsetofEtherShost : ℕ := 6

def offsetofEtherType : ℕ := 12

def sizeofEtherHeader : ℕ := 14

def offsetofMmeType : ℕ := 1

def sizeofMmeHeader : ℕ := 6

def offsetofInfoVersion : ℕ := 3

def sizeofStation : ℕ := 15

def offsetofNetworkNum : ℕ := 17

def offsetofNetworkStation : ℕ := 18

/-- With the one station that the array is declared with. -/
def sizeofNetwork : ℕ := 33

def offsetofNetworksNetwork : ℕ := 1

/-! ### Requests -/

inductive PlcAction where
  /-- A frame is written to the socket. -/
  | write (frame : List UInt8)
  /-- `nbd_plc_add` -/
  | plcAdd (macaddr : String) (version : List UInt8)
  deriving DecidableEq

def mmeRequest (etherShost etherDhost : List UInt8) (query : ℕ) : PlcAction :=
  let frame :=
    etherDhost ++ etherShost ++ Endian.big.encode 2 0x88e1 ++
      [0x00] ++ Endian.little.encode 2 query ++ [0x00, 0xB0, 0x52]
  .write (frame ++ List.replicate (max frame.length etherMinLen - frame.length) 0x00)

/-! ### The discovery -/

/-- The loop over the stations of a network. -/
def discoverStations (lanEthaddr : EtherAddr) (network : List UInt8) : Option (List PlcAction) := do
  let num ← network[offsetofNetworkNum]?
  gather (fun j => do
    let station := network.drop (offsetofNetworkStation + sizeofStation * j)
    let mac ← bytes? 6 station
    some [mmeRequest lanEthaddr.toList mac 0xa000]) num.toNat

/-- The loop over the networks. -/
def discoverNetworks (lanEthaddr : EtherAddr) (networks : List UInt8) :
    Option (List PlcAction) := do
  let num ← networks[0]?
  gather (fun i =>
    let network := networks.drop (offsetofNetworksNetwork + sizeofNetwork * i)
    discoverStations lanEthaddr network) num.toNat

/-- `%02x` -/
def hex02 (b : UInt8) : String :=
  String.ofList [Nat.digitChar (b.toNat / 16), Nat.digitChar (b.toNat % 16)]

/-- What is returned, and what is done. -/
def mmeDiscover (lanEthaddr : EtherAddr) (frame stack : List UInt8) :
    Option (Int × List PlcAction) :=
  if frame.length = 0 then some (-1, [])
  else do
    let ethHdr := frame ++ stack
    let mme := ethHdr.drop sizeofEtherHeader
    let data := mme.drop sizeofMmeHeader
    let etherType ← bytes? 2 (ethHdr.drop offsetofEtherType)
    if Endian.big.decode etherType ≠ 0x88e1 then some (0, [])
    else do
      let mmeType ← bytes? 2 (mme.drop offsetofMmeType)
      if Endian.little.decode mmeType = 0xa039 then do
        let requests ← discoverNetworks lanEthaddr data
        some (0, requests)
      else if Endian.little.decode mmeType = 0xa001 then do
        let etherShost ← bytes? 6 (ethHdr.drop offsetofEtherShost)
        -- the version is passed on as a string
        let version ← upTo? 0 (data.drop offsetofInfoVersion)
        some (0, [.plcAdd (":".intercalate (etherShost.map hex02)) version])
      else some (0, [])

end Neufbox.LanTopology
