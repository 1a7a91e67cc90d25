import Mathlib.Data.List.Basic
import Mathlib.Tactic.Common

/-!
# Link events

Model of `bcm53xx_media_check` of `drivers/net/bcm53xx.c`, which tells of the ports of the switch,
and of `bcm54xx_media_check` of `drivers/net/bcm54xx.c` and `sfp.h`, which tell of the fibre.  Both
are called again and again; what they keep between the calls is their state, and a reading of the
registers is given with each call.
-/

namespace Neufbox.Media

/-- The numbers of `enum event_id` that are used. -/
def eventIdEth0Up : ℕ := 19
def eventIdEth0Down : ℕ := 20
def eventIdPort0Up : ℕ := 23
def eventIdPort0Down : ℕ := 24

/-! ### The ports of the switch -/

/-- `ROBO_LINK_STATUS`, `ROBO_PORT_SPEED_SUMMARY` and the duplex summary. -/
structure SwitchReading where
  link : BitVec 16
  speed : BitVec 32
  duplex : BitVec 16

/-- `bcm53xx_media_speed` -/
def bcm53xxMediaSpeed (v : BitVec 32) : ℕ :=
  if v = 2 then 1000 else if v = 1 then 100 else 10

/-- `EVENT_UP` and `EVENT_DOWN` of the switch. -/
def portUp (port speed duplex : ℕ) : ℕ :=
  (eventIdPort0Up + 2 * port) ||| ((speed ||| duplex) <<< 8)
def portDown (port : ℕ) : ℕ := eventIdPort0Down + 2 * port

/-- The speed of a port.  The BCM5325 has one bit for each port, in a register of 16 bits, and the
BCM5395 has two. -/
def portSpeed (devId : ℕ) (speed : BitVec 32) (port : ℕ) : ℕ :=
  if devId = 0x25 then bcm53xxMediaSpeed (((speed.setWidth 16).setWidth 32 >>> port) &&& 1)
  else if devId = 0x95 then bcm53xxMediaSpeed ((speed >>> (2 * port)) &&& 3)
  else 0

def portDuplex (devId : ℕ) (duplex : BitVec 16) (port : ℕ) : ℕ :=
  if devId = 0x25 ∨ devId = 0x95 then (duplex.getLsbD port).toNat else 0

/-- A round of the loop of `bcm53xx_media_check`.  There is no bit for the ports from 16 on. -/
def portEvents (devId : ℕ) (changed : BitVec 16) (reading : SwitchReading) (port : ℕ) : List ℕ :=
  if changed.getLsbD port then
    [if reading.link.getLsbD port then
        portUp port (portSpeed devId reading.speed port) (portDuplex devId reading.duplex port)
      else portDown port]
  else []

/-- `bcm53xx_media_check`: the state is `changed`. -/
def bcm53xxMediaCheck (devId portsCount : ℕ) (changed : BitVec 16) (reading : SwitchReading) :
    BitVec 16 × List ℕ :=
  if reading.link = changed then (changed, [])
  else (reading.link,
    (List.range portsCount).flatMap (portEvents devId (changed ^^^ reading.link) reading))

/-! ### The fibre -/

/-- `br_nominal`, `diagnostic_monitor_type` and the second byte of `alarm_warnings_flags`. -/
structure SfpReading where
  brNominal : UInt8
  ddm : UInt8
  flags : UInt8
  deriving DecidableEq

/-- `sfp_Rx_ok` -/
def sfpRxOk (reading : SfpReading) : Bool :=
  if reading.ddm = 0 then true
  else if reading.flags = 0xff then false else reading.flags &&& 0xc0 = 0

/-- `sfp_eeprom_bitrate` -/
def sfpEepromBitrate (reading : SfpReading) : UInt8 :=
  if reading.brNominal = 0xff then 0 else reading.brNominal

/-- `EVENT_UP` and `EVENT_DOWN` of the fibre. -/
def eth0Up (speed duplex : ℕ) : ℕ := eventIdEth0Up ||| ((speed ||| duplex) <<< 8)
def eth0Down : ℕ := eventIdEth0Down

/-- What `bcm54xx_media_check` does. -/
inductive FibreAction where
  | txDisable
  | txEnable
  | configure100baseFX
  | configure1000baseX
  | event (id : ℕ)
  deriving DecidableEq

/-- `new_sfp_bitrate` -/
def newSfpBitrate (reading : SfpReading) : UInt8 :=
  if sfpRxOk reading then sfpEepromBitrate reading else 0

/-- `bcm54xx_media_check`: the state is `sfp_bitrate`. -/
def bcm54xxMediaCheck (sfpBitrate : UInt8) (reading : SfpReading) : UInt8 × List FibreAction :=
  let new := newSfpBitrate reading
  if new = sfpBitrate then (sfpBitrate, [])
  else (new,
    if new = 0 then [.txDisable, .event eth0Down]
    else if new < 5 then [.txEnable, .configure100baseFX, .event (eth0Up 100 1)]
    else if new < 15 then [.txEnable, .configure1000baseX, .event (eth0Up 1000 1)]
    else [])

end Neufbox.Media
