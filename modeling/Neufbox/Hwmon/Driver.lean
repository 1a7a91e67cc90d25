import Neufbox.Lib.Bytes
import Neufbox.Lib.Retry

/-!
# The driver of the microcontroller

Model of `drivers/hwmon/nb6_hwmon.c`: the transfers, the levels of the LEDs and the two sensors.

`bus n` is what becomes of the transfer number `n`.  The state holds the transfers that were made,
so that their number is that of the next one.  The driver is bound to its client, and a function
that holds the lock is executed as a whole.
-/

namespace Neufbox.Hwmon

open Retry

/-! ### Transfers -/

variable (bus : ℕ → BusResult)

/-- What becomes of a transfer: it succeeds, a read with a byte, or it fails. -/
inductive BusResult where
  | ok (byte : UInt8)
  | error (errno : ℕ)
  deriving DecidableEq

def BusResult.isOk : BusResult → Bool
  | ok _ => true
  | error _ => false

/-- What `i2c_smbus_read_byte_data` returns. -/
def BusResult.readStatus : BusResult → Int
  | ok byte => byte.toNat
  | error errno => -(errno + 1)

/-- What `i2c_smbus_write_byte_data` returns. -/
def BusResult.writeStatus : BusResult → Int
  | ok _ => 0
  | error errno => -(errno + 1)

inductive Request where
  | read (addr : UInt8)
  | write (addr val : UInt8)
  deriving DecidableEq

structure Transfer where
  request : Request
  result : BusResult
  deriving DecidableEq

/-- The results of the transfers of one call.  The loops are those of `mcu_read_update`, `mcu_read`
and `mcu_write`, which differ in the request and in what ends them. -/
def transfers (log : List Transfer) (stop : BusResult → Bool) :
    List BusResult := attempts stop bus 5 log.length

/-- The transfers so far, with those of one call. -/
def logged (log : List Transfer) (request : Request) (results : List BusResult) : List Transfer :=
  log ++ results.map fun result => ⟨request, result⟩

/-- The loop of `mcu_read_update` and `mcu_read`: the byte, if there is one. -/
def mcuReadByte (log : List Transfer) (addr : UInt8) :
    Option UInt8 × List Transfer :=
  let results := transfers bus log fun result => 0 ≤ result.readStatus
  let status := results.getLast?.map BusResult.readStatus
  ((status.filter (0 ≤ ·)).map fun status => UInt8.ofNat status.toNat,
    logged log (.read addr) results)

/-- `mcu_read_update` -/
def mcuReadUpdate (log : List Transfer) (addr old : UInt8) :
    UInt8 × List Transfer :=
  ((mcuReadByte bus log addr).1.getD old, (mcuReadByte bus log addr).2)

/-- `mcu_read` -/
def mcuRead (log : List Transfer) (addr : UInt8) : UInt8 × List Transfer :=
  ((mcuReadByte bus log addr).1.getD 0xff, (mcuReadByte bus log addr).2)

/-- `mcu_write` -/
def mcuWrite (log : List Transfer) (addr val : UInt8) :
    Int × List Transfer :=
  -- The loop ends when the status is above 0.
  let results := transfers bus log fun result => 0 < result.writeStatus
  let status := (results.getLast?.map BusResult.writeStatus).getD 0
  (if 0 < status then 0 else status, logged log (.write addr val) results)

/-- What a register of the microcontroller holds, 0 at the start. -/
def register (log : List Transfer) (addr : UInt8) : UInt8 :=
  log.foldl (fun held transfer =>
    match transfer.request with
    | .read _ => held
    | .write addr' val => if addr' = addr ∧ transfer.result.isOk then val else held) 0

/-! ### State -/

/-- `struct pwm_device`; `scheduled` is whether `work` is. -/
structure PwmDevice where
  config : BitVec 32
  value : BitVec 32
  scheduled : Bool
  deriving DecidableEq

/-- `struct nb6hwmon_data`, and the transfers. -/
structure Nb6hwmonData where
  expires : BitVec 32
  t : UInt8 × UInt8
  v : UInt8 × UInt8
  pwmDev : Fin 9 → PwmDevice
  mcuLedsMode : UInt8
  pwmRefLevel : UInt8
  log : List Transfer

def ledOff : UInt8 := 0
def ledLow : UInt8 := 7
def ledHalf : UInt8 := 15
def ledFull : UInt8 := 31
def ledMask : BitVec 32 := 0x1f

/-- `LED_ID_START` and `LED_ID_LAST` -/
def ledIdStart : ℕ := 0x10
def ledIdLast : ℕ := 0x19

def nb6LedsModeCmd : UInt8 := 0x31

/-- `LEDS_MODE_CONTROL` and `LEDS_MODE_LAST` -/
def ledsModeControl : UInt8 := 11
def ledsModeLast : UInt8 := 12

/-- The address of an LED, `pwm->id`. -/
def ledId (led : Fin 9) : UInt8 := UInt8.ofNat (ledIdStart + led)

/-! ### Levels -/

/-- The value for a configuration: `LED_MASK` is replaced by the reference level. -/
def levelled (dutyNs : BitVec 32) (pwmRefLevel : UInt8) : BitVec 32 :=
  if dutyNs ≠ 0 then (dutyNs &&& ~~~ledMask) ||| pwmRefLevel.toBitVec.setWidth 32 else dutyNs

/-- `pwm_work`; the value is passed on as a byte. -/
def pwmWork (dev : Nb6hwmonData) (led : Fin 9) : Nb6hwmonData :=
  { dev with
    log := (mcuWrite bus dev.log (ledId led) ⟨(dev.pwmDev led).value.setWidth 8⟩).2 }

/-- `pwm_config`; `inAtomic` is what `in_atomic` says. -/
def pwmConfig (dev : Nb6hwmonData) (led : Fin 9) (dutyNs : BitVec 32)
    (inAtomic : Bool) : Nb6hwmonData :=
  let pwm := dev.pwmDev led
  let value := levelled dutyNs dev.pwmRefLevel
  let written : PwmDevice := { pwm with config := dutyNs, value := value }
  if pwm.value = value then { dev with pwmDev := Function.update dev.pwmDev led written }
  else if inAtomic then
    { dev with pwmDev := Function.update dev.pwmDev led { written with scheduled := true } }
  else pwmWork bus { dev with pwmDev := Function.update dev.pwmDev led written } led

/-- The work queue executes the work of an LED. -/
def runWork (dev : Nb6hwmonData) (led : Fin 9) : Nb6hwmonData :=
  pwmWork bus
    { dev with
      pwmDev := Function.update dev.pwmDev led { dev.pwmDev led with scheduled := false } } led

/-- `pwm_request` -/
def pwmRequest (pwmId : ℕ) : Option (Fin 9) :=
  if h : ledIdStart ≤ pwmId ∧ pwmId < ledIdLast then
    have hlt : pwmId - ledIdStart < 9 := by
      obtain ⟨-, hlast⟩ := h
      simp only [ledIdStart, ledIdLast] at *
      omega
    some ⟨pwmId - ledIdStart, hlt⟩
  else none

/-- `leds_config` -/
def ledsConfig (dev : Nb6hwmonData) (id value : UInt8) (inAtomic : Bool) :
    Nb6hwmonData :=
  match pwmRequest id.toNat with
  | some led => pwmConfig bus dev led (value.toBitVec.setWidth 32) inAtomic
  | none => dev

/-- `leds_set_mode` -/
def ledsSetMode (dev : Nb6hwmonData) (mode : UInt8) : Nb6hwmonData :=
  if mode ≥ ledsModeLast then dev
  else if dev.mcuLedsMode ≠ mode then
    { dev with mcuLedsMode := mode, log := (mcuWrite bus dev.log nb6LedsModeCmd mode).2 }
  else dev

/-- One round of `leds_sync`. -/
def syncLed (dev : Nb6hwmonData) (led : Fin 9) : Nb6hwmonData :=
  ledsConfig bus dev (ledId led) ⟨(dev.pwmDev led).config.setWidth 8⟩ false

/-- `leds_sync` -/
def ledsSync (dev : Nb6hwmonData) : Nb6hwmonData :=
  (List.finRange 9).foldl (syncLed bus) dev

/-- `isspace` -/
def isSpace (c : Char) : Bool := c = ' ' || ('\t' ≤ c && c ≤ '\r') || c.toNat = 0xa0

/-- `strstrip` -/
def strstrip (s : List Char) : List Char :=
  ((s.dropWhile isSpace).reverse.dropWhile isSpace).reverse

/-- The level that is written to the attribute, in a buffer of 32 bytes. -/
def parseLevel (buf : String) : Option UInt8 :=
  let s := String.ofList (strstrip (buf.toList.take 31))
  if s = "off" then some ledOff
  else if s = "low" then some ledLow
  else if s = "half" then some ledHalf
  else if s = "full" then some ledFull
  else none

/-- `set_leds_pwm`, up to the release of the lock. -/
def setLevel (dev : Nb6hwmonData) (buf : String) : Nb6hwmonData :=
  match parseLevel buf with
  | none => dev
  | some level => ledsSetMode bus { dev with pwmRefLevel := level } ledsModeControl

/-- `set_leds_pwm` -/
def setLedsPwm (dev : Nb6hwmonData) (buf : String) : Nb6hwmonData :=
  ledsSync bus (setLevel bus dev buf)

/-! ### Sensors -/

/-- `HZ`, in the configuration of the NB6. -/
def hz : BitVec 32 := 1000

/-- `time_after` -/
def timeAfter (a b : BitVec 32) : Bool := (b - a).toInt < 0

/-- `mcu_sync` -/
def mcuSync (dev : Nb6hwmonData) (jiffies : BitVec 32) : Nb6hwmonData :=
  let t0 := mcuReadUpdate bus dev.log 0x22 dev.t.1
  let t1 := mcuReadUpdate bus t0.2 0x23 dev.t.2
  let v0 := mcuReadUpdate bus t1.2 0x24 dev.v.1
  let v1 := mcuReadUpdate bus v0.2 0x25 dev.v.2
  { dev with
    t := (t0.1, t1.1), v := (v0.1, v1.1), expires := jiffies + 3 * hz, log := v1.2 }

/-- The bytes are read again when they have expired; `jiffies` is the time of the test and
`jiffies'` that of the end of the reads. -/
def refresh (dev : Nb6hwmonData) (jiffies jiffies' : BitVec 32) :
    Nb6hwmonData :=
  if timeAfter jiffies dev.expires then mcuSync bus dev jiffies' else dev

/-- `union uu16`, on a machine of the byte order. -/
def uu16 (endian : Endian) (bytes : UInt8 × UInt8) : BitVec 32 :=
  BitVec.ofNat 32 (endian.decode [bytes.1, bytes.2])

/-- `ADC_quantum` and `ADC_mV` -/
def adcQuantum (vref : BitVec 32) : BitVec 32 := (1000 * vref).sdiv 1024
def adcMv (vref x : BitVec 32) : BitVec 32 := (adcQuantum vref * x).sdiv 1000

/-- `ADC_Temperature` -/
def adcTemperature (t : BitVec 32) : BitVec 32 := (1000 * (100 * adcMv 1800 t)).sdiv 349

/-- `ADC_Voltage`, with `MR1` and `MR2`. -/
def adcVoltage (v : BitVec 32) : BitVec 32 :=
  (adcMv 2400 v * (BitVec.sdiv (10 * (82 + 20)) 20)).sdiv 10

/-- `show_temperature`: the driver after it and what is displayed. -/
def showTemperature (endian : Endian) (bus : ℕ → BusResult) (dev : Nb6hwmonData)
    (jiffies jiffies' : BitVec 32) : Nb6hwmonData × String :=
  let dev := refresh bus dev jiffies jiffies'
  (dev, toString (adcTemperature (uu16 endian dev.t)).toNat ++ "\n")

/-- `show_voltage`: the driver after it and what is displayed. -/
def showVoltage (endian : Endian) (bus : ℕ → BusResult) (dev : Nb6hwmonData)
    (jiffies jiffies' : BitVec 32) : Nb6hwmonData × String :=
  let dev := refresh bus dev jiffies jiffies'
  (dev, toString (adcVoltage (uu16 endian dev.v)).toNat ++ "\n")

/-- The data as `kzalloc` leaves them, with the level that the probe sets. -/
def Nb6hwmonData.alloc : Nb6hwmonData where
  expires := 0
  t := (0, 0)
  v := (0, 0)
  pwmDev _ := ⟨0, 0, false⟩
  mcuLedsMode := 0
  pwmRefLevel := ledFull
  log := []

end Neufbox.Hwmon
