import Mathlib.Data.BitVec
import Mathlib.Tactic.Common

/-!
# The watchdog driver

Model of `bcm63xx_wdt.c`.  The hardware watchdog resets the box unless it is started again in time.
A timer does so every second, for as long as the countdown `ticks` does not come to zero; a process
that has the device open sets the countdown back to the timeout by writing to it or with an `ioctl`.

The functions give the state after them and what they do to the hardware and to the timer.  A call
is executed as a whole; the countdown does not wrap around.
-/

namespace Neufbox.Watchdog

def wdtDefaultTime : Int := 30

def wdtMaxTime : Int := 256

def ebusy : Int := 16

def efault : Int := 14

def einval : Int := 22

def enotty : Int := 25

/-- A timeout that the driver accepts, in seconds. -/
structure Timeout where
  seconds : Int
  pos : 0 < seconds
  le_max : seconds ≤ wdtMaxTime
  deriving DecidableEq

def Timeout.default : Timeout := ⟨wdtDefaultTime, by decide, by decide⟩

inductive WdtEvent where
  | hwStart
  | hwStop
  | modTimer
  | delTimer
  deriving DecidableEq

/-- `bcm63xx_wdt_device` and the variables of the module. -/
structure Wdt where
  ticks : Int
  wdtTime : Timeout
  inuse : Bool
  expectClose : Int
  /-- The timer is pending. -/
  armed : Bool
  deriving DecidableEq

/-- The driver after `bcm63xx_wdt_probe`. -/
def Wdt.probed : Wdt where
  ticks := 0
  wdtTime := .default
  inuse := false
  expectClose := 0
  armed := false

def timerTick (dev : Wdt) : Wdt × List WdtEvent :=
  let dev := { dev with ticks := dev.ticks - 1 }
  if dev.ticks ≠ 0 then ({ dev with armed := true }, [.hwStart, .modTimer])
  -- watchdog will restart system
  else (dev, [])

def wdtPet (dev : Wdt) : Wdt := { dev with ticks := dev.wdtTime.seconds }

def wdtStart (dev : Wdt) : Wdt × List WdtEvent := timerTick (wdtPet dev)

def wdtPause (dev : Wdt) : Wdt × List WdtEvent :=
  ({ dev with armed := false }, [.delTimer, .hwStop])

def wdtSettimeout (newTime : Int) : Option Timeout :=
  if h : newTime ≤ 0 ∨ newTime > wdtMaxTime then none
  else some ⟨newTime, by omega, by omega⟩

def wdtOpen (dev : Wdt) : Wdt × List WdtEvent × Int :=
  if dev.inuse then (dev, [], -ebusy)
  else
    let (dev, events) := wdtStart { dev with inuse := true }
    (dev, events, 0)

def wdtRelease (dev : Wdt) : Wdt × List WdtEvent :=
  let (dev, events) :=
    if dev.expectClose = 42 then wdtPause dev
    -- Unexpected close, not stopping watchdog!
    else wdtStart dev
  ({ dev with inuse := false, expectClose := 0 }, events)

/-- The loop of `bcm63xx_wdt_write`: `expect_close` after it, and whether all bytes could be
read. -/
def scanMagic (expectClose : Int) : List (Option Char) → Int × Bool
  | [] => (expectClose, true)
  | none :: _ => (expectClose, false)
  | some c :: data => scanMagic (if c = 'V' then 42 else expectClose) data

/-- A byte that cannot be read is `none`. -/
def wdtWrite (nowayout : Int) (dev : Wdt) (data : List (Option Char)) : Wdt × Int :=
  if data.length ≠ 0 then
    if nowayout = 0 then
      -- In case it was set long ago
      let (expectClose, read) := scanMagic 0 data
      let dev := { dev with expectClose := expectClose }
      if read then (wdtPet dev, data.length) else (dev, -efault)
    else (wdtPet dev, data.length)
  else (dev, 0)

inductive WdtIoctl where
  | getSupport
  | getStatus
  | getBootStatus
  | setOptions
  | keepAlive
  | setTimeout
  | getTimeout
  | other
  deriving DecidableEq

def wdiosDisablecard : BitVec 32 := 0x0001

def wdiosEnablecard : BitVec 32 := 0x0002

/-- What the argument of an `ioctl` points to: the number there, if it can be read, and whether it
can be written. -/
structure UserInt where
  value : Option (BitVec 32)
  writable : Bool
  deriving DecidableEq

/-- What an `ioctl` returns, and the number it leaves where its argument points to. -/
structure WdtReply where
  ret : Int
  value : Option Int
  deriving DecidableEq

def putUser (value : Int) (arg : UserInt) : WdtReply :=
  if arg.writable then ⟨0, some value⟩ else ⟨-efault, none⟩

def wdtIoctl (dev : Wdt) (cmd : WdtIoctl) (arg : UserInt) : Wdt × List WdtEvent × WdtReply :=
  match cmd with
  | .getSupport => (dev, [], ⟨if arg.writable then 0 else -efault, none⟩)
  | .getStatus | .getBootStatus => (dev, [], putUser 0 arg)
  | .setOptions =>
    match arg.value with
    | none => (dev, [], ⟨-efault, none⟩)
    | some newValue =>
      let retval := -einval
      let (dev, stopped, retval) :=
        if newValue &&& wdiosDisablecard ≠ 0 then
          let (dev, events) := wdtPause dev
          (dev, events, 0)
        else (dev, [], retval)
      let (dev, started, retval) :=
        if newValue &&& wdiosEnablecard ≠ 0 then
          let (dev, events) := wdtStart dev
          (dev, events, 0)
        else (dev, [], retval)
      (dev, stopped ++ started, ⟨retval, none⟩)
  | .keepAlive => (wdtPet dev, [], ⟨0, none⟩)
  | .setTimeout =>
    match arg.value with
    | none => (dev, [], ⟨-efault, none⟩)
    | some newValue =>
      match wdtSettimeout newValue.toInt with
      | none => (dev, [], ⟨-einval, none⟩)
      | some wdtTime =>
        let dev := wdtPet { dev with wdtTime := wdtTime }
        -- falls through to `WDIOC_GETTIMEOUT`
        (dev, [], putUser dev.wdtTime.seconds arg)
  | .getTimeout => (dev, [], putUser dev.wdtTime.seconds arg)
  | .other => (dev, [], ⟨-enotty, none⟩)

/-! ### Runs -/

/-- A call of the driver, or the timer runs out. -/
inductive WdtOp where
  | openDevice
  | write (data : List (Option Char))
  | ioctl (cmd : WdtIoctl) (arg : UserInt)
  | release
  | tick
  deriving DecidableEq

/-- A timer that is not pending does not run out. -/
def timerExpires (dev : Wdt) : Wdt × List WdtEvent :=
  if dev.armed then timerTick { dev with armed := false } else (dev, [])

def wdtStep (nowayout : Int) (dev : Wdt) : WdtOp → Wdt × List WdtEvent
  | .openDevice => ((wdtOpen dev).1, (wdtOpen dev).2.1)
  | .write data => ((wdtWrite nowayout dev data).1, [])
  | .ioctl cmd arg => ((wdtIoctl dev cmd arg).1, (wdtIoctl dev cmd arg).2.1)
  | .release => wdtRelease dev
  | .tick => timerExpires dev

end Neufbox.Watchdog
