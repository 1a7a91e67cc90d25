import Neufbox.Lib.Run
import Neufbox.Lib.Memory
import Neufbox.Lib.Words
import Neufbox.Lib.Overlay
import Neufbox.Lib.Numerals
import Neufbox.Lib.Cyclic
import Neufbox.Lib.Bytes
import Neufbox.Lib.Stream
import Neufbox.Lib.Queue
import Neufbox.Lib.Framed
import Neufbox.Lib.Hexadecimal
import Neufbox.Lib.Ring
import Neufbox.Lib.Cursored
import Neufbox.Lib.Dictionary
import Neufbox.Lib.Registry
import Neufbox.Lib.Slots
import Neufbox.Lib.Fields
import Neufbox.Lib.CharBuffers
import Neufbox.Lib.Records
import Neufbox.Lib.Tokens
import Neufbox.Lib.Dialogue
import Neufbox.Lib.Retry
import Neufbox.Lib.Subnet
import Neufbox.Lib.Decimal
import Neufbox.Lib.Ipv4
import Neufbox.Lib.CStrings
import Neufbox.Lib.Inet
import Neufbox.Lib.Cbc
import Neufbox.Lib.Spsc
import Neufbox.RingLogs.Driver
import Neufbox.RingLogs.Equiv.Content
import Neufbox.RingLogs.Equiv.Read
import Neufbox.Libetk.Fifo
import Neufbox.Libetk.Records
import Neufbox.Libetk.Alloc
import Neufbox.Libetk.Serialize
import Neufbox.Libetk.SeqFile
import Neufbox.Libetk.Text
import Neufbox.Libetk.NetSprint
import Neufbox.Libetk.Xdev
import Neufbox.Libetk.Dict
import Neufbox.Libetk.Equiv.Fifo
import Neufbox.Libetk.Equiv.Alloc
import Neufbox.Libetk.Equiv.Records
import Neufbox.Libetk.Equiv.Serialize
import Neufbox.Libetk.Equiv.SeqFile
import Neufbox.Libetk.Equiv.Text
import Neufbox.Libetk.Equiv.NetSprint
import Neufbox.Libetk.Equiv.Xdev
import Neufbox.Libetk.Equiv.Dict
import Neufbox.Libnbd.Query
import Neufbox.Libnbd.Core
import Neufbox.Libnbd.Firewall
import Neufbox.Libnbd.Requests
import Neufbox.Libnbd.Equiv.Encoding
import Neufbox.Libnbd.Equiv.Answers
import Neufbox.Libnbd.Equiv.Frames
import Neufbox.Libnbd.Equiv.Stack
import Neufbox.Libnbd.Voip
import Neufbox.Libnbd.Equiv.Voip
import Neufbox.Libnbd.Equiv.Missed
import Neufbox.Libnbd.Equiv.Number
import Neufbox.Libnbu.String
import Neufbox.Libnbu.List
import Neufbox.Libnbu.Equiv.Ip
import Neufbox.Libnbu.Equiv.List
import Neufbox.Libnbu.Sort
import Neufbox.Libnbu.Equiv.Sort
import Neufbox.Libnbu.Serialize
import Neufbox.Libnbu.Equiv.Serialize
import Neufbox.Libnbu.Mac
import Neufbox.Libnbu.Net
import Neufbox.Libnbu.Equiv.Mac
import Neufbox.Libnbu.Buffer
import Neufbox.Libnbu.Equiv.Buffer
import Neufbox.Libnbu.Equiv.Join
import Neufbox.Libnbu.Trim
import Neufbox.Libnbu.Equiv.Trim
import Neufbox.Libnbu.Writers
import Neufbox.Libnbu.Equiv.Writers
import Neufbox.Libnbu.Split
import Neufbox.Libnbu.Equiv.Split
import Neufbox.Libnbu.Release
import Neufbox.Libnbu.Iterator
import Neufbox.Libnbu.Equiv.Release
import Neufbox.Libnbu.Equiv.Iterator
import Neufbox.Libnbu.Equiv.Net
import Neufbox.Libewf.Session
import Neufbox.Libewf.Config
import Neufbox.Libewf.Smith
import Neufbox.Libewf.Controller
import Neufbox.Libewf.Request
import Neufbox.Libewf.Theme
import Neufbox.Www.Site
import Neufbox.Www.Equiv.Access
import Neufbox.Www.Equiv.Challenge
import Neufbox.Www.Admin
import Neufbox.Www.Equiv.Admin
import Neufbox.Www.Forms
import Neufbox.Www.Equiv.Forms
import Neufbox.Www.Equiv.Commits
import Neufbox.Www.Kit
import Neufbox.Www.Equiv.Dhcp
import Neufbox.Www.Lan
import Neufbox.Www.Equiv.Lan
import Neufbox.Www.Exim
import Neufbox.Www.Firewall
import Neufbox.Www.Equiv.Exim
import Neufbox.Www.Equiv.Firewall
import Neufbox.Libewf.Equiv.Cleaners
import Neufbox.Libewf.Equiv.Credentials
import Neufbox.Libewf.Equiv.Fallback
import Neufbox.Libewf.Equiv.Login
import Neufbox.Libewf.Equiv.Request
import Neufbox.Libewf.Equiv.Theme
import Neufbox.Api.Values
import Neufbox.Api.Session
import Neufbox.Api.Auth
import Neufbox.Api.Common
import Neufbox.Api.Wlan
import Neufbox.Api.Equiv.Tokens
import Neufbox.Api.Equiv.Authorization
import Neufbox.Api.Equiv.Limit
import Neufbox.Api.Equiv.Upgrade
import Neufbox.Api.Equiv.Passwords
import Neufbox.Bcm53xx.Switch
import Neufbox.Bcm53xx.Equiv.Arl
import Neufbox.Bcm53xx.Command
import Neufbox.Bcm53xx.Equiv.Command
import Neufbox.Bcm53xx.Diffserv
import Neufbox.Bcm53xx.Equiv.Diffserv
import Neufbox.Box.Button
import Neufbox.Box.Equiv.Button
import Neufbox.Box.Wlan
import Neufbox.Box.Equiv.Wlan
import Neufbox.Watchdog.Driver
import Neufbox.Watchdog.Equiv.Runs
import Neufbox.LanTopology.Plc
import Neufbox.LanTopology.Equiv.Plc
import Neufbox.LanTopology.Ssdp
import Neufbox.LanTopology.Equiv.Ssdp
import Neufbox.Hwmon.Driver
import Neufbox.Hwmon.Equiv.Transfers
import Neufbox.Hwmon.Equiv.Pwm
import Neufbox.Hwmon.Equiv.Sensors
import Neufbox.Leds.Driver
import Neufbox.Leds.Equiv.Led
import Neufbox.Leds.Equiv.Blinks
import Neufbox.Leds.Equiv.Modes
import Neufbox.Leds.Atomic
import Neufbox.Leds.Equiv.Commands
import Neufbox.Media.Driver
import Neufbox.Media.Equiv.Switch
import Neufbox.Media.Equiv.Fibre
import Neufbox.Libetk.FifoThreads
import Neufbox.Libetk.Equiv.FifoThreads
