import LidarRelay.Foundations.Exec
import LidarRelay.Foundations.Runs
import LidarRelay.Foundations.CString
import LidarRelay.Foundations.DecimalText
import LidarRelay.Foundations.AnyNumber
import LidarRelay.Foundations.Fields
import LidarRelay.Foundations.ByteStream
import LidarRelay.Foundations.BinaryGrid
import LidarRelay.Foundations.ClockOffset
import LidarRelay.Foundations.PeriodicTimer
import LidarRelay.Foundations.SharedRecord
import LidarRelay.Foundations.Duplex
import LidarRelay.Foundations.Envelope
import LidarRelay.Foundations.RecentRing
import LidarRelay.Programs.Clock
import LidarRelay.Programs.Bsm
import LidarRelay.Programs.Wire
import LidarRelay.Programs.Device
import LidarRelay.Programs.LidarSend
import LidarRelay.Programs.LidarRecv
import LidarRelay.Programs.Client
import LidarRelay.Programs.Listener
import LidarRelay.Programs.TcpClient
import LidarRelay.Programs.TcpClient2
import LidarRelay.Programs.Decoders
import LidarRelay.Programs.AcceptLoop
import LidarRelay.Programs.Station
import LidarRelay.Programs.Network
import LidarRelay.Programs.TcpServer
import LidarRelay.Programs.Chat
import LidarRelay.Programs.PhaseLock
import LidarRelay.Programs.NtpClient
import LidarRelay.Programs.RateScripts
import LidarRelay.Properties.Schedule
import LidarRelay.Properties.Relay
import LidarRelay.Properties.Latency
import LidarRelay.Properties.Timers
import LidarRelay.Properties.Calibration
import LidarRelay.Properties.Extrapolation
import LidarRelay.Properties.Broadcast
import LidarRelay.Properties.Framing
import LidarRelay.Properties.Snapshot
import LidarRelay.Properties.Feedback
import LidarRelay.Properties.Malformed
import LidarRelay.Properties.Session
import LidarRelay.Properties.OtherVehicles
import LidarRelay.Properties.Ranges
import LidarRelay.Properties.Stamps
import LidarRelay.Properties.Delivery
import LidarRelay.Properties.Widths
import LidarRelay.Properties.Echo
import LidarRelay.Properties.Turns
import LidarRelay.Properties.Box
import LidarRelay.Properties.Target
import LidarRelay.Properties.Locking
import LidarRelay.Properties.ClosedLoop
import LidarRelay.Properties.TimeServer
import LidarRelay.Properties.NtpStamps
import LidarRelay.Properties.SyncedLatency
import LidarRelay.Properties.Replay
import LidarRelay.Properties.EchoClock
import LidarRelay.Properties.LiveSession
import LidarRelay.Properties.RateScripts
