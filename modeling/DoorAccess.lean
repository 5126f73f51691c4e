import DoorAccess.Lib.Transition
import DoorAccess.Lib.Debounce
import DoorAccess.Lib.Serial
import DoorAccess.Lib.Records
import DoorAccess.Codec
import DoorAccess.Wire18022
import DoorAccess.Wire18022.Grammar
import DoorAccess.Listen18022
import DoorAccess.Lib.Bpf
import DoorAccess.Listen.Extract
import DoorAccess.Listen.Dedup
import DoorAccess.Unlock.Execute
import DoorAccess.Control.Respond
import DoorAccess.WireSender
import DoorAccess.Daemon.Serve
import DoorAccess.SelfUnlock.Timed
import DoorAccess.Video.Rtp
import DoorAccess.Video.Reorder
import DoorAccess.Video.Loss
import DoorAccess.Video.Consumers
import DoorAccess.Video.Transmux
import DoorAccess.Video.Monotone
import DoorAccess.Video.Receiver
import DoorAccess.Video.FanOut
import DoorAccess.Automation.Persist
import DoorAccess.Video.Monitor
import DoorAccess.Daemon.Shutdown
import DoorAccess.Video.Duplicate
import DoorAccess.Video.Oversize
import DoorAccess.Video.Provenance
import DoorAccess.Video.Deadline
import DoorAccess.Video.Reinvite
import DoorAccess.Video.Reuse
import DoorAccess.Httpx.CutOff
import DoorAccess.Httpx.Json
import DoorAccess.Httpx.RoundTrip
import DoorAccess.Control.Extract
import DoorAccess.Config.OwnNumber
import DoorAccess.Listen.Subscribe
import DoorAccess.Httpx.Server
import DoorAccess.Listen.DedupKey
import DoorAccess.Video.AnnexB
import DoorAccess.Video.AvcConfig
import DoorAccess.Video.Stamps
import DoorAccess.Unlock.Outcome
import DoorAccess.Video.Starting
import DoorAccess.Httpx.Chunks
import DoorAccess.Httpx.Held
import DoorAccess.Control.Depth
import DoorAccess.Config.Print
import DoorAccess.Control.Connections
import DoorAccess.HaPush
import DoorAccess.Video.Preview
import DoorAccess.Video.Rtcp
import DoorAccess.WireSender.Watcher
import DoorAccess.Daemon.Pushes
import DoorAccess.Daemon.Doorbell
import DoorAccess.Daemon.Listeners
