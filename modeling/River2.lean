import River2.Library.Scanner
import River2.Packet
import River2.Framebuf
import River2.Reassembly
import River2.Resync
import River2.Library.Program
import River2.Firmware
import River2.Session
import River2.Auth
import River2.Handshake
import River2.Transcript
import River2.Recording
import River2.Commands
import River2.Stream
import River2.StatusWait
import River2.Freshness
import River2.Telemetry
import River2.Residue
import River2.HandOver
import River2.MainLoop
import River2.Station
import River2.Extraction
import River2.CryptoFaults
import River2.Promptness
import River2.LastRead
import River2.Ledger
import River2.Dispatch
import River2.Getters
import River2.BleClient
import River2.Timeouts
import River2.Verdicts
import River2.GattTable
import River2.Discovery
import River2.PairSelection
import River2.Subscription
import River2.Checksum
import River2.Codec
import River2.Corruption
import River2.Checked
import River2.Unpadding
import River2.HexPayload
import River2.AllocFailure
import River2.FramebufSafety
import River2.BufferGrowth
import River2.FrameSelection
import River2.Toggles
import River2.Usable
import River2.Library.Fields
import River2.Records
import River2.Battery
import River2.Config
import River2.Library.OneShot
import River2.Pushbutton
import River2.Library.Custody
import River2.NotifyBuffers
import River2.Peer
import River2.Delivery
import River2.AppMain
import River2.CurveField
import River2.EccBytes
import River2.EccKeys
import River2.MicroEcc
