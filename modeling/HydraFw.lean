import HydraFw.Lib.Runs
import HydraFw.Lib.Rams
import HydraFw.Rfal.Api
import HydraFw.Card.State
import HydraFw.T4t.Commands
import HydraFw.T4t.Exchange
import HydraFw.T4t.Answers
import HydraFw.T4t.Confine
import HydraFw.T4t.Files
import HydraFw.T4t.Effect
import HydraFw.T4t.Isolation
import HydraFw.T4t.Select
import HydraFw.MifUl.Commands
import HydraFw.MifUl.Tag
import HydraFw.Ce.Engine
import HydraFw.Ce.Session
import HydraFw.Ce.Steps
import HydraFw.Ce.Pending
import HydraFw.Ce.Handshake
import HydraFw.Ce.HandOff
import HydraFw.Ce.Response
import HydraFw.Ce.Selection
import HydraFw.Bbio.Engine
import HydraFw.Bbio.Exchange
import HydraFw.Lib.Ring
import HydraFw.Sump.Analyser
import HydraFw.Sump.Capture
import HydraFw.Console.Modes
import HydraFw.Console.Isolation
import HydraFw.Tag.Properties
import HydraFw.Ce.StartRecord
import HydraFw.Bbio.Config
import HydraFw.Poller.Scan
import HydraFw.Poller.Inventory
import HydraFw.Ce.Rearm
import HydraFw.Lib.Slots
import HydraFw.Console.Tokens
import HydraFw.Console.Walk
import HydraFw.Console.Carried
import HydraFw.Console.Once
import HydraFw.Reader.Apdu
import HydraFw.Reader.Blocks
import HydraFw.Reader.Reassembly
import HydraFw.Reader.Numbering
import HydraFw.Lib.Iso14443
import HydraFw.Lib.Matching
import HydraFw.Console.Trigger
import HydraFw.Bsp.Cycles
import HydraFw.Console.Entry
import HydraFw.Sump.Framing
import HydraFw.Console.Leaving
import HydraFw.OneWire.Bus
import HydraFw.OneWire.Scan
import HydraFw.Lib.Iso7816
import HydraFw.Common.Bytes
import HydraFw.Smartcard.Atr
import HydraFw.Lib.Lines
import HydraFw.Console.Script
import HydraFw.Lib.Scanf
import HydraFw.Console.Supervise
import HydraFw.Can.Slcan
import HydraFw.Lib.Taps
import HydraFw.Jtag.Scan
import HydraFw.Lib.Chunks
import HydraFw.Bbio.Bounds
import HydraFw.Reader.Chaining
import HydraFw.Reader.Parsing
import HydraFw.Console.Checks
import HydraFw.Console.Arguments
import HydraFw.Console.Write
import HydraFw.Console.Transfer
import HydraFw.Reader.Send
import HydraFw.MifUl.Compat
import HydraFw.Spi.Avr
import HydraFw.Common.Hex
import HydraFw.Common.Escapes
import HydraFw.Common.Printf
import HydraFw.Sd.Display
import HydraFw.Sd.Stored
import HydraFw.Bsp.Delay
import HydraFw.Lib.Digits
import HydraFw.Can.RoundTrip
import HydraFw.Sd.Csd
import HydraFw.Jtag.Pins
import HydraFw.Jtag.Wires
import HydraFw.Jtag.Brute
import HydraFw.Lib.Layouts
import HydraFw.Jtag.Idcode
import HydraFw.Lib.Serial
import HydraFw.Jtag.OpenOcd
import HydraFw.Lib.BitBuf
import HydraFw.Lib.Crc
import HydraFw.Lib.Pulses
import HydraFw.Lib.Manchester
import HydraFw.Lib.Picc
import HydraFw.Lib.Polling
import HydraFw.Lib.Trie
import HydraFw.Lib.Vicinity
import HydraFw.Rfal.Codes
import HydraFw.Rfal.Crc
import HydraFw.Iso15693.Coder
import HydraFw.Iso15693.Transmit
import HydraFw.Iso15693.Wire
import HydraFw.Iso15693.Decoder
import HydraFw.Iso15693.Answers
import HydraFw.Nfca.Poller
import HydraFw.Nfcv.Poller
import HydraFw.Nfcv.Masks
import HydraFw.Nfcv.Refine
import HydraFw.Nfcv.Memory
import HydraFw.Nfcv.Air
import HydraFw.Nfcv.Complete
import HydraFw.Nfcv.Sleep
import HydraFw.Nfca.Frames
import HydraFw.Nfca.Air
import HydraFw.Nfca.Safety
import HydraFw.Nfca.Listing
import HydraFw.Nfca.Ends
import HydraFw.Nfca.Ideal
import HydraFw.Nfca.Walk
import HydraFw.Nfca.Complete
import HydraFw.Nfca.Select
