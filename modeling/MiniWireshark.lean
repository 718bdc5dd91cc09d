import MiniWireshark.Bounds
import MiniWireshark.Records
import MiniWireshark.Handles
import MiniWireshark.Flags
import MiniWireshark.Sessions
import MiniWireshark.Lookup
import MiniWireshark.Live
import MiniWireshark.Saving
import MiniWireshark.Reopen
import MiniWireshark.Progress
import MiniWireshark.Stopping
import MiniWireshark.Streams
import MiniWireshark.Recent
import MiniWireshark.Wire
import MiniWireshark.SaveOpen
import MiniWireshark.Checksum
import MiniWireshark.HexView
import MiniWireshark.Sorting
import MiniWireshark.Tells
import MiniWireshark.Table
import MiniWireshark.Payload
import MiniWireshark.Summaries
import MiniWireshark.Info
import MiniWireshark.Fragments
import MiniWireshark.Navigation
import MiniWireshark.Desktop
