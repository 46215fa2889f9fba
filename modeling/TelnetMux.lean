import TelnetMux.Basic
import TelnetMux.Transmit
import TelnetMux.Ring
import TelnetMux.Transport
import TelnetMux.Connect
import TelnetMux.LineOrder
import TelnetMux.Receive
import TelnetMux.Filter
import TelnetMux.Decode
import TelnetMux.Delivery
import TelnetMux.RxBounds
import TelnetMux.Logfile
import TelnetMux.Invariant
import TelnetMux.System
import TelnetMux.Reconnect
import TelnetMux.FileIO
import TelnetMux.Console
import TelnetMux.ConsoleIO
import TelnetMux.Reorder
import TelnetMux.Debug
import TelnetMux.ConsoleSet
import TelnetMux.Replay
import TelnetMux.Drops
import TelnetMux.Ownership
