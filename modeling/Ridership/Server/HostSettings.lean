import Ridership.Server.Address
import Ridership.Text.Blank
import Ridership.Text.Quoted

/-!
# Settings of the host
-/

namespace Ridership.Server

/-- Where to listen, and the log to load beforehand. -/
structure HostSettings where
  address : SocketAddress
  preload : Option String
  deriving DecidableEq, Repr

/-- The variable of the environment that says where to listen. -/
def addressVariable : String := "PAXLOG_ADDR"

/-- Where to listen when nobody says. -/
def defaultAddress : String := "127.0.0.1:3000"

/-- A text that is no address. -/
structure AddressFault where
  text : String
  deriving DecidableEq, Repr

/-- The words for a fault. -/
def AddressFault.message (f : AddressFault) : String :=
  s!"invalid {addressVariable} {Text.quoted f.text}: invalid socket address syntax"

/-- The settings from what was said, where blanks around an address do not
count and nothing but blanks says nothing. -/
def HostSettings.ofParts (address preload : Option String) :
    Except AddressFault HostSettings :=
  let said :=
    (address.map fun text => Text.trimmed text.toList).filter
      fun text => !text.isEmpty
  let text := said.getD defaultAddress.toList
  match SocketAddress.read? text with
  | some address => .ok { address, preload }
  | none => .error ⟨String.ofList text⟩

end Ridership.Server
