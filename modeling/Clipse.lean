import Clipse.App.Proof.Fuzzy
import Clipse.App.Proof.History
import Clipse.App.Proof.Peek
import Clipse.App.Proof.Popup
import Clipse.Clipboard.Linux
import Clipse.Clipboard.Proof.Base64
import Clipse.Clipboard.Proof.Blocklist
import Clipse.Clipboard.Proof.Cards
import Clipse.Clipboard.Proof.Desktop
import Clipse.Clipboard.Proof.Echo
import Clipse.Clipboard.Proof.Identity
import Clipse.Clipboard.Proof.Linux
import Clipse.Clipboard.Proof.MacOs
import Clipse.Clipboard.Proof.RoundTrip
import Clipse.Clipboard.Proof.Windows
import Clipse.Clipboard.Sensitive
import Clipse.Clipboard.Watch
import Clipse.Clipboard.Windows
import Clipse.Core.Proof.Hlc
import Clipse.Crypto.Proof.Agreement
import Clipse.Crypto.Proof.Authorized
import Clipse.Crypto.Proof.Record
import Clipse.Daemon.Apply
import Clipse.Daemon.DialLoop
import Clipse.Daemon.Peers
import Clipse.Daemon.Proof.Backoff
import Clipse.Daemon.Proof.Browse
import Clipse.Daemon.Proof.Ceremony
import Clipse.Daemon.Proof.Echo
import Clipse.Daemon.Proof.Events
import Clipse.Daemon.Proof.Installation
import Clipse.Daemon.Proof.LocalChange
import Clipse.Daemon.Proof.LookAround
import Clipse.Daemon.Proof.Offer
import Clipse.Daemon.Proof.OwnWrite
import Clipse.Daemon.Proof.Paste
import Clipse.Daemon.Proof.Peers
import Clipse.Daemon.Proof.Privacy
import Clipse.Daemon.Proof.Purge
import Clipse.Daemon.Proof.Quota
import Clipse.Daemon.Proof.Revocation
import Clipse.Daemon.Proof.Routes
import Clipse.Daemon.Proof.Saved
import Clipse.Daemon.Proof.Secrets
import Clipse.Ipc.Proof.Codec
import Clipse.Ipc.Proof.Endpoint
import Clipse.Ipc.Proof.Stream
import Clipse.Lib.Lines
import Clipse.Lib.Rest
import Clipse.Lib.Utf
import Clipse.Net.Dial
import Clipse.Net.Pack
import Clipse.Net.Proof.Candidate
import Clipse.Net.Proof.Dial
import Clipse.Net.Proof.Discovery
import Clipse.Net.Proof.Feed
import Clipse.Net.Proof.Rekey
import Clipse.Net.Proof.Unpack
import Clipse.Store.Proof.Clock
import Clipse.Store.Proof.Disk
import Clipse.Store.Proof.Eviction
import Clipse.Store.Proof.Paging
import Clipse.Store.Proof.RoundTrip
import Clipse.Store.Proof.Schema
import Clipse.Store.Proof.Searching
import Clipse.Store.Proof.Tombstone
import Clipse.Store.Schema
import Clipse.Sync.Fleet
import Clipse.Sync.Proof.Authentic
import Clipse.Sync.Proof.Blobs
import Clipse.Sync.Proof.Chunk
import Clipse.Sync.Proof.Deadlock
import Clipse.Sync.Proof.Fate
import Clipse.Sync.Proof.Fleet
import Clipse.Sync.Proof.Gossip
import Clipse.Sync.Proof.LoopGuard
import Clipse.Sync.Proof.Writers
