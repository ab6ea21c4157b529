import AccountCache.Bytes
import AccountCache.Cipher.ChaCha20
import AccountCache.Cipher.Envelope
import AccountCache.Cipher.Poly1305
import AccountCache.Connection
import AccountCache.Content
import AccountCache.Content.Edit
import AccountCache.Disk
import AccountCache.Entropy
import AccountCache.Failure
import AccountCache.Handle
import AccountCache.Host
import AccountCache.Host.Request
import AccountCache.Host.Stores
import AccountCache.Log
import AccountCache.MasterKey
import AccountCache.Naming
import AccountCache.Node
import AccountCache.Number.Binary64
import AccountCache.Number.Literal
import AccountCache.Options
import AccountCache.Proofs.Bracketing
import AccountCache.Proofs.Children
import AccountCache.Proofs.Cipher.Envelope
import AccountCache.Proofs.Connection
import AccountCache.Proofs.Decoding
import AccountCache.Proofs.Disk.Directories
import AccountCache.Proofs.Disk.Files
import AccountCache.Proofs.Disk.Folder
import AccountCache.Proofs.Disk.Images
import AccountCache.Proofs.Draining
import AccountCache.Proofs.Drawing
import AccountCache.Proofs.Enumeration
import AccountCache.Proofs.Failures
import AccountCache.Proofs.Fingerprints
import AccountCache.Proofs.Follows
import AccountCache.Proofs.Guard
import AccountCache.Proofs.HandleKeys.Accepting
import AccountCache.Proofs.HandleKeys.Creating
import AccountCache.Proofs.HandleKeys.Keeping
import AccountCache.Proofs.HandleKeys.Life
import AccountCache.Proofs.HandleKeys.Reading
import AccountCache.Proofs.HandleKeys.Sealing
import AccountCache.Proofs.HandleKeys.Wiping
import AccountCache.Proofs.History
import AccountCache.Proofs.Host.Aligned
import AccountCache.Proofs.Host.Deleting
import AccountCache.Proofs.Host.Enduring
import AccountCache.Proofs.Host.Freshness
import AccountCache.Proofs.Host.Opening
import AccountCache.Proofs.Host.Ready
import AccountCache.Proofs.Host.Recalling
import AccountCache.Proofs.Host.Reopening
import AccountCache.Proofs.Host.Seats
import AccountCache.Proofs.Isolation.Lodging
import AccountCache.Proofs.Isolation.Paths
import AccountCache.Proofs.Isolation.Rooting
import AccountCache.Proofs.Isolation.Runs
import AccountCache.Proofs.Isolation.Service
import AccountCache.Proofs.Isolation.Sharing
import AccountCache.Proofs.LastWrites
import AccountCache.Proofs.Lockstep
import AccountCache.Proofs.Lone
import AccountCache.Proofs.Preservation
import AccountCache.Proofs.Provision
import AccountCache.Proofs.Quiet
import AccountCache.Proofs.Rekeying.Connection
import AccountCache.Proofs.Rekeying.Content
import AccountCache.Proofs.Rekeying.Founded
import AccountCache.Proofs.Rekeying.Host
import AccountCache.Proofs.Rekeying.Opening
import AccountCache.Proofs.Rekeying.Runs
import AccountCache.Proofs.Rekeying.Table
import AccountCache.Proofs.Removal.Files
import AccountCache.Proofs.Removal.Housing
import AccountCache.Proofs.Removal.Reopening
import AccountCache.Proofs.Removal.Runs
import AccountCache.Proofs.Removal.Stores
import AccountCache.Proofs.Rollback
import AccountCache.Proofs.Schema
import AccountCache.Proofs.Search
import AccountCache.Proofs.Standard
import AccountCache.Proofs.Text.Base64Url
import AccountCache.Proofs.Throughout
import AccountCache.Proofs.Truncating
import AccountCache.QueryFault
import AccountCache.Rows
import AccountCache.Rows.Lemmas
import AccountCache.Selector
import AccountCache.Selector.Search
import AccountCache.Share
import AccountCache.Slot
import AccountCache.Table
import AccountCache.Table.HandleKeys
import AccountCache.Table.Op
import AccountCache.Table.Opening
import AccountCache.Text.Base64Url
import AccountCache.Text.Diagnostic
import AccountCache.Text.Quoted
import AccountCache.Text.Utf8
import AccountCache.Text.Visible
import AccountCache.Value
