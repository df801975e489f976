import SoteriaAegis.Rust.Outcome
import SoteriaAegis.Rust.Bytes
import SoteriaAegis.Rust.Decoder
import SoteriaAegis.Rust.Run
import SoteriaAegis.Access.Roster
import SoteriaAegis.Crypto.Crates
import SoteriaAegis.Crypto.Keys
import SoteriaAegis.Crypto.Aead
import SoteriaAegis.Crypto.Hierarchy
import SoteriaAegis.Slots.KeySlot
import SoteriaAegis.Slots.Table
import SoteriaAegis.Slots.Wire
import SoteriaAegis.Slots.Parsing
import SoteriaAegis.Slots.Layout
import SoteriaAegis.Slots.Runs
import SoteriaAegis.Slots.WellFormed
import SoteriaAegis.Slots.Tampering
import SoteriaAegis.Slots.Members
import SoteriaAegis.Vault.Vault
import SoteriaAegis.Vault.Coherence
import SoteriaAegis.Vault.Access
import SoteriaAegis.Vault.Opening
import SoteriaAegis.Vault.OneMaster
import SoteriaAegis.Vault.Binding
import SoteriaAegis.Cli.Commands
import SoteriaAegis.Cli.Files
import SoteriaAegis.Cli.Sessions
import SoteriaAegis.Cli.EndToEnd
import SoteriaAegis.Rust.Lists
import SoteriaAegis.Slots.Batch
import SoteriaAegis.Cli.Sealed
import SoteriaAegis.Crypto.KeyTree
import SoteriaAegis.Slots.Lifecycle
import SoteriaAegis.Vault.Calls
import SoteriaAegis.Cli.Adding
import SoteriaAegis.Vault.Revocation
import SoteriaAegis.Cli.Race
import SoteriaAegis.Cli.Interruption
import SoteriaAegis.Vault.Panics
import SoteriaAegis.Vault.Refusals
import SoteriaAegis.Vault.Errors
import SoteriaAegis.Rust.Memory
import SoteriaAegis.Rust.Refinement
import SoteriaAegis.Memory.Boxes
import SoteriaAegis.Memory.Keyring
import SoteriaAegis.Memory.Derivation
import SoteriaAegis.Memory.Vaults
import SoteriaAegis.Memory.VaultRuns
import SoteriaAegis.Memory.Limits
import SoteriaAegis.Rust.Program
import SoteriaAegis.Access.Cabinet
import SoteriaAegis.Cli.Flags
import SoteriaAegis.Cli.Tasks
import SoteriaAegis.Cli.Frame
import SoteriaAegis.Cli.Interleaving
import SoteriaAegis.Cli.Requests
import SoteriaAegis.Cli.Granted
import SoteriaAegis.Cli.Serving
import SoteriaAegis.Cli.Fidelity
import SoteriaAegis.Cli.Recovery
import SoteriaAegis.Cli.Crashes
import SoteriaAegis.Cli.Diagnosis
import SoteriaAegis.Cli.Accesses
import SoteriaAegis.Cli.Endings
import SoteriaAegis.Cli.Confinement
import SoteriaAegis.Memory.Commands
import SoteriaAegis.Memory.Exits
