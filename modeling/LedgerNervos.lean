import LedgerNervos.Molecule.Chunk
import LedgerNervos.Molecule.Reader
import LedgerNervos.Molecule.Run
import LedgerNervos.Molecule.Spec
import LedgerNervos.Molecule.Vectors
import LedgerNervos.Molecule.Tap
import LedgerNervos.Molecule.Emits
import LedgerNervos.Molecule.Codec
import LedgerNervos.Molecule.Offsets
import LedgerNervos.Molecule.Holds
import LedgerNervos.Device.Types
import LedgerNervos.Device.Reference
import LedgerNervos.Sign.Blockchain
import LedgerNervos.Sign.Annotated
import LedgerNervos.Sign.Readings
import LedgerNervos.Sign.Encoding
import LedgerNervos.Sign.Callback
import LedgerNervos.Sign.State
import LedgerNervos.Sign.Dispatch
import LedgerNervos.Display.Bech32
import LedgerNervos.Display.Text
import LedgerNervos.Sign.Handle
import LedgerNervos.Lts.Runs
import LedgerNervos.Sign.Events
import LedgerNervos.Sign.Steps
import LedgerNervos.Sign.HashView
import LedgerNervos.Sign.Frame
import LedgerNervos.Sign.Transcript
import LedgerNervos.Sign.Pieces
import LedgerNervos.Sign.Rejection
import LedgerNervos.Sign.KeyPath
import LedgerNervos.Sign.Inputs
import LedgerNervos.Sign.Witnesses
import LedgerNervos.Sign.LockArg
import LedgerNervos.Sign.Ledger
import LedgerNervos.Sign.Cells
import LedgerNervos.Sign.Sources
import LedgerNervos.Sign.Tally
import LedgerNervos.Sign.Books
import LedgerNervos.Sign.Strict
import LedgerNervos.Sign.Lines
import LedgerNervos.Sign.Finalized
import LedgerNervos.Sign.Accounting
import LedgerNervos.Sign.Exact
import LedgerNervos.Sign.ContractData
import LedgerNervos.Sign.Payments
import LedgerNervos.Sign.Grouping
import LedgerNervos.Sign.Signers
import LedgerNervos.Sign.Classification
import LedgerNervos.Lists.Changes
import LedgerNervos.Sign.MultiInput
import LedgerNervos.Sign.DaoMask
import LedgerNervos.Sign.Owner
import LedgerNervos.Sign.DataFlag
import LedgerNervos.Sign.DaoKinds
import LedgerNervos.Sign.Buffer
import LedgerNervos.Memory.Store
import LedgerNervos.Text.Decimal
import LedgerNervos.Display.Amounts
import LedgerNervos.Display.Strings
import LedgerNervos.Display.Guards
import LedgerNervos.Sign.OutputPrompt
import LedgerNervos.App.Message
import LedgerNervos.App.Undisplayable
import LedgerNervos.App.Pubkey
import LedgerNervos.App.Machine
import LedgerNervos.App.Consent
import LedgerNervos.App.Isolation
import LedgerNervos.App.MessageSession
import LedgerNervos.Bits.Groups
import LedgerNervos.Codes.Register
import LedgerNervos.Display.Regroup
import LedgerNervos.Display.AddressText
import LedgerNervos.Display.PathText
import LedgerNervos.Der.Integer
import LedgerNervos.Sign.Compact
import LedgerNervos.Sign.TransactionHash
import LedgerNervos.Sign.Decoding
import LedgerNervos.Sign.Handed
import LedgerNervos.Sign.ActiveCell
import LedgerNervos.Sign.Preimage
import LedgerNervos.Sign.FirstWitness
import LedgerNervos.Sign.Sighash
import LedgerNervos.Sign.MultisigDigest
import LedgerNervos.Sign.Commitment
import LedgerNervos.Display.AddressReader
import LedgerNervos.Sign.Destinations
import LedgerNervos.Codes.Bursts
import LedgerNervos.Display.Typos
import LedgerNervos.Display.HexText
import LedgerNervos.Display.ScreenText
import LedgerNervos.App.Errors
import LedgerNervos.App.Dialog
import LedgerNervos.App.Decisions
import LedgerNervos.App.Prompts
import LedgerNervos.App.Panel
import LedgerNervos.App.Shown
import LedgerNervos.App.Settings
import LedgerNervos.App.HashApproval
import LedgerNervos.App.Sessions
import LedgerNervos.App.Messages
