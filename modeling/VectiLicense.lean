import VectiLicense.L1Codec.Base32Round
import VectiLicense.L2Transport.Line
import VectiLicense.L1Hash.Pieces
import VectiLicense.L2Transport.ChunkRuns
import VectiLicense.L3Ed25519.Keys
import VectiLicense.L3Ed25519.LimbVerify
import VectiLicense.L3Ed25519.Signatures
import VectiLicense.L3Verify.NoOracle
import VectiLicense.L3Verify.Precedence
import VectiLicense.L3Verify.Rotation
import VectiLicense.L4Mark.Expiry
import VectiLicense.L4Mark.Threads
import VectiLicense.L5Hal.PosixIface
import VectiLicense.L5Hal.PosixMark
import VectiLicense.L5Hal.Registers
import VectiLicense.L6Bridge.Canonical
import VectiLicense.L6Bridge.Delivery
import VectiLicense.L6Bridge.Inbox
import VectiLicense.L6Bridge.Backends
import VectiLicense.L6Bridge.Portal
import VectiLicense.L8Examples.Activation
import VectiLicense.L7Mint.KeyFile
