import SigningKeys.Container.Text
import SigningKeys.Files.KeyFile
import SigningKeys.Record.Description
import SigningKeys.Proofs.ByteReading
import SigningKeys.Proofs.FieldLine
import SigningKeys.Proofs.Utf8
import SigningKeys.Proofs.Authenticity
import SigningKeys.Proofs.CutContainers
import SigningKeys.Proofs.Truncation
import SigningKeys.Proofs.Lines
import SigningKeys.Proofs.FieldText
import SigningKeys.Proofs.LineGrammar
import SigningKeys.Proofs.CompleteRecords
import SigningKeys.Proofs.SoundRecords
import SigningKeys.Proofs.Rereading
import SigningKeys.Proofs.Base64
import SigningKeys.Proofs.PublicContainers
import SigningKeys.Proofs.Secrecy
import SigningKeys.Proofs.WrongPasswords
import SigningKeys.Proofs.AuditTrail
import SigningKeys.Proofs.LineOrder
import SigningKeys.Proofs.WrittenOnce
import SigningKeys.Proofs.KeyFiles
import SigningKeys.Proofs.GuardedBuffer
import SigningKeys.Proofs.UnlockOrder
import SigningKeys.Proofs.FailingStreams
import SigningKeys.Proofs.JoinedBuffers
import SigningKeys.Proofs.LineEndings
import SigningKeys.Proofs.Reserve
import SigningKeys.Proofs.FullSinks
import SigningKeys.Proofs.HexValues
import SigningKeys.Proofs.TableSearch
import SigningKeys.Proofs.Numbers
import SigningKeys.Proofs.Positions
