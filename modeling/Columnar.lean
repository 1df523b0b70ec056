import Columnar.Config.Document
import Columnar.Proofs.Candidates.Repeats
import Columnar.Proofs.Column.Growth
import Columnar.Proofs.Log.Transcript
import Columnar.Proofs.Scan.Accounts
import Columnar.Proofs.Scan.Conjunction
import Columnar.Proofs.Scan.Pruning
import Columnar.Proofs.Scan.Snapshot
import Columnar.Proofs.Words.Scan
import Columnar.Proofs.Json.Reading
import Columnar.Proofs.Column.Narrowing
import Columnar.Proofs.Log.Decoding
import Columnar.Proofs.Scan.Lookup
import Columnar.Proofs.Column.Chain
import Columnar.Proofs.Scan.Cells
import Columnar.Proofs.Scan.Sequence
import Columnar.Proofs.Bounds
import Columnar.Proofs.Scan.RowIds
import Columnar.Proofs.Config
