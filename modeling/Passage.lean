import Passage.Proofs.Afresh
import Passage.Proofs.Arguments
import Passage.Proofs.Bookkeeping
import Passage.Proofs.ChainSurvey
import Passage.Proofs.Copies
import Passage.Proofs.CursorScanning
import Passage.Proofs.DebugCalls
import Passage.Proofs.Demands
import Passage.Proofs.Distances
import Passage.Proofs.EasedJourneys
import Passage.Proofs.Flags
import Passage.Proofs.FormulaRefusals
import Passage.Proofs.Grants
import Passage.Proofs.Labels
import Passage.Proofs.LeftmostFlags
import Passage.Proofs.Lookahead
import Passage.Proofs.NewNames
import Passage.Proofs.Postponed
import Passage.Proofs.RankedHelpers
import Passage.Proofs.Readable
import Passage.Proofs.Recency
import Passage.Proofs.Stability
import Passage.Proofs.Taxonomy
import Passage.Proofs.Thrift
