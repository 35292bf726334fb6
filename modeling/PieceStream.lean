import PieceStream.Bytes.Hex
import PieceStream.Bytes.Varint
import PieceStream.Json.Text
import PieceStream.Piece.Content
import PieceStream.Plan.Form
import PieceStream.Proofs.Compaction
import PieceStream.Proofs.Delivery
import PieceStream.Proofs.Places
import PieceStream.Proofs.Segments
import PieceStream.Proofs.Suspension
import PieceStream.Reading.Script
import PieceStream.Proofs.Stretches
import PieceStream.Proofs.Traffic
import PieceStream.Proofs.Steps
import PieceStream.Proofs.Holdings
import PieceStream.Proofs.Shortage
import PieceStream.Proofs.StrictLayout
import PieceStream.Proofs.StrictCursor
import PieceStream.Proofs.StrictReaders
import PieceStream.Proofs.StrictTasks
import PieceStream.Proofs.Standing
import PieceStream.Proofs.Guise
import PieceStream.Proofs.Interruptions
import PieceStream.Proofs.Positions
import PieceStream.Proofs.Observation
import PieceStream.Proofs.Releases
import PieceStream.Proofs.Lookups
import PieceStream.Proofs.Varints
import PieceStream.Proofs.Delimiting
import PieceStream.Proofs.Poisoning
import PieceStream.Proofs.Likeness
import PieceStream.Proofs.TaskLikeness
import PieceStream.Proofs.Solitude
import PieceStream.Proofs.Ranges
import PieceStream.Proofs.Sufficiency
import PieceStream.Proofs.Searching
import PieceStream.Proofs.Courses
import PieceStream.Proofs.Custody
import PieceStream.Proofs.Greed
import PieceStream.Proofs.Symbols
import PieceStream.Proofs.Tokens
import PieceStream.Proofs.Trees
import PieceStream.Proofs.Records
import PieceStream.Proofs.Forms
import PieceStream.Proofs.Spellings
import PieceStream.Proofs.Chaining
import PieceStream.Proofs.Seeking
import PieceStream.Proofs.Exhaustion
import PieceStream.Proofs.Codewords
import PieceStream.Proofs.Fields
import PieceStream.Proofs.Openings
import PieceStream.Proofs.ItemPaths
import PieceStream.Proofs.Agreement
