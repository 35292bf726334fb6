import PieceStream.Piece.Block
import PieceStream.Plan.Candidate

/-!
# Building a piece

A plan becomes a piece if its candidates lie end to end from the end of the header to the
declared size and each of them is sound.  The first fault found is reported: an empty plan,
then the two ends, then candidate by candidate.  When all checks have passed, neighbours over
the same item are joined into one run, which keeps the source and the item of the first.
-/

namespace PieceStream

/-- Why a plan describes no piece. -/
inductive PlanError where
  | emptyPlan
  /-- The first candidate does not start at the end of the header. -/
  | headerMisaligned (expected actual : Nat)
  /-- The last candidate does not end at the size of the piece. -/
  | footerMisaligned (expected actual : Nat)
  /-- A candidate does not end where the next one starts. -/
  | notContiguous (index endOffset nextOffset : Nat)
  /-- The source or the item of a candidate is missing. -/
  | unresolvable (index : Nat)
  /-- An offset of a candidate exceeds a word. -/
  | offsetOverflow (index : Nat)
  /-- The declared length of a candidate is not that of its parts. -/
  | lengthMismatch (index declared actual : Nat)
  deriving DecidableEq, Repr

/-- The wording of a plan error. -/
def PlanError.message : PlanError → String
  | .emptyPlan => "no blocks provided"
  | .headerMisaligned expected actual =>
    s!"first block must start at the end of the header (offset {expected}), found {actual}"
  | .footerMisaligned expected actual =>
    s!"last block must end at the piece size ({expected}), found {actual}"
  | .notContiguous index endOffset nextOffset =>
    s!"blocks must be contiguous: block {index} ends at {endOffset} but the next starts at " ++
      s!"{nextOffset}"
  | .unresolvable index =>
    s!"block {index} must be either inline or reference an item, and the item and source need " ++
      "to be preloaded"
  | .offsetOverflow index => s!"block {index} extends past the largest representable offset"
  | .lengthMismatch index declared actual =>
    s!"block {index} declares {declared} bytes but its prefix, identifier and payload add up to " ++
      s!"{actual}"

/-- A piece: the header, then the blocks. -/
structure Piece where
  header : Bytes
  size : Nat
  blocks : List Block
  deriving DecidableEq, Repr

namespace Candidate

/-- Where the prefix and identifier of a candidate stand. -/
def framing (c : Candidate) : Framing := ⟨c.pieceOffset.toNat, c.lengthPrefix, c.identifier⟩

/-- The length of the parts of a candidate. -/
def partsLength (c : Candidate) : Nat :=
  c.lengthPrefix.length + c.identifier.length + c.data.payloadLength

/-- The offset after the last byte as declared, as an integer. -/
def stop (c : Candidate) : Nat := c.pieceOffset.toNat + c.length.toNat

/-- Where candidate `index` ends as declared. -/
def declaredEnd (index : Nat) (c : Candidate) : Except PlanError Nat :=
  if c.stop < wordLimit then .ok c.stop else .error (.offsetOverflow index)

/-- Candidate `index`, which ends at `stop`, has to end where the next one starts. -/
def checkMeeting (index stop : Nat) (next : Option Candidate) : Except PlanError Unit :=
  match next with
  | some next =>
    if stop = next.pieceOffset.toNat then .ok ()
    else .error (.notContiguous index stop next.pieceOffset.toNat)
  | none => .ok ()

/-- The payload of candidate `index` has to have an origin, and its item range has to be one. -/
def checkOrigin (index : Nat) (c : Candidate) : Except PlanError Unit :=
  match c.data with
  | .inline _ => .ok ()
  | .item (some _) (some _) offset length =>
    if offset.toNat + length.toNat < wordLimit then .ok () else .error (.offsetOverflow index)
  | .item _ _ _ _ => .error (.unresolvable index)

/-- The declared length of candidate `index` has to be that of its parts. -/
def checkLength (index : Nat) (c : Candidate) : Except PlanError Unit :=
  if wordLimit ≤ c.partsLength then .error (.offsetOverflow index)
  else if c.partsLength = c.length.toNat then .ok ()
  else .error (.lengthMismatch index c.length.toNat c.partsLength)

/-- The checks of candidate `index`, before `next`.  That it meets the next one is checked
before the candidate itself. -/
def check (index : Nat) (next : Option Candidate) (c : Candidate) : Except PlanError Unit := do
  let stop ← c.declaredEnd index
  checkMeeting index stop next
  c.checkOrigin index
  c.checkLength index

/-- The checks of candidates in order, the first of which has number `index`. -/
def checkAll (index : Nat) : List Candidate → Except PlanError Unit
  | [] => .ok ()
  | c :: rest => do
    c.check index rest.head?
    checkAll (index + 1) rest

/-- Joins neighbours over the same item.  `growing` is the run that the candidates before have
left open; a candidate with a given payload or of another item closes it, and so does the end.
The first candidate has number `index`. -/
def joinRuns (index : Nat) (growing : Option ItemRun) :
    List Candidate → Except PlanError (List Block)
  | [] => .ok (growing.map Block.run).toList
  | c :: rest =>
    match c.data with
    | .inline payload => do
      let blocks ← joinRuns (index + 1) none rest
      return (growing.map Block.run).toList ++ .inline ⟨c.framing, payload⟩ :: blocks
    | .item (some source) (some item) offset length =>
      let entry : RunEntry := ⟨c.framing, offset.toNat, length.toNat⟩
      match growing with
      | some run =>
        if run.item.id = item.id then joinRuns (index + 1) (some (run.push entry)) rest
        else do
          let blocks ← joinRuns (index + 1) (some ⟨source, item, entry, []⟩) rest
          return .run run :: blocks
      | none => joinRuns (index + 1) (some ⟨source, item, entry, []⟩) rest
    | .item _ _ _ _ => .error (.unresolvable index)

end Candidate

namespace Plan

/-- There have to be candidates; the first has to start at the end of the header and the last
has to end at the declared size. -/
def checkEnds (plan : Plan) : Except PlanError Unit :=
  match plan.candidates with
  | [] => .error .emptyPlan
  | first :: rest =>
    if first.pieceOffset.toNat = plan.header.length then do
      let stop ← (rest.getLastD first).declaredEnd rest.length
      if stop = plan.pieceSize.toNat then .ok ()
      else .error (.footerMisaligned plan.pieceSize.toNat stop)
    else .error (.headerMisaligned plan.header.length first.pieceOffset.toNat)

/-- The piece that a plan describes. -/
def build (plan : Plan) : Except PlanError Piece := do
  plan.checkEnds
  Candidate.checkAll 0 plan.candidates
  let blocks ← Candidate.joinRuns 0 none plan.candidates
  return ⟨plan.header, plan.pieceSize.toNat, blocks⟩

end Plan

/-- The number of item runs. -/
def Piece.runCount (piece : Piece) : Nat := piece.blocks.countP Block.isRun

end PieceStream
