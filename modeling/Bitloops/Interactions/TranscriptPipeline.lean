import Bitloops.Foundation.OrderBy
import Bitloops.Foundation.Segments
import Bitloops.Interactions.Types
import Bitloops.LanguageAdapter.RustImports
import Mathlib

/-!
# Transcript entries of turns

The entries of a session are cut at the chat messages of the user, and the segments are assigned
to the turns of the session in the order of the turns.  A turn without a segment gets its prompt
as an entry.
-/

namespace Bitloops
namespace Interactions

open LanguageAdapter (Text trim)
open Segments

/-! ## Entries -/

inductive TranscriptActor where
  | user
  | assistant
  | system
  deriving DecidableEq, Repr

inductive TranscriptVariant where
  | chat
  | thinking
  | toolUse
  | toolResult
  deriving DecidableEq, Repr

inductive TranscriptSource where
  | transcript
  | promptFallback
  deriving DecidableEq, Repr

structure TranscriptEntry where
  entryId : String
  sessionId : String
  turnId : Option String
  order : ℤ
  timestamp : Option String
  actor : TranscriptActor
  variant : TranscriptVariant
  source : TranscriptSource
  text : String
  toolUseId : Option String
  toolKind : Option String
  isError : Bool
  deriving DecidableEq, Repr

inductive DerivationScope where
  | turn (id : String)
  | session

def DerivationScope.label : DerivationScope → String
  | turn id => id
  | session => "session"

/-- `{:0width}`: the sign stands before the zeros. -/
def zeroPadded (width : ℕ) (n : ℤ) : String :=
  let digits := toString n.natAbs
  let zeros := fun count => String.ofList (List.replicate (count - digits.length) '0')
  if n < 0 then "-" ++ zeros (width - 1) ++ digits else zeros width ++ digits

def makeEntryId (sessionId : String) (scope : DerivationScope) (order : ℤ) : String :=
  "entry:" ++ sessionId ++ ":" ++ scope.label ++ ":" ++ zeroPadded 4 order

/-! ## The prompt of a turn as an entry -/

def openTag : Text := "<user_query>".toList

def closeTag : Text := "</user_query>".toList

/-- The text without the tags, after `skip` characters that belong to one. -/
def stripTagsFrom : ℕ → Text → Text
  | _, [] => []
  | skip + 1, _ :: text => stripTagsFrom skip text
  | 0, c :: text =>
    let lower := (c :: text).map Char.toLower
    if openTag.isPrefixOf lower then stripTagsFrom (openTag.length - 1) text
    else if closeTag.isPrefixOf lower then stripTagsFrom (closeTag.length - 1) text
    else c :: stripTagsFrom 0 text

def stripUserQueryTags (text : Text) : Text :=
  let lower := text.map Char.toLower
  if ¬openTag <:+: lower ∧ ¬closeTag <:+: lower then text else stripTagsFrom 0 text

def synthesizePromptFallbackEntries (sessionId : String) (turn : InteractionTurn) :
    List TranscriptEntry :=
  let text := trim (stripUserQueryTags turn.prompt.toList)
  if text = [] then []
  else
    [{ entryId := makeEntryId sessionId (.turn turn.turnId) 0
       sessionId
       turnId := some turn.turnId
       order := 0
       timestamp := if turn.startedAt = "" then none else some turn.startedAt
       actor := .user
       variant := .chat
       source := .promptFallback
       text := String.ofList text
       toolUseId := none
       toolKind := none
       isError := false }]

/-! ## Segments of turns -/

def isUserChat (entry : TranscriptEntry) : Bool := entry.actor = .user && entry.variant = .chat

def retagEntries (entries : List TranscriptEntry) (turnId : String) : List TranscriptEntry :=
  entries.map fun e => { e with turnId := some turnId }

/-- Turns are compared by their numbers, then by their starts, then by their ids. -/
def turnOrder (turn : InteractionTurn) : ℕ ×ₗ String ×ₗ String :=
  toLex (turn.turnNumber.toNat, toLex (turn.startedAt, turn.turnId))

/-- The sorted indices, each with the turn that it stands for. -/
def sortedIndices (turns : List InteractionTurn) : List (InteractionTurn × ℕ) :=
  orderBy (fun numbered => turnOrder numbered.1) turns.zipIdx

def sessionSegments (entries : List TranscriptEntry) : List (List TranscriptEntry) :=
  mergeFirst isUserChat (segmentsFrom isUserChat [] entries)

def assignSegment (sorted : List (InteractionTurn × ℕ)) (result : List (List TranscriptEntry))
    (numbered : List TranscriptEntry × ℕ) : List (List TranscriptEntry) :=
  match sorted[numbered.2]? with
  | some (turn, turnIdx) => result.set turnIdx (retagEntries numbered.1 turn.turnId)
  | none =>
    match sorted.getLast? with
    | some (turn, turnIdx) =>
      result.modify turnIdx (· ++ retagEntries numbered.1 turn.turnId)
    | none => result

def partitionSessionEntriesToTurns (sessionId : String) (entries : List TranscriptEntry)
    (turns : List InteractionTurn) : List (List TranscriptEntry) :=
  let result := List.replicate turns.length []
  if turns = [] then result
  else
    let sorted := sortedIndices turns
    let segments := sessionSegments entries
    let result := segments.zipIdx.foldl (assignSegment sorted) result
    if segments.length < sorted.length then
      (sorted.drop segments.length).foldl
        (fun result numbered =>
          result.set numbered.2 (synthesizePromptFallbackEntries sessionId numbered.1))
        result
    else result

end Interactions
end Bitloops
