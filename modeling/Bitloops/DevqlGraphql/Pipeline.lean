import Bitloops.DevqlGraphql.Parser
import Bitloops.LanguageAdapter.UseTrees

/-!
# Pipelines and their texts

A pipeline is a list of stages with quoted arguments.  `runPipeline` is what it means: its stages
are applied one after the other, each to the arguments that it was given.  `renderPipeline` is its
text, in which white space may stand behind the commas and around the arrows.
-/

namespace Bitloops
namespace DevqlGraphql

open LanguageAdapter (Text Blank)

/-- A text between quotes that do not occur in it. -/
structure QuotedValue where
  quote : Char
  text : Text
  isQuote_quote : isQuote quote = true
  quote_notMem : quote ∉ text

structure NamedArgument where
  key : Text
  value : QuotedValue
  keyChars : ∀ c ∈ key, isNameChar c = true

/-- The stages that take a text without a name for it. -/
inductive ScopeStage where
  | repo
  | project
  | file
  deriving DecidableEq

def ScopeStage.name : ScopeStage → String
  | repo => "repo"
  | project => "project"
  | file => "file"

def ScopeStage.set (value : String) (parsed : ParsedDevqlQuery) : ScopeStage → ParsedDevqlQuery
  | repo => { parsed with repo := some value }
  | project => { parsed with projectPath := some value }
  | file => { parsed with file := some value }

/-- The names of the stages whose arguments are not named. -/
def unnamedStages : List String := ["repo", "project", "file", "select", "limit", "chatHistory"]

/-- The name of a stage with named arguments, a core stage or one that is registered. -/
structure StageName where
  text : Text
  ne_nil : text ≠ []
  nameChars : ∀ c ∈ text, isNameChar c = true
  named : String.ofList text ∉ unnamedStages
  registrable : ¬"__core_".toList <+: text

inductive PipelineStage where
  | scope (stage : ScopeStage) (value : QuotedValue)
  | chatHistory
  | named (name : StageName) (args : List NamedArgument)

/-! ## What a pipeline means -/

section Meaning

variable (parseF32 : String → Option Score)

/-- The core stages with named arguments. -/
def coreStages : List (String × (StageArgs → ParsedDevqlQuery → Except String ParsedDevqlQuery)) :=
  [("asOf", applyAsOf), ("selectArtefacts", applySelectArtefacts), ("files", applyFiles),
    ("artefacts", applyArtefacts), ("clones", applyClones parseF32),
    ("dependencies", applyDependencies), ("checkpoints", applyCheckpoints),
    ("historicalContext", applyHistoricalContext), ("contextGuidance", applyContextGuidance),
    ("telemetry", applyTelemetry)]

/-- What is not a core stage is kept as a call of a registered one. -/
def applyNamed (name : String) (args : StageArgs) (parsed : ParsedDevqlQuery) :
    Except String ParsedDevqlQuery :=
  match (coreStages parseF32).find? (·.1 = name) with
  | some stage => stage.2 args parsed
  | none => .ok { parsed with registeredStages := parsed.registeredStages ++ [⟨name, args⟩] }

/-- The arguments by their names. -/
def argumentTable (args : List NamedArgument) : StageArgs :=
  (args.map fun arg => (String.ofList arg.key, String.ofList arg.value.text)).foldl
    UniqueTable.upsert UniqueTable.empty

def applyStage (parsed : ParsedDevqlQuery) : PipelineStage → Except String ParsedDevqlQuery
  | .scope stage value => .ok (stage.set (String.ofList value.text) parsed)
  | .chatHistory => .ok { parsed with hasChatHistoryStage := true }
  | .named name args => applyNamed parseF32 (String.ofList name.text) (argumentTable args) parsed

def applyStages (parsed : ParsedDevqlQuery) (stages : List PipelineStage) :
    Except String ParsedDevqlQuery :=
  stages.foldlM (applyStage parseF32) parsed

/-- The query of a pipeline, or what one of its stages says about its arguments. -/
def runPipeline (stages : List PipelineStage) : Except DevqlError ParsedDevqlQuery :=
  if stages = [] then .error .emptyQuery
  else (applyStages parseF32 {} stages).mapError .rejected

end Meaning

/-- The texts that are given to the stage. -/
def PipelineStage.values : PipelineStage → List QuotedValue
  | scope _ value => [value]
  | chatHistory => []
  | named _ args => args.map NamedArgument.value

/-! ## The text of a pipeline -/

def QuotedValue.render (value : QuotedValue) : Text := value.quote :: (value.text ++ [value.quote])

def NamedArgument.render (arg : NamedArgument) : Text := arg.key ++ ':' :: arg.value.render

/-- The white space of a text. -/
structure Layout where
  blank : Text
  isBlank : Blank blank

variable (layout : Layout)

def renderArguments : List NamedArgument → Text
  | [] => []
  | [arg] => arg.render
  | arg :: args => arg.render ++ ',' :: (layout.blank ++ renderArguments args)

def PipelineStage.name : PipelineStage → Text
  | scope stage _ => stage.name.toList
  | chatHistory => "chatHistory".toList
  | named name _ => name.text

/-- What stands between the parentheses. -/
def PipelineStage.inner : PipelineStage → Text
  | scope _ value => value.render
  | chatHistory => []
  | named _ args => renderArguments layout args

def PipelineStage.render (stage : PipelineStage) : Text :=
  stage.name ++ '(' :: (stage.inner layout ++ [')'])

def renderPipeline : List PipelineStage → Text
  | [] => []
  | [stage] => stage.render layout
  | stage :: stages =>
    stage.render layout ++ (layout.blank ++ ('-' :: '>' :: (layout.blank ++ renderPipeline stages)))

end DevqlGraphql
end Bitloops
