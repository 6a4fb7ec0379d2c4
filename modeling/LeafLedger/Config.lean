import LeafLedger.Error
import LeafLedger.Json.Record
import LeafLedger.Retry
import LeafLedger.Text.Blank

namespace LeafLedger

open Json

/-- How patiently to fetch. -/
structure FetchConfig where
  maxAttempts : UInt32
  initialDelayMs : UInt64
  maxDelayMs : UInt64
  deriving DecidableEq

/-- What a watcher has to know. -/
structure WatchConfig where
  rpcUrl : String
  wsUrl : String
  treeAddresses : List String
  fetch : FetchConfig
  deriving DecidableEq

namespace FetchConfig

/-- The standard policy, in milliseconds. -/
def standard : FetchConfig :=
  ⟨8, 100, 5000⟩

def form : Form FetchConfig :=
  let maxAttempts := Field.orDefault "max_attempts" standard.maxAttempts .uint32
  let initialDelayMs := Field.orDefault "initial_delay_ms" standard.initialDelayMs .uint64
  let maxDelayMs := Field.orDefault "max_delay_ms" standard.maxDelayMs .uint64
  .record "FetchConfig" [maxAttempts.entry, initialDelayMs.entry, maxDelayMs.entry] fun slot => do
    return {
      maxAttempts := ← maxAttempts.take slot
      initialDelayMs := ← initialDelayMs.take slot
      maxDelayMs := ← maxDelayMs.take slot }

def toJson (fetch : FetchConfig) : Json :=
  .object [
    ("max_attempts", .ofNat fetch.maxAttempts.toNat),
    ("initial_delay_ms", .ofNat fetch.initialDelayMs.toNat),
    ("max_delay_ms", .ofNat fetch.maxDelayMs.toNat)]

/-- The policy that the settings describe. -/
def policy (fetch : FetchConfig) : RetryPolicy :=
  ⟨fetch.maxAttempts.toNat, .ofMillis fetch.initialDelayMs, .ofMillis fetch.maxDelayMs⟩

end FetchConfig

namespace WatchConfig

/-- The most attempts that may be asked for. -/
def mostAttempts : Nat :=
  100

/-- The addresses of the trees. The first one that cannot be read decides the error. -/
def trees (config : WatchConfig) : Except Error (List Address) :=
  config.treeAddresses.mapM fun text =>
    match Address.parse text with
    | .ok address => .ok address
    | .error fault => .error (.config (.badTree text fault))

/-- Whether a text has nothing but blanks. -/
def isBlankText (s : String) : Bool :=
  s.toList.all Text.isBlank

/-- Refuses a configuration that nothing could be done with. -/
def validate (config : WatchConfig) : Except Error Unit := do
  if isBlankText config.rpcUrl then throw (.config .blankRpcUrl)
  if isBlankText config.wsUrl then throw (.config .blankWsUrl)
  if config.treeAddresses.isEmpty then throw (.config .noTrees)
  let _ ← config.trees
  if config.fetch.maxAttempts = 0 ∨ mostAttempts < config.fetch.maxAttempts.toNat then
    throw (.config (.attemptsOutOfRange mostAttempts))
  if config.fetch.maxDelayMs < config.fetch.initialDelayMs then throw (.config .delaysReversed)

/-- A configuration that passes, or why it does not. -/
def checked (config : WatchConfig) : Except Error WatchConfig := do
  config.validate
  return config

/-- How configurations stand in JSON, checked or not. -/
def form : Form WatchConfig :=
  let rpcUrl := Field.required "rpc_url" .string
  let wsUrl := Field.required "ws_url" .string
  let treeAddresses := Field.required "tree_addresses" (.list .string)
  let fetch := Field.orDefault "fetch" .standard FetchConfig.form
  .record "WatchConfig" [rpcUrl.entry, wsUrl.entry, treeAddresses.entry, fetch.entry] fun slot => do
    return {
      rpcUrl := ← rpcUrl.take slot
      wsUrl := ← wsUrl.take slot
      treeAddresses := ← treeAddresses.take slot
      fetch := ← fetch.take slot }

def toJson (config : WatchConfig) : Json :=
  .object [
    ("rpc_url", .string config.rpcUrl),
    ("ws_url", .string config.wsUrl),
    ("tree_addresses", .ofList .string config.treeAddresses),
    ("fetch", config.fetch.toJson)]

def ofText (text : String) : Except Error WatchConfig :=
  match form.ofText text with
  | .ok config => config.checked
  | .error fault => .error (.json fault)

/-- The number in a variable, or a default if the variable is not set. -/
def numberOr (lookup : String → Option String) (bound : Nat) (key : String) (default : Nat) :
    Except Error Nat :=
  match lookup key with
  | none => .ok default
  | some value =>
    match Numeral.read bound (Text.trim value.toList) with
    | .ok n => .ok n
    | .error fault => .error (.config (.badNumber key fault))

/-- The value of a variable that has to be set. -/
def required (lookup : String → Option String) (key : String) : Except Error String :=
  match lookup key with
  | some value => .ok value
  | none => .error (.config (.unset key))

/-- The parts of a text between commas, without the blanks at their ends, empty parts left out. -/
def splitAddresses (value : String) : List String :=
  ((value.toList.splitOn ',').map Text.trim |>.filter (! ·.isEmpty)).map String.ofList

/-- A configuration from variables. Numbers are read first. -/
def ofVariables (lookup : String → Option String) : Except Error WatchConfig := do
  let standard := FetchConfig.standard
  let maxAttempts ←
    numberOr lookup UInt32.size "FETCH_MAX_ATTEMPTS" standard.maxAttempts.toNat
  let initialDelayMs ←
    numberOr lookup UInt64.size "FETCH_INITIAL_DELAY_MS" standard.initialDelayMs.toNat
  let maxDelayMs ← numberOr lookup UInt64.size "FETCH_MAX_DELAY_MS" standard.maxDelayMs.toNat
  let rpcUrl ← required lookup "RPC_URL"
  let wsUrl ← required lookup "WS_URL"
  let trees ← required lookup "TREE_ADDRESSES"
  checked {
    rpcUrl
    wsUrl
    treeAddresses := splitAddresses trees
    fetch := {
      maxAttempts := UInt32.ofNat maxAttempts
      initialDelayMs := UInt64.ofNat initialDelayMs
      maxDelayMs := UInt64.ofNat maxDelayMs } }

/-- The policy for fetching transactions. -/
def policy (config : WatchConfig) : RetryPolicy :=
  config.fetch.policy

end WatchConfig

end LeafLedger
