import LeafLedger.Json.Record
import LeafLedger.Transaction

namespace LeafLedger

open Json

/-- The address that a text names. -/
def parseAddress (text : String) : Except Cause Address :=
  (Address.parse text).mapError (.badAddress text)

/-- The bytes that a text spells in base58. -/
def parseData (text : String) : Except Cause Bytes :=
  (Base58.decode text).mapError .badData

/-- A list of addresses. All of them have to be texts before the first one is looked at. -/
def addressesForm : Form (List Address) :=
  (Form.list .string).checked fun texts => texts.mapM parseAddress

/-- The bytes of an instruction. -/
def dataForm : Form Bytes :=
  Form.string.checked parseData

namespace RawInstruction

def form : Form RawInstruction :=
  let programIndex := Field.required "programIdIndex" .uint8
  let accounts := Field.required "accounts" (.list .uint8)
  let data := Field.required "data" dataForm
  .record "RawInstruction" [programIndex.entry, accounts.entry, data.entry] fun slot => do
    return {
      programIndex := ← programIndex.take slot
      accounts := ← accounts.take slot
      data := ← data.take slot }

def toJson (i : RawInstruction) : Json :=
  .object [
    ("programIdIndex", .ofNat i.programIndex.toNat),
    ("accounts", .ofList (fun a => .ofNat a.toNat) i.accounts),
    ("data", .string (Base58.encode i.data))]

end RawInstruction

namespace InnerGroup

def form : Form InnerGroup :=
  let index := Field.required "index" .uint8
  let instructions := Field.required "instructions" (.list RawInstruction.form)
  .record "InnerInstructions" [index.entry, instructions.entry] fun slot => do
    return { index := ← index.take slot, instructions := ← instructions.take slot }

def toJson (g : InnerGroup) : Json :=
  .object [
    ("index", .ofNat g.index.toNat),
    ("instructions", .ofList RawInstruction.toJson g.instructions)]

end InnerGroup

namespace LoadedAddresses

/-- No keys from lookup tables. -/
def empty : LoadedAddresses :=
  ⟨[], []⟩

def form : Form LoadedAddresses :=
  let writable := Field.orDefault "writable" [] addressesForm
  let readonly := Field.orDefault "readonly" [] addressesForm
  .record "LoadedAddresses" [writable.entry, readonly.entry] fun slot => do
    return { writable := ← writable.take slot, readonly := ← readonly.take slot }

def toJson (l : LoadedAddresses) : Json :=
  .object [
    ("writable", .ofList (fun a => .string a.text) l.writable),
    ("readonly", .ofList (fun a => .string a.text) l.readonly)]

end LoadedAddresses

namespace Transaction

def form : Form Transaction :=
  let signature := Field.required "signature" .string
  let slot := Field.required "slot" .uint64
  let accountKeys := Field.required "accountKeys" addressesForm
  let loaded := Field.orDefault "loadedAddresses" .empty LoadedAddresses.form
  let instructions := Field.required "instructions" (.list RawInstruction.form)
  let inner := Field.orDefault "innerInstructions" [] (.list InnerGroup.form)
  .record "TransactionBody"
    [signature.entry, slot.entry, accountKeys.entry, loaded.entry, instructions.entry, inner.entry]
    fun given => do
      return {
        signature := ← signature.take given
        slot := ← slot.take given
        accountKeys := ← accountKeys.take given
        loaded := ← loaded.take given
        instructions := ← instructions.take given
        inner := ← inner.take given }

def ofJson (value : Json) : Except Json.Fault Transaction :=
  ofValue (form.ofJson value)

def ofText (text : String) : Except Json.Fault Transaction :=
  form.ofText text

def toJson (tx : Transaction) : Json :=
  .object [
    ("signature", .string tx.signature),
    ("slot", .ofNat tx.slot.toNat),
    ("accountKeys", .ofList (fun a => .string a.text) tx.accountKeys),
    ("loadedAddresses", tx.loaded.toJson),
    ("instructions", .ofList RawInstruction.toJson tx.instructions),
    ("innerInstructions", .ofList InnerGroup.toJson tx.inner)]

end Transaction

end LeafLedger
