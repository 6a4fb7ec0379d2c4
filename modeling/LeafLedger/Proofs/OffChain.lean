import LeafLedger.OffChain
import LeafLedger.Proofs.Scan.LeafSource
import LeafLedger.Proofs.Text.Trim

namespace LeafLedger

open Text

/-- An address in its padding: blanks on both sides, and NULs at the very end. All NULs at the end
are padding, and no blank is left at the ends of the address. -/
structure Stripped (text uri : List Char) : Prop where
  padding : ∃ lead tail nuls, text = lead ++ uri ++ tail ++ nuls ∧
    (∀ c ∈ lead, isBlank c) ∧ (∀ c ∈ tail, isBlank c) ∧ (∀ c ∈ nuls, c = '\x00') ∧
    (uri ++ tail).getLast? ≠ some '\x00'
  nonempty : uri ≠ []
  first : ∀ c ∈ uri.head?, ¬ isBlank c
  last : ∀ c ∈ uri.getLast?, ¬ isBlank c

/-- Blanks, and then NULs. -/
def Vacant (text : List Char) : Prop :=
  ∃ blanks nuls, text = blanks ++ nuls ∧ (∀ c ∈ blanks, isBlank c) ∧ ∀ c ∈ nuls, c = '\x00'

/-- Blanks stand between a NUL and the NULs at the end. -/
def BlanksBehindNul (text : List Char) : Prop :=
  ∃ body blanks nuls, text = body ++ '\x00' :: blanks ++ nuls ∧ blanks ≠ [] ∧
    (∀ c ∈ blanks, isBlank c) ∧ ∀ c ∈ nuls, c = '\x00'

section CleanUri

variable {text : String} {body blanks nuls uri : List Char}

theorem not_isBlank_nul : ¬ isBlank '\x00' := by
  decide

theorem getLast?_ne_nul_of_blank (blank : ∀ c ∈ blanks, isBlank c) :
    blanks.getLast? ≠ some '\x00' :=
  fun last => not_isBlank_nul (blank _ (List.mem_of_getLast? last))

theorem cleanUri_of_append (split : text.toList = body ++ nuls) (cut : ∀ c ∈ nuls, c = '\x00')
    (last : body.getLast? ≠ some '\x00') : cleanUri text = trim body := by
  rw [cleanUri, split, dropTail_append (by simpa using cut)]
  intro c mem here
  exact last (eq_of_beq here ▸ mem)

theorem exists_append_nuls (text : String) : ∃ body nuls, text.toList = body ++ nuls ∧
    (∀ c ∈ nuls, c = '\x00') ∧ body.getLast? ≠ some '\x00' ∧ cleanUri text = trim body := by
  obtain ⟨nuls, split, cut⟩ := exists_append_dropTail (· == '\x00') text.toList
  exact ⟨_, nuls, split, by simpa using cut, fun last => not_of_mem_getLast?_dropTail last rfl, rfl⟩

theorem stripped_cleanUri (left : cleanUri text ≠ []) : Stripped text.toList (cleanUri text) := by
  obtain ⟨body, nuls, split, cut, ends, clean⟩ := exists_append_nuls text
  obtain ⟨lead, tail, parts, front, back⟩ := exists_append_trim body
  rw [clean] at left ⊢
  refine ⟨⟨lead, tail, nuls, ?_, front, back, cut, ?_⟩, left,
    fun _ => not_isBlank_of_mem_head?_trim, fun _ => not_isBlank_of_mem_getLast?_trim⟩
  · rw [split, ← parts]
  · intro last
    rw [parts, List.append_assoc] at ends
    exact ends (List.mem_getLast?_append_of_mem_getLast? last)

theorem Stripped.cleanUri_eq (stripped : Stripped text.toList uri) : cleanUri text = uri := by
  obtain ⟨⟨lead, tail, nuls, split, front, back, cut, ends⟩, nonempty, first, last⟩ := stripped
  have outer : (lead ++ uri ++ tail).getLast? ≠ some '\x00' := by
    rw [List.append_assoc, List.getLast?_append_of_ne_nil _ (by simp [nonempty])]
    exact ends
  rw [cleanUri_of_append split cut outer]
  exact trim_append front back first last

theorem cleanUri_eq_nil_iff : cleanUri text = [] ↔ Vacant text.toList := by
  constructor
  · intro empty
    obtain ⟨body, nuls, split, cut, _, clean⟩ := exists_append_nuls text
    exact ⟨body, nuls, split, trim_eq_nil_iff.mp (clean.symm.trans empty), cut⟩
  · rintro ⟨blanks, nuls, split, blank, cut⟩
    rw [cleanUri_of_append split cut (getLast?_ne_nul_of_blank blank)]
    exact trim_of_blank blank

theorem Stripped.blanksBehindNul (stripped : Stripped text.toList uri)
    (nul : uri.getLast? = some '\x00') : BlanksBehindNul text.toList := by
  obtain ⟨⟨lead, tail, nuls, split, _, back, cut, ends⟩, _⟩ := stripped
  obtain ⟨start, rfl⟩ := List.getLast?_eq_some_iff.mp nul
  refine ⟨lead ++ start, tail, nuls, by simp [split], ?_, back, cut⟩
  rintro rfl
  simp at ends

/-- A NUL with blanks behind it is where the address ends, and nothing cuts it off. -/
theorem BlanksBehindNul.getLast?_cleanUri (behind : BlanksBehindNul text.toList) :
    (cleanUri text).getLast? = some '\x00' := by
  obtain ⟨body, blanks, nuls, split, nonempty, blank, cut⟩ := behind
  have outer : (body ++ '\x00' :: blanks).getLast? ≠ some '\x00' := by
    rw [List.append_cons, List.getLast?_append_of_ne_nil _ nonempty]
    exact getLast?_ne_nul_of_blank blank
  rw [cleanUri_of_append split cut outer, List.append_cons, trim_append_of_blank blank]
  exact getLast?_trim_of_not_isBlank List.getLast?_concat not_isBlank_nul

theorem blanksBehindNul_iff :
    BlanksBehindNul text.toList ↔ (cleanUri text).getLast? = some '\x00' := by
  refine ⟨BlanksBehindNul.getLast?_cleanUri, fun nul => ?_⟩
  have left : cleanUri text ≠ [] := List.ne_nil_of_mem (List.mem_of_getLast? nul)
  exact (stripped_cleanUri left).blanksBehindNul nul

/-- Of NULs and blanks alone nothing is left but for a NUL that blanks stand behind. -/
theorem cleanUri_of_padding (padding : ∀ c ∈ text.toList, isBlank c ∨ c = '\x00') :
    cleanUri text = [] ↔ ¬ BlanksBehindNul text.toList := by
  rw [blanksBehindNul_iff]
  refine ⟨fun empty => by simp [empty], fun absent => ?_⟩
  by_contra left
  obtain ⟨⟨lead, tail, nuls, split, _⟩, _, _, last⟩ := stripped_cleanUri left
  have ending := List.getLast?_eq_some_getLast left
  have inside : (cleanUri text).getLast left ∈ text.toList := by
    rw [split]
    simp [List.getLast_mem left]
  rcases padding _ inside with blank | nul
  · exact last _ ending blank
  · exact absent (ending.trans (congrArg some nul))

end CleanUri

namespace Event

variable {event : Event} {metadata : Metadata}

theorem metadataUri?_of_mint (kind : event.kind = .mint)
    (payload : event.payload = .mint metadata) :
    event.metadataUri? = if cleanUri metadata.uri = [] then none
      else some (String.ofList (cleanUri metadata.uri)) := by
  simp only [metadataUri?, kind, payload]
  cases cleanUri metadata.uri <;> rfl

theorem metadataUri?_eq_some_iff {uri : String} :
    event.metadataUri? = some uri ↔ event.kind = .mint ∧
      ∃ metadata, event.payload = .mint metadata ∧ Stripped metadata.uri.toList uri.toList := by
  constructor
  · intro asked
    unfold metadataUri? at asked
    split at asked
    next metadata kind payload =>
      refine ⟨kind, metadata, payload, ?_⟩
      split at asked
      next => cases asked
      next left =>
        cases asked
        rw [String.toList_ofList]
        exact stripped_cleanUri left
    next => cases asked
  · rintro ⟨kind, metadata, payload, stripped⟩
    rw [metadataUri?_of_mint kind payload, stripped.cleanUri_eq, if_neg stripped.nonempty,
      String.ofList_toList]

theorem lookupMetadata_asked (event : Event) (fetch : String → Option Json) :
    (event.lookupMetadata fetch).asked = event.metadataUri?.toList ∧
      (event.lookupMetadata fetch).found = event.metadataUri?.bind fetch := by
  unfold lookupMetadata
  cases event.metadataUri? with
  | none => exact ⟨rfl, rfl⟩
  | some uri =>
    dsimp only
    cases found : fetch uri with
    | none => exact ⟨rfl, found.symm⟩
    | some document => exact ⟨rfl, found.symm⟩

/-- At most one address is asked for, and only for a mint: its text without the padding, unless
nothing is left. What is found is the answer. The address has a NUL at its end exactly if blanks
stand between a NUL and the NULs at the end of the text, and only then is padding alone asked
for. -/
theorem lookupMetadata_address (event : Event) (fetch : String → Option Json) :
    ∃ asked : Option String,
      (event.lookupMetadata fetch).asked = asked.toList ∧
      (event.lookupMetadata fetch).found = asked.bind fetch ∧
      (∀ uri, asked = some uri ↔ event.kind = .mint ∧
        ∃ metadata, event.payload = .mint metadata ∧
          Stripped metadata.uri.toList uri.toList) ∧
      ∀ metadata, event.kind = .mint → event.payload = .mint metadata →
        (asked = none ↔ Vacant metadata.uri.toList) ∧
        ((∃ uri, asked = some uri ∧ uri.toList.getLast? = some '\x00') ↔
          BlanksBehindNul metadata.uri.toList) ∧
        ((∀ c ∈ metadata.uri.toList, isBlank c ∨ c = '\x00') →
          (asked = none ↔ ¬ BlanksBehindNul metadata.uri.toList)) := by
  obtain ⟨asked, found⟩ := event.lookupMetadata_asked fetch
  refine ⟨event.metadataUri?, asked, found, fun uri => metadataUri?_eq_some_iff, ?_⟩
  intro metadata kind payload
  have uri := metadataUri?_of_mint kind payload
  have none_iff : event.metadataUri? = none ↔ cleanUri metadata.uri = [] := by simp [uri]
  refine ⟨none_iff.trans cleanUri_eq_nil_iff, ?_, fun padding =>
    none_iff.trans (cleanUri_of_padding padding)⟩
  rw [blanksBehindNul_iff, uri]
  constructor
  · rintro ⟨address, asked, nul⟩
    split at asked
    next => cases asked
    next =>
      cases asked
      rwa [String.toList_ofList] at nul
  · intro nul
    have left : cleanUri metadata.uri ≠ [] := List.ne_nil_of_mem (List.mem_of_getLast? nul)
    exact ⟨_, if_neg left, by rwa [String.toList_ofList]⟩

def metadataAt (uri : String) : Metadata :=
  ⟨"", "", uri, 0, false, true, none, none, none, none, .legacy, []⟩

/-- The events of a transaction that mints an asset with its document at an address. -/
def mintsAt (uri : String) : List Event :=
  (Transaction.scan .standard
    { Scan.sampleTransaction true with
      inner := [⟨0, [Scan.sampleCall .mintV1 (Borsh.encode (metadataAt uri))]⟩] }).events

theorem lookupMetadata_address_sample :
    (∃ event ∈ mintsAt "\x00 ", ∃ uri, (event.lookupMetadata fun _ => none).asked = [uri] ∧
      uri.toList.getLast? = some '\x00') ∧
    (∃ event ∈ mintsAt " \x00", (event.lookupMetadata fun _ => none).asked = []) ∧
    ¬ BlanksBehindNul " \x00".toList := by
  have minted : ∃ event ∈ mintsAt "\x00 ",
      event.kind = .mint ∧ event.payload = .mint (metadataAt "\x00 ") := by decide +kernel
  obtain ⟨event, he, kind, payload⟩ := minted
  obtain ⟨asked, once, _, _, told⟩ := event.lookupMetadata_address fun _ => none
  have behind : BlanksBehindNul "\x00 ".toList :=
    ⟨[], [' '], [], rfl, by simp, by simp [isBlank], by simp⟩
  obtain ⟨uri, rfl, nul⟩ := (told _ kind payload).2.1.mpr behind
  have empty : ∃ event ∈ mintsAt " \x00",
      event.kind = .mint ∧ event.payload = .mint (metadataAt " \x00") := by decide +kernel
  obtain ⟨other, ho, kind', payload'⟩ := empty
  obtain ⟨unasked, silent, _, _, told'⟩ := other.lookupMetadata_address fun _ => none
  have vacant : Vacant " \x00".toList := ⟨[' '], ['\x00'], rfl, by simp [isBlank], by simp⟩
  have padding : ∀ c ∈ " \x00".toList, isBlank c ∨ c = '\x00' := by simp [isBlank]
  obtain rfl := (told' _ kind' payload').1.mpr vacant
  have absent := ((told' _ kind' payload').2.2 padding).mp rfl
  exact ⟨⟨event, he, uri, once, nul⟩, ⟨other, ho, silent⟩, absent⟩

/-- A blank keeps the NUL in front of it, and padding alone is asked for. -/
theorem lookupMetadata_keeps_nul :
    (mintsAt "ipfs://x\x00 ").map (fun event => (event.lookupMetadata fun _ => none).asked) =
      [["ipfs://x\x00"]] ∧
    (mintsAt "\x00 ").map (fun event => (event.lookupMetadata fun _ => none).asked) =
      [["\x00"]] := by
  decide +kernel

end Event

end LeafLedger
