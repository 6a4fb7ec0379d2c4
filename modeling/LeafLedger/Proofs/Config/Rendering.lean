import LeafLedger.Proofs.Config.Validity
import LeafLedger.Proofs.Text.Numeral

namespace LeafLedger

namespace WatchConfig

/-- The parts of a text between its commas: addresses in order with blanks around each, and parts of
blanks alone anywhere among them. -/
inductive Parts : List (List Char) → List String → Prop
  | done : Parts [] []
  | vacant {part : List Char} {parts : List (List Char)} {addresses : List String}
    (blank : ∀ c ∈ part, Text.isBlank c) (rest : Parts parts addresses) :
    Parts (part :: parts) addresses
  | address {lead tail : List Char} {address : String} {parts : List (List Char)}
    {addresses : List String} (front : ∀ c ∈ lead, Text.isBlank c)
    (back : ∀ c ∈ tail, Text.isBlank c) (rest : Parts parts addresses) :
    Parts ((lead ++ address.toList ++ tail) :: parts) (address :: addresses)

/-- Variables that write down a configuration. -/
structure Renders (lookup : String → Option String) (config : WatchConfig) : Prop where
  rpcUrl : lookup "RPC_URL" = some config.rpcUrl
  wsUrl : lookup "WS_URL" = some config.wsUrl
  trees : ∃ text parts, lookup "TREE_ADDRESSES" = some text ∧
    text.toList = [','].intercalate parts ∧ Parts parts config.treeAddresses
  maxAttempts : ∃ text, lookup "FETCH_MAX_ATTEMPTS" = some text ∧
    Numeral.Writes text.toList config.fetch.maxAttempts.toNat
  initialDelayMs : ∃ text, lookup "FETCH_INITIAL_DELAY_MS" = some text ∧
    Numeral.Writes text.toList config.fetch.initialDelayMs.toNat
  maxDelayMs : ∃ text, lookup "FETCH_MAX_DELAY_MS" = some text ∧
    Numeral.Writes text.toList config.fetch.maxDelayMs.toNat

/-- A text that neither a comma nor trimming takes anything from. -/
structure Solid (text : String) : Prop where
  nonempty : text.toList ≠ []
  unblank : ∀ c ∈ text.toList, ¬ Text.isBlank c
  whole : ',' ∉ text.toList

theorem solid_text (key : Address) : Solid key.text where
  nonempty empty := by
    have unread : Address.parse "" = .error .wrongSize := by decide +kernel
    rw [String.toList_eq_nil_iff] at empty
    rw [Address.parse_eq_ok_iff.mpr empty.symm] at unread
    cases unread
  unblank c mem := by
    have unblank : Base58.alphabet.all (! Text.isBlank ·) := by decide
    simpa using List.all_eq_true.mp unblank c (Base58.mem_alphabet_of_mem_encode mem)
  whole comma := by
    have foreign : ',' ∉ Base58.alphabet := by decide
    exact foreign (Base58.mem_alphabet_of_mem_encode comma)

namespace Parts

variable {parts : List (List Char)} {addresses : List String}

theorem comma_not_mem (written : Parts parts addresses) (solid : ∀ a ∈ addresses, Solid a) :
    ∀ part ∈ parts, ',' ∉ part := by
  have comma : ¬ Text.isBlank ',' := by decide
  induction written with
  | done => simp
  | vacant blank _ ih =>
    exact List.forall_mem_cons.mpr ⟨fun mem => comma (blank _ mem), ih solid⟩
  | address front back _ ih =>
    obtain ⟨first, solid⟩ := List.forall_mem_cons.mp solid
    refine List.forall_mem_cons.mpr ⟨fun mem => ?_, ih solid⟩
    rcases List.mem_append.mp mem with mem | mem
    · rcases List.mem_append.mp mem with mem | mem
      · exact comma (front _ mem)
      · exact first.whole mem
    · exact comma (back _ mem)

theorem trimmed (written : Parts parts addresses) (solid : ∀ a ∈ addresses, Solid a) :
    ((parts.map Text.trim).filter (! ·.isEmpty)).map String.ofList = addresses := by
  induction written with
  | done => rfl
  | vacant blank _ ih =>
    rw [List.map_cons, Text.trim_of_blank blank]
    exact ih solid
  | @address _ _ address _ _ front back _ ih =>
    obtain ⟨first, solid⟩ := List.forall_mem_cons.mp solid
    have kept : Text.trim _ = address.toList := Text.trim_append front back
      (fun c head => first.unblank c (List.mem_of_mem_head? head))
      fun c last => first.unblank c (List.mem_of_getLast? last)
    rw [List.map_cons, kept, List.filter_cons_of_pos (by simpa using first.nonempty), List.map_cons,
      ih solid, String.ofList_toList]

theorem splitAddresses_eq {text : String} (written : Parts parts addresses)
    (solid : ∀ a ∈ addresses, Solid a) (some : addresses ≠ [])
    (joined : text.toList = [','].intercalate parts) : splitAddresses text = addresses := by
  have nonempty : parts ≠ [] := by
    rintro rfl
    cases written
    exact some rfl
  rw [splitAddresses, joined,
    List.splitOn_intercalate ',' (written.comma_not_mem solid) nonempty]
  exact written.trimmed solid

end Parts

theorem numberOr_of_writes {lookup : String → Option String} {key text : String}
    {bound n default : Nat} (given : lookup key = some text) (writes : Numeral.Writes text.toList n)
    (below : n < bound) : numberOr lookup bound key default = .ok n := by
  simp only [numberOr, given, Numeral.read_of_writes writes below]

theorem Usable.solid {config : WatchConfig} (usable : config.Usable) :
    ∀ a ∈ config.treeAddresses, Solid a := by
  obtain ⟨keys, _, same⟩ := usable.trees
  intro a mem
  rw [same, List.mem_map] at mem
  obtain ⟨key, _, rfl⟩ := mem
  exact solid_text key

/-- A valid configuration is read back from any variables that write it down. -/
theorem ofVariables_of_renders {config : WatchConfig} {lookup : String → Option String}
    (valid : config.validate = .ok ()) (renders : Renders lookup config) :
    ofVariables lookup = .ok config := by
  have usable := validate_eq_ok_iff.mp valid
  obtain ⟨trees, parts, givenTrees, joined, written⟩ := renders.trees
  obtain ⟨attempts, givenAttempts, writesAttempts⟩ := renders.maxAttempts
  obtain ⟨initial, givenInitial, writesInitial⟩ := renders.initialDelayMs
  obtain ⟨most, givenMost, writesMost⟩ := renders.maxDelayMs
  have split := written.splitAddresses_eq usable.solid usable.watches joined
  simp only [ofVariables, bind_eq_ok_iff]
  refine ⟨_, numberOr_of_writes givenAttempts writesAttempts (UInt32.toNat_lt_size _),
    _, numberOr_of_writes givenInitial writesInitial (UInt64.toNat_lt_size _),
    _, numberOr_of_writes givenMost writesMost (UInt64.toNat_lt_size _),
    config.rpcUrl, by simp only [required, renders.rpcUrl],
    config.wsUrl, by simp only [required, renders.wsUrl],
    trees, by simp only [required, givenTrees], ?_⟩
  rw [split, UInt32.ofNat_toNat, UInt64.ofNat_toNat, UInt64.ofNat_toNat]
  exact checked_eq_ok_iff.mpr ⟨rfl, usable⟩

/-- Vacant parts and an ideographic space around the address, and a number with everything that may
stand in front of it. -/
def sampleVariables : String → Option String
  | "RPC_URL" => some "r"
  | "WS_URL" => some "w"
  | "TREE_ADDRESSES" => some ",\u3000 4xk8qmNdxhXgGHnBdZ1JoCQ8wYQGgTiJ6TyxWBxc4xEj\n, "
  | "FETCH_MAX_ATTEMPTS" => some " +00100"
  | "FETCH_INITIAL_DELAY_MS" => some "100"
  | "FETCH_MAX_DELAY_MS" => some "5000\t"
  | _ => none

theorem renders_sampleVariables : Renders sampleVariables sample where
  rpcUrl := rfl
  wsUrl := rfl
  trees := by
    refine ⟨_, [[],
      ['\u3000', ' '] ++ "4xk8qmNdxhXgGHnBdZ1JoCQ8wYQGgTiJ6TyxWBxc4xEj".toList ++ ['\n'],
      [' ']], rfl, by decide +kernel, ?_⟩
    exact .vacant (List.forall_mem_nil _) (.address (List.all_eq_true.mp rfl)
      (List.all_eq_true.mp rfl) (.vacant (List.all_eq_true.mp rfl) .done))
  maxAttempts := ⟨_, rfl, [' '], ['+'], 2, [], by decide +kernel, List.all_eq_true.mp rfl,
    List.forall_mem_nil _, Or.inr rfl⟩
  initialDelayMs := ⟨_, rfl, [], [], 0, [], by decide +kernel, List.forall_mem_nil _,
    List.forall_mem_nil _, Or.inl rfl⟩
  maxDelayMs := ⟨_, rfl, [], [], 0, ['\t'], by decide +kernel, List.forall_mem_nil _,
    List.all_eq_true.mp rfl, Or.inl rfl⟩

theorem ofVariables_of_renders_sample :
    sample.validate = .ok () ∧ Renders sampleVariables sample ∧
      ofVariables sampleVariables = .ok sample := by
  have valid : sample.validate = .ok () := by decide +kernel
  exact ⟨valid, renders_sampleVariables, ofVariables_of_renders valid renders_sampleVariables⟩

end WatchConfig

end LeafLedger
