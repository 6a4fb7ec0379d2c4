import LeafLedger.Instruction.Payload
import LeafLedger.Proofs.Borsh.Exactness

namespace LeafLedger

open Borsh (encode decode Reader)

/-- The payloads of a change, each with its arguments as they are written. -/
inductive Payload.Written : EventKind → Payload → Bytes → Prop
  | mint (metadata : Metadata) (fits : metadata.Fits) :
    Written .mint (.mint metadata) (encode metadata)
  | transfer (args : LeafArgs) : Written .transfer (.transfer args) (encode args)
  | burn (args : LeafArgs) : Written .burn (.burn args) (encode args)

section Reading

variable {α : Type} [Borsh α] {kind : Kind} {data : Bytes}

theorem readArguments_append_eq {front : Bytes} (size : front.length = Kind.discriminatorLength)
    (input : Bytes) :
    readArguments (α := α) kind (front ++ input) =
      match decode input with
      | .ok (args, _) => .ok args
      | .error fault => .error (.malformedArguments kind (.malformed fault)) := by
  have enough : ¬(front ++ input).length < Kind.discriminatorLength := by
    rw [List.length_append]
    omega
  have behind : (front ++ input).drop Kind.discriminatorLength = input := by
    rw [← size, List.drop_left]
  rw [readArguments, if_neg enough]
  cases read : (decode : Reader α) input <;> simp only [behind, read]

/-- Reading refuses for the arguments alone, and names the kind. -/
theorem eq_malformedArguments {error : Error}
    (refused : readArguments (α := α) kind data = .error error) :
    ∃ fault, error = .malformedArguments kind fault := by
  unfold readArguments at refused
  split at refused
  next =>
    cases refused
    exact ⟨_, rfl⟩
  next =>
    split at refused
    next => cases refused
    next =>
      cases refused
      exact ⟨_, rfl⟩

/-- Arguments are read if the data hold them behind the discriminator, whatever else there is. -/
theorem readArguments_eq_ok_iff {Good : α → Prop}
    (reads : ∀ {input rest : Bytes} {a : α},
      (decode : Reader α) input = .ok (a, rest) ↔ Good a ∧ input = encode a ++ rest) {a : α} :
    readArguments kind data = .ok a ↔
      Good a ∧ ∃ front rest, front.length = Kind.discriminatorLength ∧
        data = front ++ encode a ++ rest := by
  constructor
  · intro read
    have enough : Kind.discriminatorLength ≤ data.length := by
      by_contra short
      rw [readArguments, if_pos (by omega)] at read
      cases read
    have size := List.length_take_of_le enough
    rw [← List.take_append_drop Kind.discriminatorLength data, readArguments_append_eq size] at read
    split at read
    next args rest decoded =>
      cases read
      obtain ⟨good, parts⟩ := reads.mp decoded
      refine ⟨good, _, rest, size, ?_⟩
      rw [List.append_assoc, ← parts, List.take_append_drop]
    next => cases read
  · rintro ⟨good, front, rest, size, rfl⟩
    rw [List.append_assoc, readArguments_append_eq size, reads.mpr ⟨good, rfl⟩]

end Reading

namespace Payload

/-- What the data of an instruction that records a change come to: exactly the written payloads of
the change are read, and all else is malformed. -/
structure Grammar (kind : Kind) (change : EventKind) (data : Bytes) : Prop where
  accepts : ∀ payload, ofData kind data = .ok payload ↔
    ∃ front args rest, front.length = 8 ∧ Written change payload args ∧
      data = front ++ args ++ rest
  refuses : ∀ error, ofData kind data = .error error →
    ∃ fault, error = .malformedArguments kind fault

variable {kind : Kind} {data : Bytes}

/-- The payload of a change is one kind of arguments, read and wrapped up. -/
theorem grammar_of_readArguments {α : Type} [Borsh α] {change : EventKind} {wrap : α → Payload}
    {Good : α → Prop}
    (wraps : ofData kind data = (readArguments kind data).map wrap)
    (reads : ∀ {input rest : Bytes} {a : α},
      (decode : Reader α) input = .ok (a, rest) ↔ Good a ∧ input = encode a ++ rest)
    (written : ∀ payload args, Written change payload args ↔
      ∃ a, Good a ∧ wrap a = payload ∧ encode a = args) : Grammar kind change data where
  accepts payload := by
    rw [wraps]
    constructor
    · intro read
      cases found : readArguments (α := α) kind data with
      | error error =>
        rw [found] at read
        cases read
      | ok a =>
        rw [found] at read
        cases read
        obtain ⟨good, front, rest, size, parts⟩ := (readArguments_eq_ok_iff reads).mp found
        exact ⟨front, encode a, rest, size, (written _ _).mpr ⟨a, good, rfl, rfl⟩, parts⟩
    · rintro ⟨front, args, rest, size, spelled, parts⟩
      obtain ⟨a, good, rfl, rfl⟩ := (written _ _).mp spelled
      rw [(readArguments_eq_ok_iff reads).mpr ⟨good, front, rest, size, parts⟩]
      rfl
  refuses error refused := by
    rw [wraps] at refused
    cases found : readArguments (α := α) kind data with
    | error fault =>
      rw [found] at refused
      cases refused
      exact eq_malformedArguments found
    | ok a =>
      rw [found] at refused
      cases refused

theorem grammar_mint (mint : kind.isMint = true) : Grammar kind .mint data := by
  have wraps : ofData kind data = (readArguments kind data).map .mint := by
    cases kind <;> first | rfl | cases mint
  refine grammar_of_readArguments wraps Metadata.decode_eq_ok_iff fun payload args => ?_
  constructor
  · rintro ⟨_, fits⟩
    exact ⟨_, fits, rfl, rfl⟩
  · rintro ⟨metadata, fits, rfl, rfl⟩
    exact .mint metadata fits

theorem decode_leafArgs_eq_ok_iff {input rest : Bytes} {args : LeafArgs} :
    (decode : Reader LeafArgs) input = .ok (args, rest) ↔ True ∧ input = encode args ++ rest := by
  rw [Borsh.decode_eq_ok_iff, true_and]

theorem grammar_transfer : Grammar .transfer .transfer data := by
  refine grammar_of_readArguments rfl decode_leafArgs_eq_ok_iff fun payload args => ?_
  constructor
  · rintro ⟨⟩
    exact ⟨_, trivial, rfl, rfl⟩
  · rintro ⟨args, -, rfl, rfl⟩
    exact .transfer args

theorem grammar_burn : Grammar .burn .burn data := by
  refine grammar_of_readArguments rfl decode_leafArgs_eq_ok_iff fun payload args => ?_
  constructor
  · rintro ⟨⟩
    exact ⟨_, trivial, rfl, rfl⟩
  · rintro ⟨args, -, rfl, rfl⟩
    exact .burn args

variable {change : EventKind} {payload : Payload} {args : Bytes}

theorem Written.length (written : Written change payload args) (leaf : change ≠ .mint) :
    args.length = 108 := by
  cases written with
  | mint => exact absurd rfl leaf
  | transfer args => exact Borsh.fillsWidth_leafArgs.length args
  | burn args => exact Borsh.fillsWidth_leafArgs.length args

theorem exists_written (leaf : change ≠ .mint) (size : args.length = 108) :
    ∃ payload, Written change payload args := by
  obtain ⟨value, rfl⟩ := Borsh.fillsWidth_leafArgs.filled args size
  cases change with
  | mint => exact absurd rfl leaf
  | transfer => exact ⟨_, .transfer value⟩
  | burn => exact ⟨_, .burn value⟩

/-- The arguments of a transfer and of a burn are of one length, and any bytes will do. -/
theorem Grammar.exists_ok_iff (grammar : Grammar kind change data) (leaf : change ≠ .mint) :
    (∃ payload, ofData kind data = .ok payload) ↔ 116 ≤ data.length := by
  constructor
  · rintro ⟨payload, read⟩
    obtain ⟨front, args, rest, size, written, rfl⟩ := (grammar.accepts payload).mp read
    have width := written.length leaf
    simp only [List.length_append]
    omega
  · intro enough
    have total : data.length = 8 + (data.length - 8) := by omega
    obtain ⟨front, behind, rfl, size, left⟩ := Bytes.exists_parts 8 _ total
    have body : behind.length = 108 + (behind.length - 108) := by
      rw [List.length_append] at enough
      omega
    obtain ⟨args, rest, rfl, width, -⟩ := Bytes.exists_parts 108 _ body
    obtain ⟨payload, written⟩ := exists_written leaf width
    have parts : front ++ (args ++ rest) = front ++ args ++ rest := by simp
    exact ⟨payload, (grammar.accepts payload).mpr ⟨front, args, rest, size, written, parts⟩⟩

/-- An instruction that records a change is read if and only if eight bytes, arguments of the change
in their written form and anything else make up its data, and it is malformed otherwise. For a
transfer or a burn 116 bytes are enough. Of every other instruction the data do not matter. -/
theorem ofData_grammar (kind : Kind) (data : Bytes) :
    match kind.event? with
    | some change => Grammar kind change data ∧ (change ≠ .mint →
        (∀ payload args, Written change payload args → args.length = 108) ∧
        ((∃ payload, ofData kind data = .ok payload) ↔ 116 ≤ data.length))
    | none => ofData kind data = .ok (.unsupported kind) := by
  cases kind with
  | mintV1 | mintToCollectionV1 => exact ⟨grammar_mint rfl, fun leaf => absurd rfl leaf⟩
  | transfer => exact ⟨grammar_transfer, fun leaf =>
      ⟨fun _ _ written => written.length leaf, grammar_transfer.exists_ok_iff leaf⟩⟩
  | burn => exact ⟨grammar_burn, fun leaf =>
      ⟨fun _ _ written => written.length leaf, grammar_burn.exists_ok_iff leaf⟩⟩
  | _ => rfl

/-- The three texts are empty, and the tag of the edition nonce is neither 0 nor 1. -/
example : ofData .mintV1 (List.replicate 24 0 ++ [7]) =
    .error (.malformedArguments .mintV1 (.malformed (.badOption 7))) := by
  rfl

end Payload

end LeafLedger
