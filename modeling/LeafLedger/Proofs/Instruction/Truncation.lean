import LeafLedger.Instruction.Payload
import LeafLedger.Proofs.Borsh.Streaming

namespace LeafLedger

open Borsh (decode Reader Streaming)

/-- The data end too early: in front of the arguments, or inside them. -/
def ArgumentFault.EndsEarly : ArgumentFault → Prop
  | .short _ => True
  | .malformed fault => fault = .truncated

namespace Payload

/-- Reads the payload of a change from its arguments. -/
def reader : EventKind → Reader Payload
  | .mint => return .mint (← decode)
  | .transfer => return .transfer (← decode)
  | .burn => return .burn (← decode)

/-- Reads the payload of a change behind a discriminator, and keeps what follows it. -/
def readFrom (kind : Kind) (reader : Reader Payload) (data : Bytes) :
    Except Error (Payload × Bytes) :=
  if data.length < Kind.discriminatorLength then
    .error (.malformedArguments kind (.short data.length))
  else
    match reader (data.drop Kind.discriminatorLength) with
    | .ok read => .ok read
    | .error fault => .error (.malformedArguments kind (.malformed fault))

/-- Reads as `Payload.ofData` does and keeps what the arguments leave of the data. Data that are not
looked at are left whole. -/
def split (kind : Kind) (data : Bytes) : Except Error (Payload × Bytes) :=
  match kind.event? with
  | some change => readFrom kind (reader change) data
  | none => .ok (.unsupported kind, data)

variable {kind : Kind} {change : EventKind} {data front rest : Bytes} {payload : Payload}

theorem map_readArguments {α : Type} [Borsh α] (wrap : α → Payload) :
    (readArguments kind data).map wrap =
      (readFrom kind (return wrap (← decode)) data).map Prod.fst := by
  unfold readArguments readFrom
  split
  next => rfl
  next =>
    cases read : (decode : Reader α) (data.drop Kind.discriminatorLength) with
    | ok p =>
      rw [Borsh.bind_of_ok read]
      rfl
    | error fault =>
      rw [Borsh.bind_of_error read]
      rfl

theorem ofData_eq_split (kind : Kind) (data : Bytes) :
    ofData kind data = (split kind data).map Prod.fst := by
  cases kind with
  | mintV1 | mintToCollectionV1 | transfer | burn => exact map_readArguments _
  | _ => rfl

instance : Streaming (reader change) := by
  cases change <;> exact Streaming.bind inferInstance fun _ => inferInstance

section Behind

variable {reader : Reader Payload}

theorem readFrom_of_short (short : data.length < Kind.discriminatorLength) :
    readFrom kind reader data = .error (.malformedArguments kind (.short data.length)) :=
  if_pos short

theorem readFrom_append (size : front.length = Kind.discriminatorLength) (input : Bytes) :
    readFrom kind reader (front ++ input) =
      match reader input with
      | .ok read => .ok read
      | .error fault => .error (.malformedArguments kind (.malformed fault)) := by
  have enough : ¬(front ++ input).length < Kind.discriminatorLength := by
    rw [List.length_append]
    omega
  rw [readFrom, if_neg enough, ← size, List.drop_left]

theorem short_or_parts (data : Bytes) :
    data.length < Kind.discriminatorLength ∨
      ∃ front input, data = front ++ input ∧ front.length = Kind.discriminatorLength := by
  rcases Nat.lt_or_ge data.length Kind.discriminatorLength with short | enough
  · exact Or.inl short
  · exact Or.inr ⟨_, _, (List.take_append_drop ..).symm, List.length_take_of_le enough⟩

/-- The fault of data of which only `length` bytes are there. -/
def shortage (length : Nat) : ArgumentFault :=
  if length < Kind.discriminatorLength then .short length else .malformed .truncated

theorem exists_taken_of_readFrom [Streaming reader]
    (read : readFrom kind reader data = .ok (payload, rest)) :
    ∃ taken, data = taken ++ rest ∧
      (∀ more, readFrom kind reader (taken ++ more) = .ok (payload, more)) ∧
      ∀ m < taken.length,
        readFrom kind reader (taken.take m) = .error (.malformedArguments kind (shortage m)) := by
  rcases short_or_parts data with short | ⟨front, input, rfl, size⟩
  · rw [readFrom_of_short short] at read
    cases read
  rw [readFrom_append size] at read
  split at read
  next value found =>
    cases read
    obtain ⟨args, rfl, settles⟩ := Streaming.settled found
    refine ⟨front ++ args, (List.append_assoc ..).symm, ?_, ?_⟩
    · intro more
      rw [List.append_assoc, readFrom_append size, settles.reads]
    · intro m cut
      have length : ((front ++ args).take m).length = m := List.length_take_of_le cut.le
      rcases Nat.lt_or_ge m front.length with inside | beyond
      · rw [size] at inside
        rw [readFrom_of_short (length.trans_lt inside), length, shortage, if_pos inside]
      · have left : m - front.length < args.length := by
          rw [List.length_append] at cut
          omega
        rw [List.take_append, List.take_of_length_le beyond, readFrom_append size,
          settles.short _ left, shortage, if_neg (by omega)]
  next => cases read

theorem readFrom_append_of_error [Streaming reader] {error : Error}
    (failed : readFrom kind reader data = .error error)
    (other : ∀ fault, error = .malformedArguments kind fault → ¬fault.EndsEarly) (more : Bytes) :
    readFrom kind reader (data ++ more) = .error error := by
  rcases short_or_parts data with short | ⟨front, input, rfl, size⟩
  · rw [readFrom_of_short short] at failed
    exact absurd trivial (other _ (Except.error.inj failed).symm)
  rw [readFrom_append size] at failed
  rw [List.append_assoc, readFrom_append size]
  split at failed
  next => cases failed
  next fault found =>
    have settled : fault ≠ .truncated := other _ (Except.error.inj failed).symm
    rw [Streaming.failed found settled more]
    exact failed

end Behind

/-- What a payload takes of the data is enough of them, and anything less is too short. -/
theorem exists_taken_of_split (read : split kind data = .ok (payload, rest)) :
    ∃ taken, data = taken ++ rest ∧
      (∀ more, split kind (taken ++ more) = .ok (payload, more)) ∧
      ∀ m < taken.length,
        split kind (taken.take m) = .error (.malformedArguments kind (shortage m)) := by
  unfold split at read ⊢
  split at read
  next => exact exists_taken_of_readFrom read
  next =>
    cases read
    exact ⟨[], rfl, fun _ => rfl, fun _ cut => absurd cut (Nat.not_lt_zero _)⟩

theorem split_append_of_error {error : Error} (failed : split kind data = .error error)
    (other : ∀ fault, error = .malformedArguments kind fault → ¬fault.EndsEarly) (more : Bytes) :
    split kind (data ++ more) = .error error := by
  unfold split at failed ⊢
  split at failed
  next => exact readFrom_append_of_error failed other more
  next => cases failed

/-- A payload that is read, or refused for anything but an end that comes too early, is the same
whatever follows the data. If it is read, its arguments end somewhere in the data, and data that end
before that are refused for it: they are shorter than the discriminator, or the input ends inside
the arguments. -/
theorem ofData_extended_or_cut (kind : Kind) (data : Bytes) :
    ((∀ fault, ofData kind data = .error (.malformedArguments kind fault) → ¬fault.EndsEarly) →
      ∀ more, ofData kind (data ++ more) = ofData kind data) ∧
    ∀ payload, ofData kind data = .ok payload →
      ∃ taken rest, data = taken ++ rest ∧ split kind data = .ok (payload, rest) ∧
        ∀ m < taken.length, ofData kind (data.take m) =
          .error (.malformedArguments kind
            (if m < 8 then .short m else .malformed .truncated)) := by
  simp only [ofData_eq_split]
  cases read : split kind data with
  | ok p =>
    obtain ⟨payload, rest⟩ := p
    obtain ⟨taken, rfl, reads, short⟩ := exists_taken_of_split read
    constructor
    · intro _ more
      rw [List.append_assoc, reads]
      rfl
    · rintro _ ⟨⟩
      refine ⟨taken, rest, rfl, rfl, ?_⟩
      intro m cut
      rw [List.take_append_of_le_length cut.le, short m cut]
      rfl
  | error error =>
    constructor
    · intro other more
      have stays : split kind (data ++ more) = .error error := by
        refine split_append_of_error read (fun fault named => ?_) more
        subst named
        exact other fault rfl
      rw [stays]
    · rintro _ ⟨⟩

/-- A text of one byte that begins a longer sequence is faulty, not cut off. -/
example : ofData .mintV1 ([0, 0, 0, 0, 0, 0, 0, 0] ++ [1, 0, 0, 0, 0xc3]) =
    .error (.malformedArguments .mintV1 (.malformed (.badText (.incomplete 0)))) := by
  decide

end Payload

end LeafLedger
