import LeafLedger.Proofs.Borsh.Exactness

namespace LeafLedger

namespace Borsh

/-- The front of an input settles the value of a reader, and no shorter one does. -/
structure Settles {α : Type} (reader : Reader α) (front : Bytes) (a : α) : Prop where
  reads : ∀ more, reader (front ++ more) = .ok (a, more)
  short : ∀ m < front.length, reader (front.take m) = .error .truncated

/-- A reader that never has to take back what it found in the bytes that are there. -/
class Streaming {α : Type} (reader : Reader α) : Prop where
  settled : ∀ {input rest : Bytes} {a : α}, reader input = .ok (a, rest) →
    ∃ front, input = front ++ rest ∧ Settles reader front a
  failed : ∀ {input : Bytes} {fault : Fault}, reader input = .error fault → fault ≠ .truncated →
    ∀ more, reader (input ++ more) = .error fault

section Sequence

variable {α β : Type} {reader : Reader α} {next : α → Reader β} {input rest : Bytes} {a : α}

theorem bind_of_ok (read : reader input = .ok (a, rest)) :
    (reader >>= next) input = next a rest := by
  change (reader input >>= fun p => next p.1 p.2) = _
  rw [read]
  rfl

theorem bind_of_error {fault : Fault} (failed : reader input = .error fault) :
    (reader >>= next) input = .error fault := by
  change (reader input >>= fun p => next p.1 p.2) = _
  rw [failed]
  rfl

theorem Settles.bind {front behind : Bytes} {b : β} (first : Settles reader front a)
    (second : Settles (next a) behind b) : Settles (reader >>= next) (front ++ behind) b where
  reads more := by
    rw [List.append_assoc, bind_of_ok (first.reads _), second.reads]
  short m cut := by
    rcases Nat.lt_or_ge m front.length with inside | beyond
    · rw [List.take_append_of_le_length inside.le]
      exact bind_of_error (first.short m inside)
    · have left : m - front.length < behind.length := by
        rw [List.length_append] at cut
        omega
      rw [List.take_append, List.take_of_length_le beyond, bind_of_ok (first.reads _)]
      exact second.short _ left

theorem Streaming.bind (first : Streaming reader) (later : ∀ a, Streaming (next a)) :
    Streaming (reader >>= next) where
  settled h := by
    obtain ⟨a, mid, read, readOn⟩ := bind_eq_ok h
    obtain ⟨front, rfl, settles⟩ := first.settled read
    obtain ⟨behind, rfl, settlesOn⟩ := (later a).settled readOn
    exact ⟨front ++ behind, (List.append_assoc ..).symm, settles.bind settlesOn⟩
  failed {input fault} h other more := by
    cases read : reader input with
    | error early =>
      have same : early = fault := by
        rw [bind_of_error read] at h
        exact Except.error.inj h
      subst same
      exact bind_of_error (first.failed read other more)
    | ok p =>
      obtain ⟨a, mid⟩ := p
      rw [bind_of_ok read] at h
      obtain ⟨front, rfl, settles⟩ := first.settled read
      rw [List.append_assoc, bind_of_ok (settles.reads _)]
      exact (later a).failed h other more

instance (a : α) : Streaming (pure a : Reader α) where
  settled h := by
    cases h
    exact ⟨[], rfl, ⟨fun _ => rfl, fun _ cut => absurd cut (Nat.not_lt_zero _)⟩⟩
  failed h := by cases h

instance (fault : Fault) : Streaming (fail fault : Reader α) where
  settled h := by cases h
  failed h _ _ := h

/-- A reader that looks at nothing but the length of an input that is too short. -/
theorem streaming_of_width (width : Nat)
    (long : ∀ {front : Bytes}, front.length = width →
      ∃ a, ∀ more, reader (front ++ more) = .ok (a, more))
    (short : ∀ {input : Bytes}, input.length < width → reader input = .error .truncated) :
    Streaming reader where
  settled {input rest a} h := by
    rcases Nat.lt_or_ge input.length width with few | enough
    · rw [short few] at h
      cases h
    · have size := List.length_take_of_le enough
      obtain ⟨value, reads⟩ := long size
      have read := reads (input.drop width)
      rw [List.take_append_drop, h] at read
      cases read
      refine ⟨input.take width, (List.take_append_drop width input).symm, reads, ?_⟩
      intro m cut
      apply short
      rw [List.length_take]
      omega
  failed {input fault} h other := by
    rcases Nat.lt_or_ge input.length width with few | enough
    · rw [short few] at h
      exact absurd (Except.error.inj h).symm other
    · obtain ⟨value, reads⟩ := long (List.length_take_of_le enough)
      have read := reads (input.drop width)
      rw [List.take_append_drop, h] at read
      cases read

end Sequence

instance (n : Nat) : Streaming (take n) := by
  refine streaming_of_width n (fun {front} size => ⟨front, take_append size⟩) ?_
  intro input few
  exact if_neg (Nat.not_le_of_lt few)

instance : Streaming (decode : Reader UInt8) := by
  refine streaming_of_width 1 ?_ ?_
  · intro front size
    obtain ⟨b, rfl⟩ := List.length_eq_one_iff.mp size
    exact ⟨b, fun _ => rfl⟩
  · intro input few
    obtain rfl := List.length_eq_zero_iff.mp (Nat.lt_one_iff.mp few)
    rfl

instance : Streaming (decode : Reader Bytes32) := by
  refine streaming_of_width 32 ?_ ?_
  · intro front size
    exact ⟨⟨front, size⟩, Lawful.reads (⟨front, size⟩ : Bytes32)⟩
  · intro input few
    exact dif_neg (Nat.not_le_of_lt few)

instance : Streaming (decode : Reader UInt16) :=
  Streaming.bind inferInstance fun _ => inferInstance

instance : Streaming (decode : Reader UInt32) :=
  Streaming.bind inferInstance fun _ => inferInstance

instance : Streaming (decode : Reader UInt64) :=
  Streaming.bind inferInstance fun _ => inferInstance

instance : Streaming (decode : Reader Bool) := by
  refine Streaming.bind inferInstance fun byte => ?_
  split
  next => infer_instance
  next => split <;> infer_instance

/-- The bytes of a text are taken before they are checked, so none is missing where they are
faulty. -/
instance : Streaming (decode : Reader String) := by
  refine Streaming.bind inferInstance fun size => ?_
  refine Streaming.bind inferInstance fun bytes => ?_
  split <;> infer_instance

instance {α : Type} [BEq α] (variants : List α) :
    Streaming (@decode α (ofVariants variants)) := by
  refine Streaming.bind inferInstance fun tag => ?_
  cases variants[tag.toNat]? <;> infer_instance

section Compound

variable {α : Type} [Borsh α] [Streaming (decode : Reader α)]

instance : Streaming (decode : Reader (Option α)) := by
  refine Streaming.bind inferInstance fun byte => ?_
  split
  next => infer_instance
  next =>
    split
    next => exact Streaming.bind inferInstance fun _ => inferInstance
    next => infer_instance

instance (n : Nat) : Streaming (decodeMany n : Reader (List α)) := by
  induction n with
  | zero => exact inferInstanceAs (Streaming (pure []))
  | succ n ih =>
    refine Streaming.bind inferInstance fun a => ?_
    exact Streaming.bind ih fun as => inferInstance

instance : Streaming (decode : Reader (List α)) :=
  Streaming.bind inferInstance fun _ => inferInstance

end Compound

instance : Streaming (decode : Reader Uses) := by
  iterate 3 refine Streaming.bind inferInstance fun _ => ?_
  infer_instance

instance : Streaming (decode : Reader Collection) := by
  iterate 2 refine Streaming.bind inferInstance fun _ => ?_
  infer_instance

instance : Streaming (decode : Reader Creator) := by
  iterate 3 refine Streaming.bind inferInstance fun _ => ?_
  infer_instance

instance : Streaming (decode : Reader LeafArgs) := by
  iterate 5 refine Streaming.bind inferInstance fun _ => ?_
  infer_instance

instance : Streaming (decode : Reader Metadata) := by
  iterate 12 refine Streaming.bind inferInstance fun _ => ?_
  infer_instance

end Borsh

end LeafLedger
