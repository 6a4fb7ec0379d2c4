import LeafLedger.Proofs.Scan.LeafSource
import LeafLedger.Proofs.Scan.SingleCall
import LeafLedger.Proofs.Scan.Stretch
import LeafLedger.Proofs.Transaction.Sites
import Mathlib.Data.List.Forall2

namespace LeafLedger

namespace Instruction

/-- Two instructions that stand in one place and leave the same leaf to the mints before them. -/
structure SameReach (context : ScanContext) (i j : Instruction) : Prop where
  position : i.position = j.position
  origin : i.origin = j.origin
  announced : i.announced? context = j.announced? context
  mint : i.isMint context = j.isMint context

variable {context : ScanContext} {i j : Instruction}

theorem SameReach.rfl : SameReach context i i :=
  ⟨.refl _, .refl _, .refl _, .refl _⟩

theorem SameReach.isLandmark (same : SameReach context i j) :
    i.isLandmark context = j.isLandmark context := by
  rw [Instruction.isLandmark, Instruction.isLandmark, same.announced, same.mint]

theorem isMint_eq_false (foreign : context.role? i.program ≠ some .target) :
    i.isMint context = false := by
  simp [isMint, foreign]

/-- What is not of the target program and announces no leaf reaches nothing, whatever its accounts
and data are. -/
theorem sameReach_recast_of_mute (foreign : context.role? i.program ≠ some .target)
    (accounts : List UInt8) (data : Bytes)
    (mute : context.role? i.program = some .logWrapper →
      (∀ schema, LeafSchema.ofEmission i.data ≠ .ok (some schema)) ∧
      ∀ schema, LeafSchema.ofEmission data ≠ .ok (some schema)) :
    SameReach context i (i.recast accounts data) where
  position := .refl _
  origin := .refl _
  announced := by
    rw [announced?_eq_none fun wrapper => (mute wrapper).1, announced?_eq_none]
    exact fun wrapper => (mute wrapper).2
  mint := by
    rw [isMint_eq_false foreign, isMint_eq_false]
    exact foreign

theorem sameReach_recast_of_target (target : context.role? i.program = some .target)
    (accounts : List UInt8) (data : Bytes)
    (mint : (Kind.ofPayload i.data).isMint = (Kind.ofPayload data).isMint) :
    SameReach context i (i.recast accounts data) where
  position := .refl _
  origin := .refl _
  announced := by
    have silent : context.role? i.program ≠ some .logWrapper := by simp [target]
    rw [announced?_eq_none fun wrapper => absurd wrapper silent, announced?_eq_none]
    exact fun wrapper => absurd wrapper silent
  mint := by
    rw [isMint, mint]
    rfl

/-- An instruction has no events but those with its ordinal. -/
theorem filter_event? {ordinal : Nat} (own : i.ordinal = ordinal) (tx : Transaction)
    (leaf : Option LeafSchema) :
    (i.event? context tx leaf).toList.filter (·.ordinal ≠ ordinal) = [] := by
  rw [List.filter_eq_nil_iff]
  intro event he
  have found := event?_eq_some_iff.mp (Option.mem_toList.mp he)
  simp [found.ordinal, own]

end Instruction

theorem Transaction.sameFrame_recast (tx : Transaction) (accounts : List UInt8) (data : Bytes)
    (site : Site) : tx.SameFrame (tx.recast accounts data site) := by
  cases site <;> exact ⟨rfl, rfl, rfl⟩

namespace Scan

open Instruction (SameReach)

variable {context : ScanContext} {tx : Transaction}

theorem leafAhead_of_sameReach {instructions others : List Instruction} (position : Nat)
    (same : List.Forall₂ (SameReach context) instructions others) :
    leafAhead context position instructions = leafAhead context position others := by
  induction same with
  | nil => rfl
  | @cons i j rest others here _ ih =>
    unfold leafAhead at ih ⊢
    rw [List.find?_cons, List.find?_cons, ← here.isLandmark]
    cases i.isLandmark context with
    | true => simp only [← here.announced, ← here.origin, ← here.position]
    | false => exact ih

/-- If corresponding instructions have the same reach, and the same events as far as they are in
view, then all events in view are the same. -/
theorem filter_eventsBefore_congr {other : Transaction} {instructions others : List Instruction}
    {view : Event → Bool}
    (same : List.Forall₂ (fun i j => SameReach context i j ∧
      ∀ leaf, (i.event? context tx leaf).toList.filter view =
        (j.event? context other leaf).toList.filter view) instructions others) :
    (eventsBefore context tx [] instructions).filter view =
      (eventsBefore context other [] others).filter view := by
  induction same with
  | nil => rfl
  | @cons i j rest others here later ih =>
    obtain ⟨reach, own⟩ := here
    have ahead := leafAhead_of_sameReach i.position (later.imp fun _ _ both => both.1)
    simp only [eventsBefore, List.append_nil, List.filter_append, ih, ← reach.position, ahead, own]

variable {site : Site} {raw : RawInstruction} {accounts : List UInt8} {data : Bytes}

theorem filter_events_recast {view : Event → Bool} (found : tx.at? site = some raw)
    (same : ∀ i : Instruction, tx.programOf? raw = some i.program → i.data = raw.data →
      i.ordinal = tx.ordinal site → SameReach context i (i.recast accounts data) ∧
      ∀ leaf, ((i.recast accounts data).event? context tx leaf).toList.filter view =
        (i.event? context tx leaf).toList.filter view) :
    ((tx.recast accounts data site).scan context).events.filter view =
      (tx.scan context).events.filter view := by
  have frame := tx.sameFrame_recast accounts data site
  rw [events_eq_eventsBefore, events_eq_eventsBefore, ← frame.table,
    ← eventsBefore_of_sameFrame frame, Transaction.instructions_recast]
  -- Only the instruction with the ordinal of the site is not the same in both runs.
  refine (filter_eventsBefore_congr <|
    List.forall₂_map_right_iff.mpr (List.forall₂_same.mpr fun i hi => ?_)).symm
  by_cases here : i.ordinal = tx.ordinal site
  · obtain ⟨program, -, data⟩ := Transaction.of_ordinal_eq found hi here
    obtain ⟨reach, own⟩ := same i program data here
    rw [if_pos here]
    exact ⟨reach, fun leaf => (own leaf).symm⟩
  · rw [if_neg here]
    exact ⟨.rfl, fun _ => rfl⟩

theorem events_recast_of_mute (found : tx.at? site = some raw)
    (foreign : (tx.programOf? raw).bind context.role? ≠ some .target)
    (mute : (tx.programOf? raw).bind context.role? = some .logWrapper →
      (∀ schema, LeafSchema.ofEmission raw.data ≠ .ok (some schema)) ∧
      ∀ schema, LeafSchema.ofEmission data ≠ .ok (some schema)) :
    ((tx.recast accounts data site).scan context).events = (tx.scan context).events := by
  have all : ((tx.recast accounts data site).scan context).events.filter (fun _ => true) =
      (tx.scan context).events.filter (fun _ => true) := by
    refine filter_events_recast found fun i program own _ => ?_
    rw [program, Option.bind_some] at foreign mute
    rw [← own] at mute
    refine ⟨Instruction.sameReach_recast_of_mute foreign accounts data mute, fun leaf => ?_⟩
    rw [Instruction.event?_of_role?_ne foreign, Instruction.event?_of_role?_ne]
    exact foreign
  simpa using all

theorem filter_events_recast_of_target (found : tx.at? site = some raw)
    (target : (tx.programOf? raw).bind context.role? = some .target)
    (mint : (Kind.ofPayload raw.data).isMint = (Kind.ofPayload data).isMint) :
    ((tx.recast accounts data site).scan context).events.filter (·.ordinal ≠ tx.ordinal site) =
      (tx.scan context).events.filter (·.ordinal ≠ tx.ordinal site) := by
  refine filter_events_recast found fun i program own here => ?_
  rw [program, Option.bind_some] at target
  rw [← own] at mint
  refine ⟨Instruction.sameReach_recast_of_target target accounts data mint, fun leaf => ?_⟩
  rw [Instruction.filter_event? here, Instruction.filter_event?]
  exact here

/-- Other accounts and data for an instruction of no role change no event, and neither do they for
one of a log wrapper that announces no leaf before and after. For one of the target that is a mint
before and after, or neither time, no event changes but its own. -/
theorem events_recast (context : ScanContext) (found : tx.at? site = some raw)
    (accounts : List UInt8) (data : Bytes) :
    let role := (tx.programOf? raw).bind context.role?
    let other := tx.recast accounts data site
    (role = none → (other.scan context).events = (tx.scan context).events) ∧
    (role = some .logWrapper →
      (∀ schema, LeafSchema.ofEmission raw.data ≠ .ok (some schema)) →
      (∀ schema, LeafSchema.ofEmission data ≠ .ok (some schema)) →
        (other.scan context).events = (tx.scan context).events) ∧
    (role = some .target → (Kind.ofPayload raw.data).isMint = (Kind.ofPayload data).isMint →
      (other.scan context).events.filter (·.ordinal ≠ tx.ordinal site) =
        (tx.scan context).events.filter (·.ordinal ≠ tx.ordinal site)) := by
  intro role other
  refine ⟨fun none => ?_, fun wrapper before after => ?_, fun target mint => ?_⟩
  · have foreign : role ≠ some .target := by simp [none]
    exact events_recast_of_mute found foreign fun wrapper =>
      nomatch none.symm.trans wrapper
  · have foreign : role ≠ some .target := by simp [wrapper]
    exact events_recast_of_mute found foreign fun _ => ⟨before, after⟩
  · exact filter_events_recast_of_target found target mint

/-- Under a call of another program a mint, an instruction of a log wrapper that says nothing, a
transfer and an emission. -/
def sampleIsolation : Transaction :=
  { sampleTransaction true with
    inner := [⟨0, [sampleMint, ⟨1, [], []⟩, sampleTransfer, ⟨1, [], sampleLeaf.emission⟩]⟩] }

/-- The call and what says nothing make no difference, and the truncated transfer loses its event
alone. -/
theorem events_recast_sample :
    ((sampleIsolation.recast [1] sampleLeaf.emission (.top 0)).scan .standard).events =
      (sampleIsolation.scan .standard).events ∧
    ((sampleIsolation.recast [1] [7] (.inner 0 1)).scan .standard).events =
      (sampleIsolation.scan .standard).events ∧
    ((sampleIsolation.recast [] [] (.inner 0 2)).scan .standard).events.filter (·.ordinal ≠ 3) =
      (sampleIsolation.scan .standard).events.filter (·.ordinal ≠ 3) ∧
    (sampleIsolation.scan .standard).events.map (fun event => (event.ordinal, event.leafSchema)) =
      [(1, some sampleLeaf), (3, none)] ∧
    ((sampleIsolation.recast [] [] (.inner 0 2)).scan .standard).events.map (·.ordinal) = [1] := by
  have top : sampleIsolation.at? (.top 0) = some ⟨2, [], []⟩ := rfl
  have wrapper : sampleIsolation.at? (.inner 0 1) = some ⟨1, [], []⟩ := rfl
  have transfer : sampleIsolation.at? (.inner 0 2) = some sampleTransfer := rfl
  have call := (events_recast .standard top [1] sampleLeaf.emission).1 (by decide +kernel)
  have silent := (events_recast .standard wrapper [1] [7]).2.1 (by decide +kernel)
    (fun _ => nofun) (fun _ => nofun)
  have truncated := (events_recast .standard transfer [] []).2.2 (by decide +kernel)
    (by decide +kernel)
  have ordinal : sampleIsolation.ordinal (.inner 0 2) = 3 := by decide +kernel
  rw [ordinal] at truncated
  exact ⟨call, silent, truncated, by decide +kernel, by decide +kernel⟩

end Scan

end LeafLedger
