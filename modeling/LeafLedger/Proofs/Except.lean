import Mathlib.Data.List.Forall2

namespace LeafLedger

variable {ε δ α β : Type}

theorem bind_eq_ok_iff {first : Except ε α} {next : α → Except ε β} {b : β} :
    first >>= next = .ok b ↔ ∃ a, first = .ok a ∧ next a = .ok b := by
  cases first with
  | error e => exact ⟨nofun, fun ⟨_, read, _⟩ => nomatch read⟩
  | ok a => exact ⟨fun later => ⟨a, rfl, later⟩, fun ⟨_, read, later⟩ => by cases read; exact later⟩

/-- A list is read exactly if each of its members is. -/
theorem mapM_eq_ok_iff {read : α → Except ε β} {as : List α} {bs : List β} :
    as.mapM read = .ok bs ↔ List.Forall₂ (fun a b => read a = .ok b) as bs := by
  induction as generalizing bs with
  | nil =>
    rw [List.mapM_nil, List.forall₂_nil_left_iff]
    exact ⟨fun done => by cases done; rfl, fun empty => by cases empty; rfl⟩
  | cons a as ih =>
    rw [List.mapM_cons, bind_eq_ok_iff, List.forall₂_cons_left_iff]
    simp only [bind_eq_ok_iff, ih]
    constructor
    · rintro ⟨b, first, rest, others, done⟩
      cases done
      exact ⟨b, rest, first, others, rfl⟩
    · rintro ⟨b, rest, first, others, rfl⟩
      exact ⟨b, first, rest, others, rfl⟩

theorem forall₂_eq_map_iff {f : β → α} {as : List α} {bs : List β} :
    List.Forall₂ (fun a b => a = f b) as bs ↔ as = bs.map f := by
  rw [← List.forall₂_map_right_iff (R := (· = ·)), List.forall₂_eq_eq_eq]

theorem mapError_eq_ok_iff {f : ε → δ} {read : Except ε α} {a : α} :
    read.mapError f = .ok a ↔ read = .ok a := by
  cases read <;> simp [Except.mapError]

section Checks

variable {p : Prop} [Decidable p] {e : ε} {rest : Except ε Unit}

theorem throw_bind_eq (e : ε) (next : α → Except ε Unit) : (throw e >>= next) = throw e :=
  rfl

/-- A check that gives up under a condition passes exactly if the condition fails. -/
theorem guard_eq_ok_iff :
    (if p then throw e else rest) = .ok () ↔ ¬ p ∧ rest = .ok () := by
  by_cases h : p <;> simp [h, throw, throwThe, MonadExceptOf.throw]

end Checks

end LeafLedger
