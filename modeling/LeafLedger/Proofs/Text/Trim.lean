import LeafLedger.Text.Blank
import Mathlib.Data.List.DropRight

namespace LeafLedger.Text

variable {p : Char → Bool} {cs lead body tail : List Char} {c : Char}

theorem dropWhile_append (cut : ∀ c ∈ lead, p c) (first : ∀ c ∈ body.head?, ¬ p c) :
    (lead ++ body).dropWhile p = body := by
  rw [List.dropWhile_append_of_pos cut]
  cases body with
  | nil => rfl
  | cons c body => exact List.dropWhile_cons_of_neg (first c rfl)

theorem dropTail_append (cut : ∀ c ∈ tail, p c) (last : ∀ c ∈ body.getLast?, ¬ p c) :
    dropTail p (body ++ tail) = body := by
  unfold dropTail
  rw [List.reverse_append, dropWhile_append, List.reverse_reverse]
  · simpa using cut
  · simpa [List.head?_reverse] using last

theorem exists_append_dropTail (p : Char → Bool) (cs : List Char) :
    ∃ tail, cs = dropTail p cs ++ tail ∧ ∀ c ∈ tail, p c :=
  ⟨cs.rtakeWhile p, (List.rdropWhile_append_rtakeWhile ..).symm, fun _ => List.mem_rtakeWhile_imp⟩

theorem not_of_mem_getLast?_dropTail (last : c ∈ (dropTail p cs).getLast?) : ¬ p c := by
  obtain ⟨left, rfl⟩ := List.mem_getLast?_eq_getLast last
  exact List.rdropWhile_last_not p cs left

theorem exists_append_trim (cs : List Char) :
    ∃ lead tail, cs = lead ++ trim cs ++ tail ∧
      (∀ c ∈ lead, isBlank c) ∧ ∀ c ∈ tail, isBlank c := by
  obtain ⟨tail, split, blank⟩ := exists_append_dropTail isBlank (cs.dropWhile isBlank)
  refine ⟨cs.takeWhile isBlank, tail, ?_, fun _ => List.mem_takeWhile_imp, blank⟩
  rw [List.append_assoc, trim, ← split, List.takeWhile_append_dropWhile]

theorem not_isBlank_of_mem_getLast?_trim (last : c ∈ (trim cs).getLast?) : ¬ isBlank c :=
  not_of_mem_getLast?_dropTail last

theorem not_isBlank_of_mem_head?_trim (first : c ∈ (trim cs).head?) : ¬ isBlank c := by
  obtain ⟨tail, split, _⟩ := exists_append_dropTail isBlank (cs.dropWhile isBlank)
  have kept : (cs.dropWhile isBlank).head? = some c := by
    rw [split]
    exact List.mem_head?_append_of_mem_head? first
  have := List.head?_dropWhile_not isBlank cs
  simpa [kept] using this

theorem getLast?_trim_of_not_isBlank (last : cs.getLast? = some c) (kept : ¬ isBlank c) :
    (trim cs).getLast? = some c := by
  obtain ⟨lead, tail, split, front, back⟩ := exists_append_trim cs
  rw [split, List.getLast?_append, List.getLast?_append, Option.or_eq_some_iff,
    Option.or_eq_some_iff] at last
  rcases last with here | ⟨_, here | ⟨_, here⟩⟩
  · exact absurd (back c (List.mem_of_getLast? here)) kept
  · exact here
  · exact absurd (front c (List.mem_of_getLast? here)) kept

theorem trim_of_blank (blank : ∀ c ∈ cs, isBlank c) : trim cs = [] := by
  rw [trim, List.dropWhile_eq_nil_iff.mpr blank]
  rfl

theorem trim_append (front : ∀ c ∈ lead, isBlank c) (back : ∀ c ∈ tail, isBlank c)
    (first : ∀ c ∈ body.head?, ¬ isBlank c) (last : ∀ c ∈ body.getLast?, ¬ isBlank c) :
    trim (lead ++ body ++ tail) = body := by
  cases body with
  | nil =>
    refine trim_of_blank fun c mem => ?_
    simp only [List.append_nil, List.mem_append] at mem
    exact mem.elim (front c) (back c)
  | cons c body =>
    have kept : ∀ d ∈ (c :: body ++ tail).head?, ¬ isBlank d := first
    rw [trim, List.append_assoc, dropWhile_append front kept]
    exact dropTail_append back last

theorem trim_append_of_blank (blank : ∀ c ∈ tail, isBlank c) : trim (cs ++ tail) = trim cs := by
  obtain ⟨lead, rest, split, front, back⟩ := exists_append_trim cs
  have both : ∀ c ∈ rest ++ tail, isBlank c := fun c mem =>
    (List.mem_append.mp mem).elim (back c) (blank c)
  calc trim (cs ++ tail)
    _ = trim (lead ++ trim cs ++ (rest ++ tail)) := by rw [← List.append_assoc, ← split]
    _ = trim cs := trim_append front both (fun _ => not_isBlank_of_mem_head?_trim)
        fun _ => not_isBlank_of_mem_getLast?_trim

theorem trim_eq_nil_iff : trim cs = [] ↔ ∀ c ∈ cs, isBlank c := by
  refine ⟨fun empty c mem => ?_, trim_of_blank⟩
  obtain ⟨lead, tail, split, front, back⟩ := exists_append_trim cs
  rw [split, empty, List.append_nil, List.mem_append] at mem
  exact mem.elim (front c) (back c)

end LeafLedger.Text
