import Mathlib.Data.List.Basic
import ShiftReduce.Text.Entity
import ShiftReduce.Proofs.Text.Joined

/-!
# Reading entities

An entity is an ampersand, a name and a semicolon. The character it stands for is told by its name
(`ShiftReduce.Text.Entity.charOf?`), whichever spelling of the apostrophe is in use. So a character
of marked-up text is itself, if it is none of the five that need an entity
(`ShiftReduce.Text.Entity.entityOr_of_notMem`), and an entity that stands for it otherwise
(`ShiftReduce.Text.Entity.exists_entityOr_eq`).
-/

namespace ShiftReduce.Text.Entity

/-- The characters that need an entity. -/
def marks : List Char := ['&', '<', '>', '"', '\'']

/-- The character that the entity of a name stands for. -/
def charOf? (apostrophe : String) (name : List Char) : Option Char :=
  ((entities apostrophe).find? fun e => e.2.toList = '&' :: (name ++ [';'])).map (·.1)

variable {apostrophe : String} {c : Char}

theorem entityOr_of_notMem (h : c ∉ marks) : entityOr apostrophe c = [c] := by
  have hnone : (entities apostrophe).lookup c = none := by
    rw [List.lookup_eq_none_iff]
    simpa [marks, entities] using h
  rw [entityOr, hnone]

/-- **A mark is written as an entity** that stands for it. -/
theorem exists_entityOr_eq (hspelling : apostrophe = pageApostrophe ∨ apostrophe = errorApostrophe)
    (h : c ∈ marks) : ∃ name, entityOr apostrophe c = '&' :: (name ++ [';']) ∧
      Avoids (';' :: marks) name ∧ charOf? apostrophe name = some c := by
  simp only [marks, List.mem_cons, List.not_mem_nil, or_false] at h
  rcases h with rfl | rfl | rfl | rfl | rfl
  · exact ⟨"amp".toList, rfl, by decide, by rcases hspelling with rfl | rfl <;> decide⟩
  · exact ⟨"lt".toList, rfl, by decide, by rcases hspelling with rfl | rfl <;> decide⟩
  · exact ⟨"gt".toList, rfl, by decide, by rcases hspelling with rfl | rfl <;> decide⟩
  · exact ⟨"quot".toList, rfl, by decide, by rcases hspelling with rfl | rfl <;> decide⟩
  · rcases hspelling with rfl | rfl
    · exact ⟨"#x27".toList, by decide, by decide, by decide⟩
    · exact ⟨"#039".toList, by decide, by decide, by decide⟩

/-- What is written of a character holds no mark but an ampersand in front of an entity. -/
theorem notMem_entityOr (hspelling : apostrophe = pageApostrophe ∨ apostrophe = errorApostrophe)
    {d : Char} (hd : d ∈ marks) (hamp : d ≠ '&') : d ∉ entityOr apostrophe c := by
  by_cases hc : c ∈ marks
  · obtain ⟨name, hentity, hname, -⟩ := exists_entityOr_eq hspelling hc
    rw [hentity, List.mem_cons, List.mem_append, List.mem_singleton]
    rintro (rfl | hin | rfl)
    · exact hamp rfl
    · exact hname d hin (List.mem_cons_of_mem _ hd)
    · exact absurd hd (by decide)
  · rw [entityOr_of_notMem hc, List.mem_singleton]
    rintro rfl
    exact hc hd

end ShiftReduce.Text.Entity
