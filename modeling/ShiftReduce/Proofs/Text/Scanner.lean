import Mathlib.Data.List.Basic

/-!
# Scanners

A *scanner* reads a text from left to right. From the state it is in and the next character it tells
which tokens it has found and the state it goes on in, or it refuses the text. A text is read by
feeding it character by character (`ShiftReduce.Text.Scanner.feed`), so what is read of texts that
stand one behind the other is put together from what is read of each of them
(`ShiftReduce.Text.Scanner.feed_append`, `ShiftReduce.Text.Scanner.feed_flatMap`).
-/

namespace ShiftReduce.Text

/-- A reader of texts that goes from state to state. -/
structure Scanner (σ τ : Type) where
  /-- The state in front of a text. -/
  start : σ
  /-- The tokens that are found at a character and the state behind it. -/
  step : σ → Char → Option (List τ × σ)
  /-- The tokens that are found at the end of a text. -/
  finish : σ → Option (List τ)

namespace Scanner

variable {σ τ : Type} (S : Scanner σ τ)

/-- Reads a text from a state on: the tokens found in it and the state behind it. -/
def feed (q : σ) : List Char → Option (List τ × σ)
  | [] => some ([], q)
  | c :: s =>
    (S.step q c).bind fun found => (feed found.2 s).map fun later => (found.1 ++ later.1, later.2)

/-- The tokens of a text. -/
def read (s : List Char) : Option (List τ) :=
  (S.feed S.start s).bind fun found => (S.finish found.2).map (found.1 ++ ·)

variable {S} {q r r' : σ} {found later : List τ} {s t : List Char} {c : Char}

theorem feed_cons (hc : S.step q c = some (found, r)) (hs : S.feed r s = some (later, r')) :
    S.feed q (c :: s) = some (found ++ later, r') := by
  simp [feed, hc, hs]

theorem feed_singleton (hc : S.step q c = some (found, r)) : S.feed q [c] = some (found, r) := by
  simp [feed, hc]

/-- **Texts one behind the other** are read one after the other. -/
theorem feed_append (hs : S.feed q s = some (found, r)) (ht : S.feed r t = some (later, r')) :
    S.feed q (s ++ t) = some (found ++ later, r') := by
  induction s generalizing q found with
  | nil =>
    obtain ⟨rfl, rfl⟩ : [] = found ∧ q = r := by simpa [feed] using hs
    exact ht
  | cons c s ih =>
    obtain ⟨⟨first, p⟩, hc, hrest⟩ := Option.bind_eq_some_iff.mp hs
    obtain ⟨⟨rest, r⟩, hfeed, hpair⟩ := Option.map_eq_some_iff.mp hrest
    obtain ⟨rfl, rfl⟩ := Prod.mk.inj hpair
    rw [List.cons_append, feed_cons hc (ih hfeed), List.append_assoc]

/-- **Pieces between which the scanner is in one state** are read each on its own. -/
theorem feed_flatMap {α : Type} {l : List α} {f : α → List Char} {g : α → List τ}
    (h : ∀ a ∈ l, S.feed q (f a) = some (g a, q)) :
    S.feed q (l.flatMap f) = some (l.flatMap g, q) := by
  induction l with
  | nil => rfl
  | cons a l ih =>
    obtain ⟨ha, hl⟩ := List.forall_mem_cons.mp h
    rw [List.flatMap_cons, List.flatMap_cons, feed_append ha (ih hl)]

theorem read_of_feed (hs : S.feed S.start s = some (found, r)) (hr : S.finish r = some later) :
    S.read s = some (found ++ later) := by
  simp [read, hs, hr]

end Scanner

end ShiftReduce.Text
