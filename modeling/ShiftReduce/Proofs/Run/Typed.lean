import ShiftReduce.Proofs.Grammar.Augmented
import ShiftReduce.Proofs.Grammar.Validation
import ShiftReduce.Proofs.Text.Munch
import ShiftReduce.Run.Trace

/-!
# Inputs as they are typed

An input is typed as one text and cut into lexemes. The terminals of a grammar that is built from
rows are lexemes themselves (`ShiftReduce.Grammar.isLexeme_of_mem_terminals`), so every input of
such a grammar can be typed, with spaces between its symbols, and the run on the text is the run on
the symbols (`ShiftReduce.Run.ofText_munches`).
-/

namespace ShiftReduce

/-- **The terminals of a grammar that is built from rows are lexemes.** -/
theorem Grammar.isLexeme_of_mem_terminals {rows : List Row} {g : Grammar} {x : Symbol}
    (hg : ofRows rows = .ok g) (hx : x ∈ g.terminals) : Text.IsLexeme x.toList := by
  obtain ⟨-, -, -, hterm, -⟩ := ofRows_eq_ok hg
  rw [hterm, SymbolSet.mem_ofList, List.mem_filter, List.mem_flatMap] at hx
  obtain ⟨⟨rule, hrule, hx⟩, -⟩ := hx
  obtain ⟨r, -, -, -, hbody⟩ := mem_rulesOfRows.mp hrule
  exact isLexeme_of_mem_bodies hbody hx

namespace Run

/-- **The cut of a typed input takes the longest runs and loses nothing**, and the terminals of a
grammar that is built from rows, typed with a space between any two, give the run on these
terminals. -/
theorem ofText_munches : Text.IsMaximalMunch Text.lexemesOf ∧
    ∀ (rows : List Row) (g : Grammar), Grammar.ofRows rows = .ok g →
      ∀ tokens : List Symbol, (∀ x ∈ tokens, x ∈ g.terminals) →
        ∀ (t : Table) (a : Automaton) (settings : Settings) (keepTrees : Bool),
          ofText t a settings keepTrees (" ".intercalate tokens) =
            ofTokens t a settings keepTrees tokens := by
  refine ⟨Text.isMaximalMunch_lexemesOf, fun rows g hg tokens htokens t a settings keepTrees => ?_⟩
  have hlexemes : ∀ x ∈ tokens, Text.IsLexeme x.toList := fun x hx =>
    Grammar.isLexeme_of_mem_terminals hg (htokens x hx)
  rw [ofText, Text.lexemesOf_intercalate hlexemes]

theorem ofText_munches_brackets :
    Text.lexemesOf ("a+" ++ "b'\u3000(") = Text.lexemesOf "a+" ++ Text.lexemesOf "b'\u3000(" ∧
      (∃ x gap y, "x1 \ty2" = x ++ ("x1" ++ (gap ++ ("y2" ++ y))) ∧ gap ≠ "" ∧
        (∀ c ∈ gap.toList, Text.isBlank c = true) ∧ Text.lexemesOf x = [] ∧
        Text.lexemesOf y = []) ∧
      Text.lexemesOf "+ | xy" = ["+", "|", "xy"] ∧
      ofText (.ofAutomaton (.ofAugmented .brackets)) (.ofAugmented .brackets) {} true "a c b" =
        ofTokens (.ofAutomaton (.ofAugmented .brackets)) (.ofAugmented .brackets) {} true
          ["a", "c", "b"] := by
  obtain ⟨hmunch, hruns⟩ := ofText_munches
  have hrun : ∀ w : String, w.toList ≠ [] → w.toList.all Text.isOrdinary = true →
      Text.IsRun w.toList := fun w hne hall => ⟨hne, List.all_eq_true.mp hall⟩
  refine ⟨hmunch.append _ _ (Or.inr (Or.inr (Or.inl ⟨'+', by decide, by decide⟩))), ?_, ?_, ?_⟩
  · exact hmunch.apart "x1 \ty2" [] "x1" "y2" [] (by decide +kernel)
      (hrun _ (by decide) (by decide)) (hrun _ (by decide) (by decide))
  · refine hmunch.intercalate ["+", "|", "xy"] fun x hx => ?_
    rcases List.mem_cons.mp hx with rfl | hx
    · exact Or.inl ⟨'+', by decide, by decide⟩
    rcases List.mem_cons.mp hx with rfl | hx
    · exact Or.inl ⟨'|', by decide, by decide⟩
    obtain rfl : x = "xy" := List.mem_singleton.mp hx
    exact Or.inr (hrun _ (by decide) (by decide))
  · exact hruns _ _ Grammar.ofRows_bracketRows ["a", "c", "b"] (by decide) _ _ _ _

end Run

end ShiftReduce
