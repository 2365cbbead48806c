import ShiftReduce.Text.Pieces
import ShiftReduce.Proofs.Text.Entity
import ShiftReduce.Proofs.Text.Pieces
import ShiftReduce.Proofs.Text.Replacement

/-!
# Substituting entities loses nothing

The ampersand is in all entities, so it has to be replaced first, and then the result is the same as
if each character had been looked up on its own (`ShiftReduce.Text.Entity.substituteInTurn_eq`).

What comes out says the same as what went in: read from left to right
(`ShiftReduce.Text.Entity.decode`), every entity gives its character back and nothing else is taken
for an entity (`ShiftReduce.Text.Entity.decode_substitute`). The two spellings of the apostrophe are
the only thing that depends on who writes the text: between the apostrophes, the same is written
(`ShiftReduce.Text.Entity.substitute_eq_intercalate`).
-/

namespace ShiftReduce.Text.Entity

variable {apostrophe : String} {c : Char} {s t : List Char}

/-! ### One replacement after the other -/

theorem entityOr_eq (apostrophe : String) (c : Char) :
    entityOr apostrophe c = replacementOf (entities apostrophe) c := by
  rw [entityOr, replacementOf]
  cases (entities apostrophe).lookup c <;> rfl

/-- **The five characters may be replaced in turn or at once.** The ampersand is the first of them,
and no other stands in an entity. -/
theorem substituteInTurn_eq (hspelling : apostrophe = pageApostrophe ∨ apostrophe = errorApostrophe)
    (s : String) : substituteInTurn apostrophe s = substitute apostrophe s := by
  have horder : (entities apostrophe).Pairwise fun e later => later.1 ∉ e.2.toList := by
    rcases hspelling with rfl | rfl <;> decide
  rw [substituteInTurn, replaceInTurn_eq horder, substitute]
  exact congrArg String.ofList (List.flatMap_congr fun c _ => (entityOr_eq apostrophe c).symm)

/-! ### Reading what was substituted -/

/-- The entity that a text begins with, if it begins with one, and the character it stands for. -/
def leading? (apostrophe : String) (s : List Char) : Option (Char × String) :=
  (entities apostrophe).find? fun e => e.2.toList.isPrefixOf s

/-- **What a text says** when it is read from left to right: an entity is read as the character it
stands for, and any other character as itself. -/
def decode (apostrophe : String) : List Char → List Char
  | [] => []
  | c :: s =>
    match leading? apostrophe (c :: s) with
    | some e => e.1 :: decode apostrophe (s.drop (e.2.length - 1))
    | none => c :: decode apostrophe s
termination_by s => s.length

/-- A text begins with an entity only if it begins with an ampersand. -/
theorem leading?_eq_none (hspelling : apostrophe = pageApostrophe ∨ apostrophe = errorApostrophe)
    (hc : c ≠ '&') : leading? apostrophe (c :: s) = none := by
  have hbegins : ∀ e ∈ entities apostrophe, e.2.toList.head? = some '&' := by
    rcases hspelling with rfl | rfl <;> decide
  refine List.find?_eq_none.mpr fun e he hbegin => hc ?_
  obtain ⟨rest, hrest⟩ := List.isPrefixOf_iff_prefix.mp hbegin
  have hhead := hbegins e he
  rcases hentity : e.2.toList with _ | ⟨d, l⟩
  · rw [hentity] at hhead
    exact absurd hhead (by simp)
  · rw [hentity] at hhead hrest
    exact (List.cons.inj hrest).1.symm.trans (Option.some.inj hhead)

/-- No entity is the beginning of another, so a text that begins with one begins with no other. -/
theorem leading?_entity (hspelling : apostrophe = pageApostrophe ∨ apostrophe = errorApostrophe)
    {e : Char × String} (he : e ∈ entities apostrophe) (t : List Char) :
    leading? apostrophe (e.2.toList ++ t) = some e := by
  rcases hspelling with rfl | rfl <;>
    simp only [entities, List.mem_cons, List.not_mem_nil, or_false] at he <;>
    rcases he with rfl | rfl | rfl | rfl | rfl <;> rfl

/-- **A character is written as one of the five entities**, which begins with its only ampersand, or
as itself. -/
theorem entityOr_cases (hspelling : apostrophe = pageApostrophe ∨ apostrophe = errorApostrophe)
    (c : Char) :
    (∃ (entity : String) (l : List Char), (c, entity) ∈ entities apostrophe ∧ '&' ∉ l ∧
      entity.toList = '&' :: l ∧ entityOr apostrophe c = '&' :: l) ∨
      c ∉ marks ∧ entityOr apostrophe c = [c] := by
  by_cases hc : c ∈ marks
  · obtain ⟨name, hentity, hname, -⟩ := exists_entityOr_eq hspelling hc
    have hl : '&' ∉ name ++ [';'] := by
      rw [List.mem_append, not_or]
      exact ⟨fun hin => hname _ hin (by decide), by decide⟩
    obtain ⟨entity, hlookup, hself⟩ : ∃ entity, (entities apostrophe).lookup c = some entity ∧
        entityOr apostrophe c = entity.toList := by
      simp only [marks, List.mem_cons, List.not_mem_nil, or_false] at hc
      rcases hc with rfl | rfl | rfl | rfl | rfl <;> exact ⟨_, rfl, rfl⟩
    obtain ⟨front, back, hsplit, -⟩ := List.lookup_eq_some_iff.mp hlookup
    exact Or.inl ⟨entity, name ++ [';'], by simp [hsplit], hl, hself ▸ hentity, hentity⟩
  · exact Or.inr ⟨hc, entityOr_of_notMem hc⟩

/-- **A character is read from how it is written**, whatever follows it. -/
theorem decode_entityOr_append
    (hspelling : apostrophe = pageApostrophe ∨ apostrophe = errorApostrophe) (c : Char)
    (t : List Char) :
    decode apostrophe (entityOr apostrophe c ++ t) = c :: decode apostrophe t := by
  rcases entityOr_cases hspelling c with ⟨entity, l, he, -, hchars, hentity⟩ | ⟨hc, hself⟩
  · have hleading := leading?_entity hspelling he t
    have hlength : entity.length - 1 = l.length := by
      rw [← String.length_toList, hchars, List.length_cons, Nat.add_sub_cancel]
    rw [hchars, List.cons_append] at hleading
    rw [hentity, List.cons_append, decode, hleading]
    simp only [hlength, List.drop_left]
  · have hc' : c ≠ '&' := by
      rintro rfl
      exact hc (by decide)
    rw [hself, List.singleton_append, decode, leading?_eq_none hspelling hc']

/-- **What was substituted says the same as before.** -/
theorem decode_substitute
    (hspelling : apostrophe = pageApostrophe ∨ apostrophe = errorApostrophe) (s : String) :
    decode apostrophe (substitute apostrophe s).toList = s.toList := by
  rw [substitute, String.toList_ofList]
  induction s.toList with
  | nil => rw [List.flatMap_nil, decode]
  | cons c l ih => rw [List.flatMap_cons, decode_entityOr_append hspelling, ih]

/-- **Every ampersand begins an entity.** -/
theorem exists_entity_of_ampersand
    (hspelling : apostrophe = pageApostrophe ∨ apostrophe = errorApostrophe)
    {front back : List Char} (h : s.flatMap (entityOr apostrophe) = front ++ '&' :: back) :
    ∃ e ∈ entities apostrophe, e.2.toList <+: '&' :: back := by
  induction s generalizing front with
  | nil => exact absurd h (by simp)
  | cons c s ih =>
    rw [List.flatMap_cons, List.append_eq_append_iff] at h
    rcases h with ⟨front', rfl, hrest⟩ | ⟨l', hc, hback⟩
    · exact ih hrest
    · -- the ampersand may stand where the first character has been written
      rcases l' with _ | ⟨d, l'⟩
      · exact ih (hback.symm.trans (List.nil_append _).symm)
      obtain ⟨rfl, rfl⟩ := List.cons.inj hback
      rcases entityOr_cases hspelling c with ⟨entity, l, he, hl, hchars, hentity⟩ | ⟨hmark, hself⟩
      · rw [hentity] at hc
        rcases front with _ | ⟨d, front⟩
        · refine ⟨(c, entity), he, ?_⟩
          rw [hchars, hc]
          exact List.prefix_append _ _
        · rw [(List.cons.inj hc).2] at hl
          exact absurd (by simp) hl
      · rw [hself, List.singleton_eq_append_iff] at hc
        rcases hc with ⟨-, hc⟩ | ⟨-, hc⟩
        · exact absurd (by decide) ((List.cons.inj hc).1 ▸ hmark)
        · exact absurd hc (by simp)

/-! ### Two spellings of the apostrophe -/

/-- A text without apostrophes is written in one way. -/
theorem flatMap_entityOr_congr (other : String) (h : '\'' ∉ s) :
    s.flatMap (entityOr apostrophe) = s.flatMap (entityOr other) := by
  refine List.flatMap_congr fun c hc => ?_
  have hne : (c == '\'') = false := beq_false_of_ne fun heq => h (heq ▸ hc)
  simp [entityOr, entities, List.lookup_cons, hne]

/-- What is written of pieces with a separator between them is what is written of each piece, with
what is written of the separator between them. -/
theorem flatMap_intercalate (f : Char → List Char) (sep : Char) (l : List (List Char)) :
    ([sep].intercalate l).flatMap f = (f sep).intercalate (l.map (List.flatMap f)) := by
  induction l with
  | nil => rfl
  | cons first l ih =>
    rcases l with _ | ⟨second, l⟩
    · simp [List.intercalate]
    · rw [List.intercalate_cons_cons, List.flatMap_append, List.flatMap_append, ih]
      simp [List.intercalate_cons_cons]

/-- The pieces of a text between its apostrophes, as they are written. -/
def writtenPieces (s : String) : List String :=
  (pieces '\'' s).map (substitute pageApostrophe)

/-- **Only how the apostrophe is spelled depends on the spelling**: between the apostrophes, the
same is written. -/
theorem substitute_eq_intercalate (apostrophe s : String) :
    substitute apostrophe s = apostrophe.intercalate (writtenPieces s) := by
  have hpieces : ((s.toList.splitOn '\'').map fun w => w.flatMap (entityOr apostrophe)) =
      (writtenPieces s).map String.toList := by
    rw [writtenPieces, pieces, List.map_map, List.map_map]
    refine List.map_congr_left fun w hw => ?_
    rw [flatMap_entityOr_congr pageApostrophe (notMem_of_mem_splitOn hw)]
    simp [substitute]
  have hself : entityOr apostrophe '\'' = apostrophe.toList := rfl
  rw [← String.toList_inj, substitute, String.toList_ofList, String.toList_intercalate, ← hself,
    ← hpieces, ← flatMap_intercalate, List.intercalate_splitOn]

/-! ### Error texts -/

/-- **A text that is fit for an error text** and says what another text says. -/
structure Neutralises (s text : String) : Prop where
  /-- It is the text with each character that needs it replaced by its entity, all at once. -/
  atOnce : text = substitute errorApostrophe s
  /-- It holds no angle bracket, no quotation mark and no apostrophe. -/
  avoids : Avoids ['<', '>', '"', '\''] text.toList
  /-- Every ampersand in it begins one of the five entities. -/
  ampersand : ∀ front back, text.toList = front ++ '&' :: back →
    ∃ e ∈ entities errorApostrophe, e.2.toList <+: '&' :: back
  /-- Read from left to right it says what the other text says. -/
  decodes : decode errorApostrophe text.toList = s.toList
  /-- It has its own spelling of the apostrophe, and what is written for a page has the other one,
  with the same between them. -/
  respelled : text = errorApostrophe.intercalate (writtenPieces s) ∧
    substitute pageApostrophe s = pageApostrophe.intercalate (writtenPieces s)

/-- **Replacing the five characters in turn neutralises any text and loses nothing**: no two texts
become the same. -/
theorem substituteInTurn_neutralises :
    (∀ s, Neutralises s (substituteInTurn errorApostrophe s)) ∧
      Function.Injective (substituteInTurn errorApostrophe) := by
  have hatOnce : ∀ s, substituteInTurn errorApostrophe s = substitute errorApostrophe s :=
    substituteInTurn_eq (Or.inr rfl)
  have hdecodes : ∀ s, decode errorApostrophe (substitute errorApostrophe s).toList = s.toList :=
    decode_substitute (Or.inr rfl)
  refine ⟨fun s => ⟨hatOnce s, ?_, ?_, ?_, ?_, substitute_eq_intercalate _ s⟩, fun s t h => ?_⟩
  · intro c hc hmark
    rw [hatOnce, substitute, String.toList_ofList, List.mem_flatMap] at hc
    obtain ⟨d, -, hc⟩ := hc
    have hamp : c ≠ '&' := by
      rintro rfl
      exact absurd hmark (by decide)
    exact notMem_entityOr (Or.inr rfl) (List.mem_cons_of_mem _ hmark) hamp hc
  · intro front back h
    rw [hatOnce, substitute, String.toList_ofList] at h
    exact exists_entity_of_ampersand (Or.inr rfl) h
  · rw [hatOnce, hdecodes]
  · rw [hatOnce, substitute_eq_intercalate]
  · rw [hatOnce, hatOnce] at h
    rw [← String.toList_inj, ← hdecodes s, h, hdecodes]

end ShiftReduce.Text.Entity
