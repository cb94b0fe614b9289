import Mathlib.Data.List.DropRight
import Mathlib.Data.List.TakeWhile
import PathSelection.Text.Script

namespace PathSelection.Text

/-- A run of blanks, which may be empty. -/
def IsGap (gap : List Char) : Prop := ∀ c ∈ gap, isBlank c = true

instance (gap : List Char) : Decidable (IsGap gap) :=
  decidable_of_iff (gap.all isBlank = true) List.all_eq_true

/-- At least one character, and no blank. -/
structure IsToken (token : List Char) : Prop where
  ne_nil : token ≠ []
  not_blank : ∀ c ∈ token, isBlank c = false

instance (token : List Char) : Decidable (IsToken token) :=
  decidable_of_iff (token ≠ [] ∧ (token.all fun c => !isBlank c) = true)
    ⟨fun h => ⟨h.1, by simpa using h.2⟩, fun h => ⟨h.ne_nil, by simpa using h.not_blank⟩⟩

/-- A line made of some texts. There are blanks between any two of them, and there may be more
before the first and after the last one. -/
inductive Spaced : List (List Char) → List Char → Prop
  | nil {gap : List Char} (hgap : IsGap gap) : Spaced [] gap
  | cons {gap token rest : List Char} {tokens : List (List Char)} (hgap : IsGap gap)
      (hrest : ∀ c ∈ rest.head?, isBlank c = true) (h : Spaced tokens rest) :
      Spaced (token :: tokens) (gap ++ token ++ rest)

/-- The tokens of a line. -/
structure Tokens (line : List Char) (tokens : List (List Char)) : Prop where
  spaced : Spaced tokens line
  isToken : ∀ token ∈ tokens, IsToken token

section Words

variable {gap token line : List Char} {tokens : List (List Char)}

theorem wordsFrom_append (htoken : ∀ c ∈ token, isBlank c = false) (front rest : List Char) :
    wordsFrom front (token ++ rest) = wordsFrom (front ++ token) rest := by
  induction token generalizing front with
  | nil => rw [List.append_nil, List.nil_append]
  | cons c token ih =>
    obtain ⟨hc, htoken⟩ := List.forall_mem_cons.mp htoken
    rw [List.cons_append, wordsFrom, hc, if_neg Bool.false_ne_true, ih htoken, List.append_assoc,
      List.singleton_append]

theorem words_gap_append (hgap : IsGap gap) (rest : List Char) :
    words (gap ++ rest) = words rest := by
  induction gap with
  | nil => rfl
  | cons c gap ih =>
    obtain ⟨hc, hgap⟩ := List.forall_mem_cons.mp hgap
    rw [List.cons_append, words, wordsFrom, hc, if_pos rfl, if_pos rfl]
    exact ih hgap

/-- A token that was begun ends at a blank or at the end of the line. -/
theorem wordsFrom_of_head? (htoken : token ≠ []) {rest : List Char}
    (hrest : ∀ c ∈ rest.head?, isBlank c = true) :
    wordsFrom token rest = token :: words rest := by
  cases rest with
  | nil => rw [wordsFrom, if_neg htoken]; rfl
  | cons c rest =>
    have hc : isBlank c = true := hrest c rfl
    rw [wordsFrom, words, wordsFrom, hc, if_pos rfl, if_neg htoken, if_pos rfl, if_pos rfl]

theorem Spaced.words_eq (h : Spaced tokens line) (htokens : ∀ token ∈ tokens, IsToken token) :
    words line = tokens := by
  induction h with
  | @nil gap hgap =>
    rw [← List.append_nil gap, words_gap_append hgap]
    rfl
  | @cons gap token rest tokens hgap hrest _ ih =>
    obtain ⟨htoken, htokens⟩ := List.forall_mem_cons.mp htokens
    rw [List.append_assoc, words_gap_append hgap, words, wordsFrom_append htoken.not_blank,
      List.nil_append, wordsFrom_of_head? htoken.ne_nil hrest, ih htokens]

theorem Tokens.blank_cons {c : Char} (hc : isBlank c = true) (h : Tokens line tokens) :
    Tokens (c :: line) tokens := by
  refine ⟨?_, h.isToken⟩
  cases h.spaced with
  | nil hgap => exact .nil (List.forall_mem_cons.mpr ⟨hc, hgap⟩)
  | cons hgap hrest hspaced => exact .cons (List.forall_mem_cons.mpr ⟨hc, hgap⟩) hrest hspaced

theorem Tokens.token_append (htoken : IsToken token) {rest : List Char}
    (hrest : ∀ c ∈ rest.head?, isBlank c = true) (h : Tokens rest tokens) :
    Tokens (token ++ rest) (token :: tokens) :=
  ⟨@Spaced.cons [] token rest tokens nofun hrest h.spaced,
    List.forall_mem_cons.mpr ⟨htoken, h.isToken⟩⟩

/-- The tokens of a text are its words, of which the first one may have begun before it. -/
theorem tokens_wordsFrom (htoken : ∀ c ∈ token, isBlank c = false) (line : List Char) :
    Tokens (token ++ line) (wordsFrom token line) := by
  induction line generalizing token with
  | nil =>
    have hnil : Tokens [] [] := ⟨.nil nofun, nofun⟩
    by_cases hempty : token = []
    · subst hempty
      exact hnil
    · rw [wordsFrom, if_neg hempty]
      exact hnil.token_append ⟨hempty, htoken⟩ nofun
  | cons c line ih =>
    rw [wordsFrom]
    cases hc : isBlank c with
    | true =>
      have hrest : Tokens (c :: line) (wordsFrom [] line) := (@ih [] nofun).blank_cons hc
      by_cases hempty : token = []
      · subst hempty
        exact hrest
      · -- The token ends here, and this blank begins the rest of the line.
        rw [if_pos rfl, if_neg hempty]
        exact hrest.token_append ⟨hempty, htoken⟩ fun d hd => Option.some.inj hd ▸ hc
    | false =>
      have hmore : ∀ d ∈ token ++ [c], isBlank d = false :=
        List.forall_mem_append.mpr ⟨htoken, List.forall_mem_singleton.mpr hc⟩
      -- The character goes on with the token, which may have no characters yet.
      rw [if_neg Bool.false_ne_true, List.append_cons]
      exact ih hmore

/-- The words of a line are its tokens. -/
theorem words_eq_iff : words line = tokens ↔ Tokens line tokens :=
  ⟨fun h => h ▸ @tokens_wordsFrom [] nofun line, fun h => h.spaced.words_eq h.isToken⟩

/-- A line has one list of tokens. -/
theorem exists_tokens_iff {p : List (List Char) → Prop} :
    (∃ tokens, Tokens line tokens ∧ p tokens) ↔ p (words line) := by
  constructor
  · rintro ⟨tokens, htokens, h⟩
    rwa [words_eq_iff.mpr htokens]
  · exact fun h => ⟨words line, words_eq_iff.mp rfl, h⟩

end Words

section Trim

variable {gap line : List Char}

theorem wordsFrom_append_gap (hgap : IsGap gap) (token line : List Char) :
    wordsFrom token (line ++ gap) = wordsFrom token line := by
  induction line generalizing token with
  | nil =>
    by_cases htoken : token = []
    · rw [htoken, List.nil_append, ← List.append_nil gap]
      exact words_gap_append hgap []
    · have hhead : ∀ c ∈ gap.head?, isBlank c = true := fun c hc =>
        hgap c (List.mem_of_head? hc)
      have hnone : words gap = [] := (Spaced.nil hgap).words_eq nofun
      rw [List.nil_append, wordsFrom_of_head? htoken hhead, hnone, wordsFrom, if_neg htoken]
  | cons c line ih =>
    rw [List.cons_append, wordsFrom, wordsFrom]
    simp only [ih]

/-- Only blanks are trimmed. -/
theorem exists_trim (line : List Char) :
    ∃ before after, IsGap before ∧ IsGap after ∧ line = before ++ trim line ++ after := by
  let rest := line.dropWhile isBlank
  have hrest : trim line ++ (rest.reverse.takeWhile isBlank).reverse = rest := by
    unfold trim
    rw [← List.reverse_append, List.takeWhile_append_dropWhile, List.reverse_reverse]
  refine ⟨line.takeWhile isBlank, (rest.reverse.takeWhile isBlank).reverse, ?_, ?_, ?_⟩
  · exact fun c hc => List.mem_takeWhile_imp hc
  · exact fun c hc => List.mem_takeWhile_imp (List.mem_reverse.mp hc)
  · rw [List.append_assoc, hrest, List.takeWhile_append_dropWhile]

theorem words_trim (line : List Char) : words (trim line) = words line := by
  obtain ⟨before, after, hbefore, hafter, hline⟩ := exists_trim line
  have hwords : words (before ++ trim line ++ after) = words (trim line) := by
    rw [List.append_assoc, words_gap_append hbefore]
    exact wordsFrom_append_gap hafter [] (trim line)
  rw [← hline] at hwords
  exact hwords.symm

theorem trim_append_gap (hgap : IsGap gap) (line : List Char) : trim (line ++ gap) = trim line := by
  have hreverse : ∀ c ∈ gap.reverse, isBlank c = true := fun c hc => hgap c (List.mem_reverse.mp hc)
  unfold trim
  rw [List.dropWhile_append]
  split
  · next hblank =>
    rw [List.dropWhile_eq_nil_iff.mpr hgap, List.isEmpty_iff.mp hblank]
  · rw [List.reverse_append, List.dropWhile_append_of_pos hreverse]

/-- A trimmed line begins with the first character that is not blank. -/
theorem head?_trim (line : List Char) : (trim line).head? = line.find? fun c => !isBlank c := by
  rw [List.find?_not_eq_head?_dropWhile]
  have htrim : trim line = (line.dropWhile isBlank).rdropWhile isBlank := rfl
  cases hrest : line.dropWhile isBlank with
  | nil =>
    rw [htrim, hrest]
    rfl
  | cons c rest =>
    have hfind : line.find? (fun c => !isBlank c) = some c := by
      rw [List.find?_not_eq_head?_dropWhile, hrest]
      rfl
    have hc : isBlank c = false := by simpa using List.find?_some hfind
    -- The end is trimmed down to the character that is not blank at most.
    have hne : trim line ≠ [] := by
      rw [htrim, hrest]
      intro hnil
      have hblank := List.rdropWhile_eq_nil_iff.mp hnil c List.mem_cons_self
      rw [hc] at hblank
      exact Bool.false_ne_true hblank
    obtain ⟨d, trimmed, heq⟩ := List.exists_cons_of_ne_nil hne
    have hprefix : trim line <+: c :: rest := hrest ▸ htrim ▸ List.rdropWhile_prefix isBlank _
    rw [heq, List.cons_prefix_cons] at hprefix
    rw [heq, hprefix.1]
    rfl

end Trim

section Significant

variable {line token : List Char} {tokens : List (List Char)}

theorem isSignificant_iff :
    isSignificant line = true ↔ ∃ c, line.find? (fun c => !isBlank c) = some c ∧ c ≠ '#' := by
  unfold isSignificant
  rw [← head?_trim]
  cases trim line with
  | nil => simp
  | cons c rest => simp

theorem find?_gap_append {gap : List Char} (hgap : IsGap gap) (rest : List Char) :
    ((gap ++ rest).find? fun c => !isBlank c) = rest.find? fun c => !isBlank c := by
  have hnone : (gap.find? fun c => !isBlank c) = none := by
    rw [List.find?_eq_none]
    intro c hc
    rw [hgap c hc]
    exact Bool.false_ne_true
  rw [List.find?_append, hnone, Option.none_or]

theorem isSignificant_of_gap {gap : List Char} (hgap : IsGap gap) : isSignificant gap = false := by
  rw [← Bool.not_eq_true, isSignificant_iff, ← List.append_nil gap, find?_gap_append hgap]
  rintro ⟨c, hnone, -⟩
  exact Option.some_ne_none c hnone.symm

/-- A line with tokens is read unless the first one begins with a number sign. -/
theorem Tokens.isSignificant_iff (h : Tokens line (token :: tokens)) :
    isSignificant line = true ↔ token.head? ≠ some '#' := by
  obtain ⟨htoken, -⟩ := List.forall_mem_cons.mp h.isToken
  cases h.spaced with
  | @cons gap _ rest _ hgap _ _ =>
    cases token with
    | nil => exact absurd rfl htoken.ne_nil
    | cons c cs =>
      have hc : isBlank c = false := htoken.not_blank c List.mem_cons_self
      rw [Text.isSignificant_iff, List.append_assoc, find?_gap_append hgap, List.cons_append,
        List.find?_cons_of_pos (by rw [hc]; rfl)]
      simp

/-- A line that is read has a token. -/
theorem Tokens.ne_nil (h : Tokens line tokens) (hline : isSignificant line = true) :
    tokens ≠ [] := by
  rintro rfl
  cases h.spaced with
  | nil hgap => exact Bool.false_ne_true ((isSignificant_of_gap hgap).symm.trans hline)

end Significant

end PathSelection.Text
