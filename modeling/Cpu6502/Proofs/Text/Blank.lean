import Cpu6502.Text.Blank

/-! # Trimming and words

How `trim` and `words` act on a text that is put together from parts: a character that is not blank
shields what stands on its other side from being trimmed, and blank characters part the words.
The words are the maximal runs of characters that are not blank (`Text.runs_iff`).
-/

namespace Cpu6502.Text

/-! ## The end of a text -/

@[simp] theorem trimEnd_nil : trimEnd [] = [] := rfl

theorem trimEnd_cons (c : Char) (text : List Char) :
    trimEnd (c :: text) =
      if isBlank c ∧ trimEnd text = [] then [] else c :: trimEnd text := by
  unfold trimEnd
  rw [List.reverse_cons, List.dropWhile_append]
  -- the first character is reached only if all the others are blank
  cases hrest : text.reverse.dropWhile isBlank with
  | nil =>
    by_cases hc : isBlank c
    · simp [hc]
    · simp [hc]
  | cons d rest => simp

/-- What precedes a character that is not blank is no part of the end. -/
theorem trimEnd_append_cons (s t : List Char) {c : Char} (hc : isBlank c = false) :
    trimEnd (s ++ c :: t) = s ++ c :: trimEnd t := by
  induction s with
  | nil =>
    rw [List.nil_append, trimEnd_cons, if_neg (by simp [hc]), List.nil_append]
  | cons d s ih =>
    rw [List.cons_append, trimEnd_cons, ih, if_neg (by simp), List.cons_append]

theorem trimEnd_trimEnd (text : List Char) : trimEnd (trimEnd text) = trimEnd text := by
  induction text with
  | nil => rfl
  | cons c text ih =>
    rw [trimEnd_cons c text]
    split
    · rfl
    · rename_i hkeep
      rw [trimEnd_cons, ih, if_neg hkeep]

theorem trimEnd_append_of_blank (s : List Char) {t : List Char} (h : ∀ c ∈ t, isBlank c) :
    trimEnd (s ++ t) = trimEnd s := by
  unfold trimEnd
  rw [List.reverse_append,
    List.dropWhile_append_of_pos fun c hc => h c (List.mem_reverse.1 hc)]

/-! ## The start of a text -/

theorem trimStart_cons_of_blank (text : List Char) {c : Char} (hc : isBlank c) :
    trimStart (c :: text) = trimStart text :=
  List.dropWhile_cons_of_pos hc

theorem trimStart_cons_of_not_blank (text : List Char) {c : Char} (hc : isBlank c = false) :
    trimStart (c :: text) = c :: text :=
  List.dropWhile_cons_of_neg (by simp [hc])

/-- What follows a character that is not blank is no part of the start. -/
theorem trimStart_append_cons (s t : List Char) {c : Char} (hc : isBlank c = false) :
    trimStart (s ++ c :: t) = trimStart s ++ c :: t := by
  induction s with
  | nil => exact trimStart_cons_of_not_blank t hc
  | cons d s ih =>
    rw [List.cons_append]
    cases hd : isBlank d with
    | true => rw [trimStart_cons_of_blank _ hd, trimStart_cons_of_blank _ hd, ih]
    | false =>
      rw [trimStart_cons_of_not_blank _ hd, trimStart_cons_of_not_blank _ hd,
        List.cons_append]

theorem trimStart_trimStart (text : List Char) :
    trimStart (trimStart text) = trimStart text := by
  induction text with
  | nil => rfl
  | cons c text ih =>
    cases hc : isBlank c with
    | true => rw [trimStart_cons_of_blank _ hc, ih]
    | false => rw [trimStart_cons_of_not_blank _ hc, trimStart_cons_of_not_blank _ hc]

theorem trimStart_append_of_blank {s : List Char} (h : ∀ c ∈ s, isBlank c) (t : List Char) :
    trimStart (s ++ t) = trimStart t :=
  List.dropWhile_append_of_pos h

/-! ## Both ends -/

/-- The two ends can be trimmed in either order. -/
theorem trimStart_trimEnd (text : List Char) :
    trimStart (trimEnd text) = trimEnd (trimStart text) := by
  induction text with
  | nil => rfl
  | cons c text ih =>
    cases hc : isBlank c with
    | true =>
      rw [trimStart_cons_of_blank _ hc, ← ih, trimEnd_cons]
      split
      · rename_i hall
        rw [hall.2]
      · exact trimStart_cons_of_blank _ hc
    | false =>
      have hend := trimEnd_append_cons [] text hc
      rw [List.nil_append, List.nil_append] at hend
      rw [trimStart_cons_of_not_blank _ hc, hend, trimStart_cons_of_not_blank _ hc]

theorem trim_sublist (text : List Char) : (trim text).Sublist text := by
  have hend := (List.dropWhile_sublist isBlank (l := (trimStart text).reverse)).reverse
  rw [List.reverse_reverse] at hend
  exact hend.trans (List.dropWhile_sublist isBlank)

theorem trim_trimStart (text : List Char) : trim (trimStart text) = trim text := by
  unfold trim
  rw [trimStart_trimStart]

theorem trim_trimEnd (text : List Char) : trim (trimEnd text) = trim text := by
  unfold trim
  rw [trimStart_trimEnd, trimEnd_trimEnd]

theorem trim_append_cons (s t : List Char) {c : Char} (hc : isBlank c = false) :
    trim (s ++ c :: t) = trimStart s ++ c :: trimEnd t := by
  unfold trim
  rw [trimStart_append_cons s t hc, trimEnd_append_cons _ t hc]

theorem trim_append_of_blank {s : List Char} (h : ∀ c ∈ s, isBlank c) (t : List Char) :
    trim (s ++ t) = trim t := by
  unfold trim
  rw [trimStart_append_of_blank h]

theorem trim_append_of_blank_right (s : List Char) {t : List Char} (h : ∀ c ∈ t, isBlank c) :
    trim (s ++ t) = trim s := by
  rw [← trim_trimEnd, trimEnd_append_of_blank s h, trim_trimEnd]

/-- A text is trimmed if its first and its last character are not blank. -/
theorem trim_eq_self {text : List Char} (hfirst : ∀ c ∈ text.head?, isBlank c = false)
    (hlast : ∀ c ∈ text.getLast?, isBlank c = false) : trim text = text := by
  have hstart : trimStart text = text := by
    cases text with
    | nil => rfl
    | cons c text => exact trimStart_cons_of_not_blank _ (hfirst c rfl)
  -- now the end, which the last character holds
  unfold trim
  rw [hstart]
  rcases List.eq_nil_or_concat text with rfl | ⟨s, c, rfl⟩
  · rfl
  · have hc : isBlank c = false := hlast c (by simp)
    rw [List.concat_eq_append, trimEnd_append_cons s [] hc, trimEnd_nil]

/-- A change of characters that keeps the blank ones apart from the others can be made before
trimming or after it. -/
theorem trim_map {f : Char → Char} (h : ∀ c, isBlank (f c) = isBlank c) (text : List Char) :
    trim (text.map f) = (trim text).map f := by
  have hcomp : isBlank ∘ f = isBlank := funext h
  unfold trim trimEnd trimStart
  rw [List.dropWhile_map, hcomp, ← List.map_reverse, List.dropWhile_map, hcomp, List.map_reverse]

/-! ## Words -/

theorem words_eq_singleton {word : List Char} (hne : word ≠ [])
    (h : ∀ c ∈ word, isBlank c = false) : words word = [word] := by
  have hpieces : pieces isBlank word = [word] := by
    clear hne
    induction word with
    | nil => rfl
    | cons c word ih =>
      have hrest := ih fun d hd => h d (List.mem_cons_of_mem _ hd)
      rw [pieces_cons, hrest, h c List.mem_cons_self]
      rfl
  unfold words
  rw [hpieces]
  exact List.filter_cons_of_pos (by simpa using hne)

theorem words_append_of_blank {s : List Char} (h : ∀ c ∈ s, isBlank c) (t : List Char) :
    words (s ++ t) = words t := by
  induction s with
  | nil => rfl
  | cons c s ih =>
    obtain ⟨hc, hs⟩ := List.forall_mem_cons.1 h
    show words ([] ++ c :: (s ++ t)) = words t
    rw [words_append_cons [] _ hc, ih hs]
    rfl

theorem words_append_of_blank_right (s : List Char) {t : List Char} (h : ∀ c ∈ t, isBlank c) :
    words (s ++ t) = words s := by
  cases t with
  | nil => rw [List.append_nil]
  | cons c t =>
    obtain ⟨hc, ht⟩ := List.forall_mem_cons.1 h
    have hrest := words_append_of_blank ht []
    rw [List.append_nil] at hrest
    rw [words_append_cons s t hc, hrest]
    exact List.append_nil _

/-- The text falls into these runs of characters that are not blank, each of them as long as it can
be, with nothing but blanks around them. -/
inductive Runs : List Char → List (List Char) → Prop where
  | blank {text : List Char} (blank : ∀ c ∈ text, isBlank c) : Runs text []
  | run {before word after : List Char} {words : List (List Char)}
      (before_blank : ∀ c ∈ before, isBlank c) (ne_nil : word ≠ [])
      (not_blank : ∀ c ∈ word, isBlank c = false) (ends : ∀ c ∈ after.head?, isBlank c)
      (rest : Runs after words) : Runs (before ++ (word ++ after)) (word :: words)

theorem Runs.cons_blank {text : List Char} {tokens : List (List Char)} (h : Runs text tokens)
    {c : Char} (hc : isBlank c) : Runs (c :: text) tokens := by
  cases h with
  | blank blank => exact .blank (List.forall_mem_cons.2 ⟨hc, blank⟩)
  | run before_blank ne_nil not_blank ends rest =>
    exact .run (List.forall_mem_cons.2 ⟨hc, before_blank⟩) ne_nil not_blank ends rest

/-- A character that is not blank makes the run after it longer, or is a run of its own. -/
theorem Runs.exists_cons {text : List Char} {tokens : List (List Char)} (h : Runs text tokens)
    {c : Char} (hc : isBlank c = false) : ∃ tokens', Runs (c :: text) tokens' := by
  have hword : ∀ d ∈ [c], isBlank d = false := List.forall_mem_singleton.2 hc
  cases h with
  | blank blank =>
    refine ⟨[[c]], ?_⟩
    show Runs ([] ++ ([c] ++ text)) _
    refine .run nofun (List.cons_ne_nil c []) hword ?_ (.blank blank)
    intro d hd
    exact blank d (List.mem_of_mem_head? hd)
  | @run before word after words before_blank ne_nil not_blank ends rest =>
    cases before with
    | nil =>
      refine ⟨(c :: word) :: words, ?_⟩
      show Runs ([] ++ ((c :: word) ++ after)) _
      exact .run nofun (List.cons_ne_nil c word) (List.forall_mem_cons.2 ⟨hc, not_blank⟩) ends rest
    | cons d before =>
      refine ⟨[c] :: word :: words, ?_⟩
      show Runs ([] ++ ([c] ++ (d :: before ++ (word ++ after)))) _
      refine .run nofun (List.cons_ne_nil c []) hword ?_
        (.run before_blank ne_nil not_blank ends rest)
      intro e he
      cases he
      exact before_blank d List.mem_cons_self

theorem exists_runs (text : List Char) : ∃ tokens, Runs text tokens := by
  induction text with
  | nil => exact ⟨[], .blank nofun⟩
  | cons c text ih =>
    obtain ⟨tokens, h⟩ := ih
    cases hc : isBlank c with
    | true => exact ⟨tokens, h.cons_blank hc⟩
    | false => exact h.exists_cons hc

theorem Runs.words_eq {text : List Char} {tokens : List (List Char)} (h : Runs text tokens) :
    words text = tokens := by
  induction h with
  | blank blank =>
    have hwords := words_append_of_blank_right [] blank
    rwa [List.nil_append] at hwords
  | @run before word after words before_blank ne_nil not_blank ends rest ih =>
    rw [words_append_of_blank before_blank]
    cases after with
    | nil =>
      rw [List.append_nil, words_eq_singleton ne_nil not_blank, ← ih]
      rfl
    | cons c after =>
      have hc : isBlank c := ends c rfl
      have hafter : Text.words (c :: after) = Text.words after := words_append_cons [] after hc
      rw [words_append_cons _ _ hc, words_eq_singleton ne_nil not_blank, ← ih, hafter]
      rfl

/-- The words of a text are the runs that it falls into, in order. -/
theorem runs_iff {text : List Char} {tokens : List (List Char)} :
    Runs text tokens ↔ tokens = words text := by
  constructor
  · intro h
    exact h.words_eq.symm
  · rintro rfl
    obtain ⟨tokens, h⟩ := exists_runs text
    rwa [h.words_eq]

/-- What is trimmed off has no words. -/
theorem words_trim (text : List Char) : words (trim text) = words text := by
  have hstart : words (trimStart text) = words text := by
    have hblank : ∀ c ∈ text.takeWhile isBlank, isBlank c :=
      List.all_eq_true.1 List.all_takeWhile
    have hsplit : text.takeWhile isBlank ++ trimStart text = text :=
      List.takeWhile_append_dropWhile
    have hwords := words_append_of_blank hblank (trimStart text)
    rw [hsplit] at hwords
    exact hwords.symm
  have hend : ∀ text, words (trimEnd text) = words text := by
    intro text
    have hblank : ∀ c ∈ (text.reverse.takeWhile isBlank).reverse, isBlank c := by
      intro c hc
      exact List.all_eq_true.1 List.all_takeWhile c (List.mem_reverse.1 hc)
    have hsplit : trimEnd text ++ (text.reverse.takeWhile isBlank).reverse = text := by
      unfold trimEnd
      rw [← List.reverse_append, List.takeWhile_append_dropWhile, List.reverse_reverse]
    have hwords := words_append_of_blank_right (trimEnd text) hblank
    rw [hsplit] at hwords
    exact hwords.symm
  unfold trim
  rw [hend, hstart]

end Cpu6502.Text
