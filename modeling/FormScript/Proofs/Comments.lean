import Mathlib.Data.List.Chain
import FormScript.Text.Comment

/-!
# Texts without comments

A text is `Plain` if no two slashes stand side by side in it, which is to say that it does not
contain `//` (`plain_iff_no_slashes`). Taking a text apart into lines and joining them again gives
the text back, and cutting off comments changes no plain line, so `stripComments` keeps a plain text
as it is (`stripComments_of_plain`). Lines joined come apart again as they were, so the lines of any
text without its comments are its own, cut (`splitLines_stripComments`), and no fewer
(`count_newline_stripComments`). Nothing is added to a text (`stripComments_sublist`), and what is
left is plain (`plain_stripComments`), so a second pass keeps it (`stripComments_stripComments`).
-/

namespace FormScript.Text

/-- No two slashes stand side by side. -/
def Plain (cs : List Char) : Prop :=
  cs.IsChain fun c c' => ¬ (c = '/' ∧ c' = '/')

instance (cs : List Char) : Decidable (Plain cs) :=
  inferInstanceAs (Decidable (cs.IsChain _))

/-- A plain text is one without `//` anywhere in it. -/
theorem plain_iff_no_slashes {cs : List Char} : Plain cs ↔ ¬ ['/', '/'] <:+: cs := by
  rw [Plain, List.isChain_iff_forall_rel_of_append_cons_cons]
  constructor
  · rintro h ⟨before, behind, heq⟩
    exact h (show cs = before ++ '/' :: '/' :: behind by simp [← heq]) ⟨rfl, rfl⟩
  · rintro h c c' before behind rfl ⟨rfl, rfl⟩
    exact h ⟨before, behind, by simp⟩

/-- A text without slashes is plain. -/
theorem plain_of_not_mem {cs : List Char} (h : '/' ∉ cs) : Plain cs := by
  rw [plain_iff_no_slashes]
  exact fun hslashes => h (hslashes.subset (.head _))

/-- Between two plain texts, a character other than a slash keeps them apart. -/
theorem Plain.append_cons {cs cs' : List Char} {c : Char} (h : Plain cs) (hc : c ≠ '/')
    (h' : Plain cs') : Plain (cs ++ c :: cs') := by
  rw [Plain, List.isChain_append, List.isChain_cons]
  exact ⟨h, ⟨fun _ _ hslash => hc hslash.1, h'⟩, by simp [hc]⟩

/-- The first character goes to the first line, or closes it. -/
theorem splitLines_cons (c : Char) (cs : List Char) :
    splitLines (c :: cs) = splitLines.step c (splitLines cs) := rfl

/-- A text has at least one line. -/
theorem exists_splitLines (cs : List Char) : ∃ line lines, splitLines cs = line :: lines := by
  cases cs with
  | nil => exact ⟨[], [], rfl⟩
  | cons c cs =>
    rw [splitLines_cons]
    cases splitLines cs with
    | nil => exact ⟨[c], [], rfl⟩
    | cons line lines =>
      rw [splitLines.step]
      split
      · exact ⟨[], line :: lines, rfl⟩
      · exact ⟨c :: line, lines, rfl⟩

/-- The lines of a text make up the text. -/
theorem joinLines_splitLines (cs : List Char) : joinLines (splitLines cs) = cs := by
  induction cs with
  | nil => rfl
  | cons c cs ih =>
    obtain ⟨line, lines, heq⟩ := exists_splitLines cs
    rw [heq] at ih
    rw [splitLines_cons, heq, splitLines.step]
    split
    · next hc =>
      rw [joinLines, List.intercalate_cons_cons, hc]
      exact congrArg _ ih
    · cases lines with
      | nil => simpa [joinLines] using ih
      | cons line' lines =>
        rw [joinLines, List.intercalate_cons_cons] at ih ⊢
        rw [← ih]
        rfl

/-- The lines of a plain text are plain. -/
theorem Plain.lines {lines : List (List Char)} (h : Plain (joinLines lines)) :
    ∀ line ∈ lines, Plain line := by
  induction lines with
  | nil => simp
  | cons line lines ih =>
    cases lines with
    | nil => simpa [joinLines] using h
    | cons line' lines =>
      rw [joinLines, List.intercalate_cons_cons, Plain, List.isChain_append,
        List.isChain_append] at h
      exact List.forall_mem_cons.2 ⟨h.1.1, ih h.2.1⟩

/-- Nothing is cut off a plain line. -/
theorem cutComment_of_plain {cs : List Char} (h : Plain cs) : cutComment cs = cs := by
  fun_induction cutComment cs with
  | case1 => rfl
  | case2 cs => exact absurd ⟨rfl, rfl⟩ (List.isChain_cons_cons.1 h).1
  | case3 c cs _ ih => rw [ih (List.IsChain.tail h)]

/-- A plain text has no comments. -/
theorem stripComments_of_plain {text : String} (h : Plain text.toList) :
    stripComments text = text := by
  have hcut : ∀ line ∈ splitLines text.toList, cutComment line = line := fun line hline =>
    cutComment_of_plain (Plain.lines (by rwa [joinLines_splitLines]) line hline)
  rw [stripComments, List.map_congr_left hcut, List.map_id', joinLines_splitLines,
    String.ofList_toList]

/-- A text has one line more than newline characters. -/
theorem length_splitLines (cs : List Char) : (splitLines cs).length = 1 + cs.count '\n' := by
  induction cs with
  | nil => rfl
  | cons c cs ih =>
    obtain ⟨line, lines, heq⟩ := exists_splitLines cs
    rw [heq] at ih
    rw [splitLines_cons, heq, splitLines.step]
    split
    · next hc =>
      rw [hc, List.count_cons_self, List.length_cons, ih, Nat.add_assoc]
    · next hc =>
      rw [List.count_cons_of_ne hc]
      exact ih

/-- The lines of a text hold no newlines. -/
theorem newline_not_mem_splitLines {cs line : List Char} (h : line ∈ splitLines cs) :
    '\n' ∉ line := by
  induction cs generalizing line with
  | nil => simp [List.mem_singleton.1 h]
  | cons c cs ih =>
    obtain ⟨first, lines, heq⟩ := exists_splitLines cs
    rw [heq] at ih
    rw [splitLines_cons, heq, splitLines.step] at h
    split at h
    · rcases List.mem_cons.1 h with rfl | h
      · simp
      · exact ih h
    · next hc =>
      rcases List.mem_cons.1 h with rfl | h
      · exact List.not_mem_cons_of_ne_of_not_mem (Ne.symm hc) (ih (.head _))
      · exact ih (.tail _ h)

/-- A text without a newline goes into the first line of what follows it. -/
theorem splitLines_append {cs cs' line : List Char} {lines : List (List Char)} (h : '\n' ∉ cs)
    (heq : splitLines cs' = line :: lines) : splitLines (cs ++ cs') = (cs ++ line) :: lines := by
  induction cs with
  | nil => exact heq
  | cons c cs ih =>
    have hc : c ≠ '\n' := fun hc => h (hc ▸ .head _)
    rw [List.cons_append, splitLines_cons, ih fun hmem => h (.tail _ hmem),
      splitLines.step, if_neg hc]
    rfl

/-- Lines come apart again as they were joined. -/
theorem splitLines_joinLines {line : List Char} {lines : List (List Char)}
    (h : ∀ l ∈ line :: lines, '\n' ∉ l) :
    splitLines (joinLines (line :: lines)) = line :: lines := by
  induction lines generalizing line with
  | nil =>
    have hline : splitLines (line ++ []) = [line ++ []] := splitLines_append (h line (.head _)) rfl
    simpa [joinLines] using hline
  | cons line' lines ih =>
    rw [List.forall_mem_cons] at h
    have hjoined : splitLines ('\n' :: joinLines (line' :: lines)) = [] :: line' :: lines := by
      rw [splitLines_cons, ih h.2, splitLines.step, if_pos rfl]
    have hline := splitLines_append h.1 hjoined
    rw [List.append_nil] at hline
    rwa [joinLines, List.intercalate_cons_cons, List.append_assoc]

/-- Cutting a comment off a line only removes characters. -/
theorem cutComment_sublist (cs : List Char) : (cutComment cs).Sublist cs := by
  fun_induction cutComment cs with
  | case1 => exact .refl _
  | case2 cs => exact List.nil_sublist _
  | case3 c cs _ ih => exact ih.cons_cons c

/-- A text keeps its lines, up to their comments. -/
theorem splitLines_stripComments (text : String) :
    splitLines (stripComments text).toList = (splitLines text.toList).map cutComment := by
  have hcut : ∀ line ∈ (splitLines text.toList).map cutComment, '\n' ∉ line := by
    intro line hline
    obtain ⟨line, hmem, rfl⟩ := List.mem_map.1 hline
    exact fun hnewline =>
      newline_not_mem_splitLines hmem ((cutComment_sublist line).subset hnewline)
  obtain ⟨line, lines, heq⟩ := exists_splitLines text.toList
  rw [heq] at hcut ⊢
  rw [stripComments, String.toList_ofList, heq, List.map_cons]
  exact splitLines_joinLines hcut

/-- Stripping comments keeps all newlines. -/
theorem count_newline_stripComments (text : String) :
    (stripComments text).toList.count '\n' = text.toList.count '\n' := by
  have hlength := length_splitLines (stripComments text).toList
  rw [splitLines_stripComments, List.length_map, length_splitLines] at hlength
  omega

/-- If lines only lose characters, so does the text of them. -/
theorem joinLines_map_sublist {f : List Char → List Char} (hf : ∀ line, (f line).Sublist line)
    (lines : List (List Char)) : (joinLines (lines.map f)).Sublist (joinLines lines) := by
  induction lines with
  | nil => exact .refl _
  | cons line lines ih =>
    cases lines with
    | nil => simpa [joinLines] using hf line
    | cons line' lines =>
      rw [joinLines, joinLines, List.map_cons, List.map_cons, List.intercalate_cons_cons,
        List.intercalate_cons_cons]
      exact ((hf line).append (.refl _)).append ih

/-- Taking out comments adds nothing to a text. -/
theorem stripComments_sublist (text : String) :
    (stripComments text).toList.Sublist text.toList := by
  have hcut := joinLines_map_sublist cutComment_sublist (splitLines text.toList)
  rw [joinLines_splitLines] at hcut
  rwa [stripComments, String.toList_ofList]

/-! ## What is left holds no comment -/

/-- What stands before the first `//` of a line is plain. -/
theorem plain_cutComment (cs : List Char) : Plain (cutComment cs) := by
  fun_induction cutComment cs with
  | case1 => exact .nil
  | case2 cs => exact .nil
  | case3 c cs hcomment ih =>
    rw [Plain, List.isChain_cons]
    refine ⟨fun c' hc' hslashes => ?_, ih⟩
    obtain ⟨rfl, rfl⟩ := hslashes
    cases cs with
    | nil => cases hc'
    | cons d cs =>
      have hd : d ≠ '/' := fun hd => hcomment cs rfl (congrArg (· :: cs) hd)
      rw [cutComment.eq_3 d cs fun _ hd' _ => hd hd'] at hc'
      exact hd (Option.some.inj hc')

/-- Plain lines stay plain when they are joined. -/
theorem plain_joinLines {lines : List (List Char)} (h : ∀ line ∈ lines, Plain line) :
    Plain (joinLines lines) := by
  induction lines with
  | nil => exact .nil
  | cons line lines ih =>
    rw [List.forall_mem_cons] at h
    cases lines with
    | nil => simpa [joinLines] using h.1
    | cons line' lines =>
      rw [joinLines, List.intercalate_cons_cons, List.append_assoc]
      exact h.1.append_cons (by decide) (ih h.2)

/-- No two slashes are left side by side. -/
theorem plain_stripComments (text : String) : Plain (stripComments text).toList := by
  rw [stripComments, String.toList_ofList]
  refine plain_joinLines fun line hline => ?_
  obtain ⟨line, -, rfl⟩ := List.mem_map.1 hline
  exact plain_cutComment line

/-- A text keeps all its characters exactly if it is plain. -/
theorem stripComments_eq_self_iff {text : String} : stripComments text = text ↔ Plain text.toList :=
  ⟨fun h => h ▸ plain_stripComments text, stripComments_of_plain⟩

/-- There are no comments left to strip. -/
theorem stripComments_stripComments (text : String) :
    stripComments (stripComments text) = stripComments text :=
  stripComments_of_plain (plain_stripComments text)

end FormScript.Text
