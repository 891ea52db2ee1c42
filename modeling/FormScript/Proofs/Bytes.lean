import FormScript.Proofs.Comments
import FormScript.Proofs.Places

/-!
# Bytes, lines and columns

A place in a text is a number of bytes, and with it come a line and a column: the newlines before
the place and the bytes since the last of them (`Text.lineAt`, `Text.columnAt`). Both are read off
the bytes alone. Characters come in through `Text.encode`: no byte of a character other than the
newline is a newline, so counting in bytes and counting in characters agree
(`count_newline_encode`), and between two parts of a text the column is the number of bytes in the
last line of the first part (`columnAt_append`).
-/

namespace FormScript.Text

/-- The bytes of a text, in UTF-8. -/
def bytes (text : String) : List UInt8 :=
  text.toUTF8.data.toList

/-- The bytes of characters. -/
def encode (cs : List Char) : List UInt8 :=
  cs.flatMap String.utf8EncodeChar

/-- The line at a place of a text. -/
def lineAt (bytes : List UInt8) (place : Nat) : Nat :=
  1 + (bytes.take place).count 10

/-- The column at a place of a text, with one more byte in front of it. -/
def nextColumn (column : Nat) (byte : UInt8) : Nat :=
  if byte = 10 then 0 else column + 1

/-- The column at a place of a text: the number of bytes since the last newline before it. -/
def columnAt (bytes : List UInt8) (place : Nat) : Nat :=
  (bytes.take place).foldl nextColumn 0

/-- The bytes of a text are those of its characters. -/
theorem bytes_eq (text : String) : bytes text = encode text.toList := by
  rw [bytes, String.toUTF8_eq_toByteArray, ← String.utf8Encode_toList]
  exact congrArg Array.toList List.data_toByteArray

/-- The bytes of two parts stand one behind the other. -/
theorem encode_append (cs cs' : List Char) : encode (cs ++ cs') = encode cs ++ encode cs' :=
  List.flatMap_append

/-- The bytes of the first character come first. -/
theorem encode_cons (c : Char) (cs : List Char) :
    encode (c :: cs) = String.utf8EncodeChar c ++ encode cs :=
  rfl

/-- The scanner counts the bytes of a text right. -/
theorem length_encode (cs : List Char) : (encode cs).length = byteLength cs := by
  induction cs with
  | nil => rfl
  | cons c cs ih =>
    rw [encode_cons, List.length_append, ih, String.length_utf8EncodeChar]
    rfl

/-- The bytes of a character other than the newline are no newlines. -/
theorem ne_newline_of_mem_utf8EncodeChar {c : Char} (hc : c ≠ '\n') {b : UInt8}
    (h : b ∈ String.utf8EncodeChar c) : b ≠ 10 := by
  have hval : c.val.toNat ≠ 10 := fun heq => hc (Char.ext (UInt32.toNat_inj.1 heq))
  rintro rfl
  revert h
  fun_cases String.utf8EncodeChar c
  all_goals simp [← UInt8.toNat_inj]
  all_goals omega

/-- A newline is a single byte, and no byte of another character. -/
theorem count_newline_encode (cs : List Char) : (encode cs).count 10 = cs.count '\n' := by
  induction cs with
  | nil => rfl
  | cons c cs ih =>
    rw [encode_cons, List.count_append, ih]
    by_cases hc : c = '\n'
    · rw [hc, List.count_cons_self, Nat.add_comm]
      rfl
    · have hbytes : (String.utf8EncodeChar c).count 10 = 0 :=
        List.count_eq_zero.2 fun hmem => ne_newline_of_mem_utf8EncodeChar hc hmem rfl
      rw [hbytes, List.count_cons_of_ne hc, Nat.zero_add]

section
variable (before ahead : List Char)

/-- The bytes up to the end of a part are those of the part. -/
theorem take_encode : (encode (before ++ ahead)).take (byteLength before) = encode before := by
  rw [encode_append, ← length_encode, List.take_left]

/-- The line at the end of a part is given by the newlines in the part. -/
theorem lineAt_append :
    lineAt (encode (before ++ ahead)) (byteLength before) = 1 + before.count '\n' := by
  rw [lineAt, take_encode, count_newline_encode]

/-- The bytes behind a part are those of the rest. -/
theorem getElem?_encode_append (i : Nat) :
    (encode (before ++ ahead))[byteLength before + i]? = (encode ahead)[i]? := by
  rw [encode_append, ← length_encode, List.getElem?_append_right (Nat.le_add_right _ _),
    Nat.add_sub_cancel_left]

/-- At the place in front of a character stands its first byte. -/
theorem getElem?_encode_cons (c : Char) :
    (encode (before ++ c :: ahead))[byteLength before]? = (String.utf8EncodeChar c)[0]? := by
  have hpos : 0 < (String.utf8EncodeChar c).length :=
    String.length_utf8EncodeChar c ▸ c.utf8Size_pos
  have h := getElem?_encode_append before (c :: ahead) 0
  rw [Nat.add_zero] at h
  rw [h, encode_cons, List.getElem?_append_left hpos]

end

/-! ## Columns -/

/-- Each byte that is no newline is a column. -/
theorem foldl_nextColumn_of_ne {bs : List UInt8} (h : ∀ b ∈ bs, b ≠ 10) (column : Nat) :
    bs.foldl nextColumn column = column + bs.length := by
  induction bs generalizing column with
  | nil => rfl
  | cons b bs ih =>
    rw [List.forall_mem_cons] at h
    rw [List.foldl_cons, nextColumn, if_neg h.1, ih h.2, List.length_cons]
    omega

/-- Characters within a line move the column by their bytes. -/
theorem foldl_nextColumn_encode {cs : List Char} (h : '\n' ∉ cs) (column : Nat) :
    (encode cs).foldl nextColumn column = column + byteLength cs := by
  rw [← length_encode]
  refine foldl_nextColumn_of_ne (fun b hb => ?_) column
  obtain ⟨c, hc, hb⟩ := List.mem_flatMap.1 hb
  exact ne_newline_of_mem_utf8EncodeChar (fun heq => h (heq ▸ hc)) hb

/-- The text of lines that all end with a newline. -/
def closedLines (lines : List (List Char)) : List Char :=
  lines.flatMap (· ++ ['\n'])

/-- The first of the closed lines, with its newline, comes first. -/
theorem closedLines_cons (line : List Char) (lines : List (List Char)) :
    closedLines (line :: lines) = line ++ '\n' :: closedLines lines := by
  rw [closedLines, List.flatMap_cons, List.append_assoc]
  rfl

/-- Closed lines have a newline each. -/
theorem count_newline_closedLines {lines : List (List Char)} (h : ∀ line ∈ lines, '\n' ∉ line) :
    (closedLines lines).count '\n' = lines.length := by
  induction lines with
  | nil => rfl
  | cons line lines ih =>
    rw [List.forall_mem_cons] at h
    rw [closedLines_cons, List.count_append, List.count_cons_self, ih h.2, List.count_eq_zero.2 h.1,
      List.length_cons, Nat.zero_add]

/-- At the start of a line the column is zero. -/
theorem foldl_nextColumn_closedLines (lines : List (List Char)) :
    (encode (closedLines lines)).foldl nextColumn 0 = 0 := by
  induction lines with
  | nil => rfl
  | cons line lines ih =>
    rw [closedLines_cons, encode_append, List.foldl_append, encode_cons, List.foldl_append]
    exact ih

/-- In the last line of the first part of a text, the column is the number of bytes of that line. -/
theorem columnAt_append (lines : List (List Char)) {front : List Char} (h : '\n' ∉ front)
    (ahead : List Char) :
    columnAt (encode (closedLines lines ++ front ++ ahead))
      (byteLength (closedLines lines ++ front)) =
      byteLength front := by
  rw [columnAt, take_encode, encode_append, List.foldl_append, foldl_nextColumn_closedLines,
    foldl_nextColumn_encode h, Nat.zero_add]

/-! ## Lines around a place -/

/-- All lines in front of a line are closed. -/
theorem joinLines_append_cons (lines : List (List Char)) (line : List Char)
    (lines' : List (List Char)) :
    joinLines (lines ++ line :: lines') = closedLines lines ++
      (line ++ lines'.flatMap ('\n' :: ·)) := by
  induction lines with
  | nil =>
    rw [List.nil_append]
    change _ = line ++ _
    induction lines' generalizing line with
    | nil => simp [joinLines]
    | cons line' lines' ih =>
      rw [joinLines, List.intercalate_cons_cons, List.append_assoc, List.flatMap_cons]
      exact congrArg (line ++ '\n' :: ·) (ih line')
  | cons first lines ih =>
    obtain ⟨next, rest, heq⟩ : ∃ next rest, lines ++ line :: lines' = next :: rest := by
      cases lines with
      | nil => exact ⟨_, _, rfl⟩
      | cons next lines => exact ⟨_, _, rfl⟩
    rw [List.cons_append, joinLines, heq, List.intercalate_cons_cons, ← heq, closedLines_cons,
      List.append_assoc, List.append_assoc]
    exact congrArg (first ++ '\n' :: ·) ih

/-- The first part of a text consists of lines that are over and of the front of a line that goes on
behind it. -/
theorem exists_front (before : List Char) : ∃ lines front, before = closedLines lines ++ front ∧
    '\n' ∉ front ∧ lines.length = before.count '\n' ∧
    ∀ ahead line rest, splitLines ahead = line :: rest →
      splitLines (before ++ ahead) = lines ++ (front ++ line) :: rest := by
  suffices h : ∃ lines front, ∀ ahead line rest, splitLines ahead = line :: rest →
      splitLines (before ++ ahead) = lines ++ (front ++ line) :: rest by
    obtain ⟨lines, front, happend⟩ := h
    have hsplit : splitLines before = lines ++ [front] := by
      have := happend [] [] [] rfl
      rwa [List.append_nil, List.append_nil] at this
    have hlines := length_splitLines before
    have hjoin := joinLines_splitLines before
    rw [hsplit] at hlines hjoin
    refine ⟨lines, front, ?_, ?_, ?_, happend⟩
    · rw [← hjoin, joinLines_append_cons, List.flatMap_nil, List.append_nil]
    · exact newline_not_mem_splitLines (hsplit ▸ List.mem_append_right _ (.head _))
    · rw [List.length_append, List.length_singleton] at hlines
      omega
  induction before with
  | nil => exact ⟨[], [], fun ahead line rest h => h⟩
  | cons c before ih =>
    obtain ⟨lines, front, happend⟩ := ih
    by_cases hc : c = '\n'
    · refine ⟨[] :: lines, front, fun ahead line rest h => ?_⟩
      rw [List.cons_append, splitLines_cons, happend ahead line rest h, hc]
      cases lines <;> rfl
    · cases lines with
      | nil =>
        refine ⟨[], c :: front, fun ahead line rest h => ?_⟩
        rw [List.cons_append, splitLines_cons, happend ahead line rest h, List.nil_append,
          splitLines.step, if_neg hc]
        rfl
      | cons first lines =>
        refine ⟨(c :: first) :: lines, front, fun ahead line rest h => ?_⟩
        rw [List.cons_append, splitLines_cons, happend ahead line rest h, List.cons_append,
          splitLines.step, if_neg hc]
        rfl

/-- A place in a line of a text, behind the front of the line. -/
theorem place_of_splitLines {text : List Char} {lines rest : List (List Char)}
    {line front ahead : List Char} (h : splitLines text = lines ++ line :: rest)
    (heq : line ++ rest.flatMap ('\n' :: ·) = front ++ ahead) (hfront : '\n' ∉ front) :
    text = closedLines lines ++ front ++ ahead ∧
    (closedLines lines ++ front).count '\n' = lines.length ∧
      columnAt (encode text) (byteLength (closedLines lines ++ front)) = byteLength front := by
  have hnewline : ∀ l ∈ lines, '\n' ∉ l := fun l hl =>
    newline_not_mem_splitLines (h ▸ List.mem_append_left _ hl)
  have htext : text = closedLines lines ++ front ++ ahead := by
    rw [← joinLines_splitLines text, h, joinLines_append_cons, heq, List.append_assoc]
  refine ⟨htext, ?_, by rw [htext, columnAt_append lines hfront]⟩
  rw [List.count_append, count_newline_closedLines hnewline,
    List.count_eq_zero.2 hfront, Nat.add_zero]

end FormScript.Text
