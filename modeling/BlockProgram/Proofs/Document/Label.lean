import BlockProgram.Document.Restore
import Mathlib.Data.List.DropRight

/-! The mark of a malformed document. A position names a line and a number of bytes on it; the mark stands on
the last of these bytes, or on the first byte of the line if there is none. -/
namespace BlockProgram

namespace Text

def encoded (s : List Char) : List UInt8 := s.flatMap String.utf8EncodeChar

def bytes (text : String) : List UInt8 := text.toUTF8.data.toList

def lineFeed : UInt8 := 10

/-- The number of lines that end before the byte `p`. -/
def lineFeeds (bytes : List UInt8) (p : Nat) : Nat := (bytes.take p).count lineFeed

/-- The number of bytes before the line of the byte `p`. -/
def lineStart (bytes : List UInt8) (p : Nat) : Nat :=
  ((bytes.take p).rdropWhile (· ≠ lineFeed)).length

def positionAt (bytes : List UInt8) (p : Nat) : Json.Position :=
  ⟨1 + lineFeeds bytes p, p - lineStart bytes p⟩

variable {c : Char} {s : List Char} {bs : List UInt8} {p q : Nat}

private theorem bytes_eq_encoded (text : String) : bytes text = encoded text.toList := by
  unfold bytes
  conv_lhs => rw [← String.ofList_toList (s := text), String.toUTF8_eq_toByteArray,
    String.toByteArray_ofList]
  simp [List.utf8Encode, encoded]

private theorem length_encoded (s : List Char) : (encoded s).length = byteSize s := by
  induction s with
  | nil => rfl
  | cons c s ih =>
    rw [encoded, List.flatMap_cons, List.length_append, String.length_utf8EncodeChar]
    exact congrArg (c.utf8Size + ·) ih

private theorem byteSize_append (s t : List Char) : byteSize (s ++ t) = byteSize s + byteSize t := by
  rw [← length_encoded, ← length_encoded, ← length_encoded, encoded, List.flatMap_append,
    List.length_append]
  rfl

private theorem lineFeed_mem_iff : lineFeed ∈ String.utf8EncodeChar c ↔ c = '\n' := by
  constructor
  · intro h
    have hvalue : c.val.toNat = 10 := by
      simp only [String.utf8EncodeChar, lineFeed] at h
      generalize c.val.toNat = n at h ⊢
      split_ifs at h <;> simp [← UInt8.toNat_inj] at h <;> omega
    exact Char.ext (UInt32.toNat_inj.mp hvalue)
  · rintro rfl
    decide

private theorem count_utf8EncodeChar :
    (String.utf8EncodeChar c).count lineFeed = if c = '\n' then 1 else 0 := by
  by_cases hc : c = '\n'
  · subst hc
    decide
  · rw [if_neg hc]
    exact List.count_eq_zero.mpr fun h => hc (lineFeed_mem_iff.mp h)

private theorem lineStart_of_lineFeeds (h : lineFeeds bs p = 0) : lineStart bs p = 0 := by
  have hnot := List.count_eq_zero.mp h
  refine List.length_eq_zero_iff.mpr (List.rdropWhile_eq_nil_iff.mpr fun b hb => ?_)
  refine decide_eq_true fun he => hnot ?_
  rwa [← he]

private theorem lineStart_le : lineStart bs p ≤ p :=
  (List.rdropWhile_prefix _ _).length_le.trans (List.length_take_le p bs)

private theorem lineFeeds_within (h : p < c.utf8Size) :
    lineFeeds (String.utf8EncodeChar c ++ bs) p = 0 := by
  have hlength := String.length_utf8EncodeChar c
  unfold lineFeeds
  rw [List.take_append_of_le_length (by omega)]
  refine List.count_eq_zero.mpr fun hmem => ?_
  obtain rfl := lineFeed_mem_iff.mp (List.mem_of_mem_take hmem)
  obtain rfl : p = 0 := Nat.lt_one_iff.mp h
  cases hmem

private theorem lineFeeds_past : lineFeeds (String.utf8EncodeChar c ++ bs) (c.utf8Size + q) =
    (if c = '\n' then 1 else 0) + lineFeeds bs q := by
  unfold lineFeeds
  rw [← String.length_utf8EncodeChar, List.take_length_add_append, List.count_append,
    count_utf8EncodeChar]

private theorem lineStart_past (h : c = '\n' ∨ lineFeeds bs q ≠ 0) :
    lineStart (String.utf8EncodeChar c ++ bs) (c.utf8Size + q) = c.utf8Size + lineStart bs q := by
  unfold lineStart List.rdropWhile
  rw [← String.length_utf8EncodeChar, List.take_length_add_append, List.reverse_append,
    List.dropWhile_append]
  split
  · rename_i hempty
    have hnone : lineFeeds bs q = 0 := by
      refine List.count_eq_zero.mpr fun hmem => ?_
      have hall := List.dropWhile_eq_nil_iff.mp (List.isEmpty_iff.mp hempty)
      simpa using hall _ (List.mem_reverse.mpr hmem)
    obtain rfl := h.resolve_right (not_not_intro hnone)
    rw [List.isEmpty_iff.mp hempty]
    rfl
  · simp

private theorem size_cases (hp : p ≤ byteSize (c :: s)) :
    p < c.utf8Size ∨ ∃ q, q ≤ byteSize s ∧ p = c.utf8Size + q := by
  have hsize : byteSize (c :: s) = c.utf8Size + byteSize s := rfl
  by_cases h : p < c.utf8Size
  · exact .inl h
  · exact .inr ⟨p - c.utf8Size, by omega, by omega⟩

private theorem rows_cons_of_ne (h : c ≠ '\n') :
    ∃ row more, rows s = row :: more ∧ rows (c :: s) = (c :: row) :: more := by
  have hne : rows s ≠ [] := by
    cases s with
    | nil => exact List.cons_ne_nil _ _
    | cons d s =>
      unfold rows
      split
      · exact List.cons_ne_nil _ _
      · split <;> exact List.cons_ne_nil _ _
  obtain ⟨row, more, hrows⟩ := List.exists_cons_of_ne_nil hne
  refine ⟨row, more, hrows, ?_⟩
  rw [rows, if_neg h, hrows]

/-- The lines that end before a byte are those before the line of that byte. -/
theorem byteSize_rows (hp : p ≤ byteSize s) :
    byteSize ((rows s).take (lineFeeds (encoded s) p)).flatten = lineStart (encoded s) p := by
  induction s generalizing p with
  | nil =>
    obtain rfl : p = 0 := Nat.le_zero.mp hp
    rfl
  | cons c s ih =>
    have hencoded : encoded (c :: s) = String.utf8EncodeChar c ++ encoded s := List.flatMap_cons
    rw [hencoded]
    rcases size_cases hp with hlt | ⟨q, hq, rfl⟩
    · have hnone : lineFeeds (String.utf8EncodeChar c ++ encoded s) p = 0 := lineFeeds_within hlt
      rw [hnone, lineStart_of_lineFeeds hnone]
      rfl
    by_cases hc : c = '\n'
    · have hrows : rows (c :: s) = [c] :: rows s := by rw [rows, if_pos hc]
      rw [lineFeeds_past, lineStart_past (.inl hc), if_pos hc, hrows, Nat.add_comm 1,
        List.take_succ_cons, List.flatten_cons, byteSize_append, ih hq]
      rfl
    · obtain ⟨row, more, hs, hcs⟩ := rows_cons_of_ne (s := s) hc
      rw [lineFeeds_past, if_neg hc, Nat.zero_add]
      rcases Nat.eq_zero_or_pos (lineFeeds (encoded s) q) with hzero | hpos
      · have hnone : lineFeeds (String.utf8EncodeChar c ++ encoded s) (c.utf8Size + q) = 0 := by
          rw [lineFeeds_past, if_neg hc, hzero]
        rw [hzero, lineStart_of_lineFeeds hnone]
        rfl
      · obtain ⟨n, hn⟩ := Nat.exists_eq_succ_of_ne_zero (Nat.ne_of_gt hpos)
        have hbefore := ih hq
        rw [hn, hs, List.take_succ_cons, List.flatten_cons] at hbefore
        rw [lineStart_past (.inr (Nat.ne_of_gt hpos)), ← hbefore, hn, hcs, List.take_succ_cons,
          List.flatten_cons]
        rfl

private theorem advance_cons {position : Json.Position} (h : p ≠ 0) :
    position.advance (c :: s) p =
      if c = '\n' then Json.Position.advance ⟨position.line + 1, 0⟩ s (p - 1)
      else if p < c.utf8Size then ⟨position.line, position.column + p⟩
      else Json.Position.advance ⟨position.line, position.column + c.utf8Size⟩ s (p - c.utf8Size) := by
  rw [Json.Position.advance]
  exact h

/-- A position is advanced by the lines that end on the way. -/
theorem advance_eq {line column : Nat} (hp : p ≤ byteSize s) :
    Json.Position.advance ⟨line, column⟩ s p = ⟨line + lineFeeds (encoded s) p,
      if lineFeeds (encoded s) p = 0 then column + p else p - lineStart (encoded s) p⟩ := by
  induction s generalizing p line column with
  | nil =>
    obtain rfl : p = 0 := Nat.le_zero.mp hp
    rfl
  | cons c s ih =>
    have hencoded : encoded (c :: s) = String.utf8EncodeChar c ++ encoded s := List.flatMap_cons
    rw [hencoded]
    by_cases hzero : p = 0
    · subst hzero
      rfl
    rw [advance_cons hzero]
    rcases size_cases hp with hlt | ⟨q, hq, rfl⟩
    -- the offset lies within the first character, which is no line feed then
    · have hc : c ≠ '\n' := by
        rintro rfl
        exact hzero (Nat.lt_one_iff.mp hlt)
      rw [if_neg hc, if_pos hlt, lineFeeds_within hlt]
      rfl
    by_cases hc : c = '\n'
    · have hfeeds : lineFeeds (String.utf8EncodeChar c ++ encoded s) (c.utf8Size + q) =
          lineFeeds (encoded s) q + 1 := by
        rw [lineFeeds_past, if_pos hc, Nat.add_comm]
      have hsize : c.utf8Size = 1 := by rw [hc]; rfl
      rw [if_pos hc, hfeeds, if_neg (Nat.succ_ne_zero _), lineStart_past (.inl hc),
        Nat.add_sub_add_left, hsize, Nat.add_sub_cancel_left, ih hq]
      refine congrArg₂ Json.Position.mk (by dsimp only; omega) ?_
      split
      · rename_i hnone
        rw [lineStart_of_lineFeeds hnone, Nat.zero_add, Nat.sub_zero]
      · rfl
    · rw [if_neg hc, if_neg (by omega), Nat.add_sub_cancel_left, ih hq, lineFeeds_past, if_neg hc,
        Nat.zero_add, Nat.add_assoc]
      split
      · rfl
      · rename_i hsome
        rw [lineStart_past (.inr hsome), Nat.add_sub_add_left]

/-- A reader is at the position after the bytes that it has read. -/
theorem position_eq (hp : p ≤ byteSize s) : Json.Position.of s p = positionAt (encoded s) p := by
  unfold Json.Position.of positionAt
  rw [advance_eq hp]
  split
  · rename_i hnone
    rw [lineStart_of_lineFeeds hnone, Nat.zero_add, Nat.sub_zero]
  · rfl

end Text

open Text

/-- A text is refused at the position after some of its bytes. -/
theorem Document.position_of_refused {source : String} {refusal : Json.Refusal}
    (h : Document.ofJson source = .error refusal) :
    ∃ p, p ≤ (bytes source).length ∧ refusal.position = positionAt (bytes source) p := by
  rw [bytes_eq_encoded, length_encoded]
  unfold Document.ofJson at h
  split at h
  · cases h
  · rename_i fault _
    cases h
    cases fault with
    | placed cause left => exact ⟨_, Nat.sub_le _ left, position_eq (Nat.sub_le _ left)⟩
    | floating cause rest => exact ⟨_, Nat.sub_le _ _, position_eq (Nat.sub_le _ _)⟩

namespace RestoreError

/-- A mark within a text of `size` bytes. It is one byte long, but at the end of the text it is empty. -/
structure Marks (label : Label) (size : Nat) : Prop where
  ordered : label.start ≤ label.stop
  within : label.stop ≤ size
  length : label.stop - label.start = if label.start = size then 0 else 1

private theorem marks_labelAt (source : List Char) (line column : Nat) :
    Marks (labelAt source line column) (byteSize source) := by
  have hle : byteOffset source line column ≤ byteSize source := Nat.min_le_right _ _
  refine ⟨Nat.le_min.mpr ⟨Nat.le_succ _, hle⟩, Nat.min_le_right _ _, ?_⟩
  by_cases hend : byteOffset source line column = byteSize source
  · rw [if_pos (show (labelAt source line column).start = _ from hend)]
    dsimp only [labelAt]
    omega
  · rw [if_neg (show ¬(labelAt source line column).start = _ from hend)]
    dsimp only [labelAt]
    omega

/-- The mark stands on the byte before the position, or at the position if that is the start of a line. -/
theorem byteOffset_positionAt {s : List Char} {p : Nat} (hsize : byteSize s < Nat.pow 2 64)
    (hp : p ≤ byteSize s) :
    byteOffset s (positionAt (encoded s) p).line (positionAt (encoded s) p).column =
      if (positionAt (encoded s) p).column = 0 then p else p - 1 := by
  have hle : lineStart (encoded s) p ≤ p := lineStart_le
  unfold byteOffset positionAt
  dsimp only
  rw [Nat.add_sub_cancel_left, byteSize_rows hp]
  split
  · rw [Nat.mod_eq_of_lt (by omega)]
    omega
  · rw [Nat.mod_eq_of_lt (by omega)]
    omega

/-- A document that is refused after `p` bytes is marked at the last of them, or at the byte `p` itself if a
line starts there. Whatever line and column are told, the mark is within the text, and only an unknown line has
none. The positions that are told are those after some bytes of the text. -/
theorem malformed_marked (source : String) (cause : Json.Cause) :
    ((bytes source).length < Nat.pow 2 64 → ∀ p, p ≤ (bytes source).length → ∃ label,
      (diagnostic (.malformed ⟨cause, positionAt (bytes source) p⟩) source).labels = [label] ∧
      label.start = (if (positionAt (bytes source) p).column = 0 then p else p - 1) ∧
      Marks label (bytes source).length) ∧
    (∀ line column, 0 < line → ∃ label,
      (diagnostic (.malformed ⟨cause, ⟨line, column⟩⟩) source).labels = [label] ∧
      Marks label (bytes source).length) ∧
    (∀ column, (diagnostic (.malformed ⟨cause, ⟨0, column⟩⟩) source).labels = []) ∧
    ∀ refusal, Document.ofJson source = .error refusal →
      ∃ p, p ≤ (bytes source).length ∧ refusal.position = positionAt (bytes source) p := by
  have hlabels (line column : Nat) (hline : 0 < line) :
      (diagnostic (.malformed ⟨cause, ⟨line, column⟩⟩) source).labels =
        [labelAt source.toList line column] :=
    if_pos hline
  refine ⟨fun hsize p hp => ?_, fun line column hline => ?_, fun column => rfl,
    fun refusal h => Document.position_of_refused h⟩
  · rw [bytes_eq_encoded, length_encoded] at hsize hp ⊢
    exact ⟨_, hlabels _ _ (Nat.le_add_right 1 _), byteOffset_positionAt hsize hp, marks_labelAt _ _ _⟩
  · rw [bytes_eq_encoded, length_encoded]
    exact ⟨_, hlabels line column hline, marks_labelAt _ _ _⟩

/-- A position at the start of a line after an empty one, beyond a character of two bytes. -/
theorem malformed_marked_of_emptyLine :
    (bytes "é\n\n[").length < Nat.pow 2 64 ∧ 4 ≤ (bytes "é\n\n[").length ∧
    positionAt (bytes "é\n\n[") 4 = ⟨3, 0⟩ ∧ ∃ label,
      (diagnostic (.malformed ⟨.endInList, ⟨3, 0⟩⟩) "é\n\n[").labels = [label] ∧
      label.start = 4 ∧ Marks label (bytes "é\n\n[").length := by
  have hsize : (bytes "é\n\n[").length = 5 := by decide +kernel
  have hposition : positionAt (bytes "é\n\n[") 4 = ⟨3, 0⟩ := by decide +kernel
  have hlt : (bytes "é\n\n[").length < Nat.pow 2 64 := by
    rw [hsize]
    decide
  have hle : 4 ≤ (bytes "é\n\n[").length := by
    rw [hsize]
    decide
  have hmarked := (malformed_marked "é\n\n[" .endInList).1 hlt 4 hle
  rw [hposition] at hmarked
  exact ⟨hlt, hle, hposition, hmarked⟩

end RestoreError

end BlockProgram
