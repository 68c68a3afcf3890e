import BlockProgram.Proofs.Text.Mark
import BlockProgram.TestFile.Basic

/-! Test files are taken apart as they are put together: between the marks are the expectations, and all that
follows the line of the second mark is the document, whatever stands in it. -/
namespace BlockProgram

/-- The ways to end a line. -/
inductive LineEnd where
  | feed
  | returnFeed
  deriving DecidableEq, Repr

def LineEnd.chars : LineEnd → List Char
  | .feed => ['\n']
  | .returnFeed => ['\r', '\n']

namespace TestFile

def marked (marks : Nat) (s : List Char) : List Char := List.replicate marks '\uFEFF' ++ s

/-- The lines of expectations between two marks, and then a document. -/
def framed (e : LineEnd) (header document : List Char) : List Char :=
  mark ++ e.chars ++ header ++ e.chars ++ mark ++ e.chars ++ document

/-- Two marks without a line between them, and then a document. -/
def unframed (e : LineEnd) (document : List Char) : List Char :=
  mark ++ e.chars ++ mark ++ e.chars ++ document

/-- A test file with a document, whose expectations are read from a header. -/
def ofHeader (header document : List Char) : Except TestFileError TestFile :=
  match readExpectations (String.ofList header) with
  | none => .error .badExpectations
  | some expected => .ok ⟨expected, String.ofList document⟩

variable {marks : Nat} {e : LineEnd} {header document text : List Char}

theorem read_eq (text : List Char) : read (String.ofList text) =
    (split text).bind fun parts => ofHeader parts.1 parts.2 := by
  unfold read
  rw [String.toList_ofList]
  rfl

private theorem exists_chars (e : LineEnd) : ∃ c more, e.chars = c :: more ∧ c ∉ mark := by
  cases e with
  | feed => exact ⟨'\n', [], rfl, by decide⟩
  | returnFeed => exact ⟨'\r', ['\n'], rfl, by decide⟩

private theorem dropLineEnd_chars (e : LineEnd) (s : List Char) : dropLineEnd (e.chars ++ s) = s := by
  cases e <;> rfl

private theorem dropWhile_marked (marks : Nat) (s : List Char) :
    (marked marks (mark ++ s)).dropWhile (· = '\uFEFF') = mark ++ s := by
  induction marks with
  | zero => rfl
  | succ marks ih => exact ih

/-- A carriage return before the last line feed is no part of the header. -/
theorem trimEndWhere_append_return (header : List Char) :
    Text.trimEndWhere (· = '\r') (header ++ ['\r']) = Text.trimEndWhere (· = '\r') header := by
  unfold Text.trimEndWhere
  rw [List.reverse_append]
  rfl

/-- What stands between the first mark and the second one's line. -/
theorem splitAtFirst?_header (h : ¬('\n' :: mark) <:+: header) (e : LineEnd) (s : List Char) :
    ∃ body, Text.splitAtFirst? ('\n' :: mark) (header ++ e.chars ++ mark ++ s) = some (body, s) ∧
      Text.trimEndWhere (· = '\r') body = Text.trimEndWhere (· = '\r') header := by
  have hmark : '\n' ∉ mark := by decide
  cases e with
  | feed =>
    refine ⟨header, ?_, rfl⟩
    rw [← Text.splitAtFirst?_mark hmark h]
    simp [LineEnd.chars]
  | returnFeed =>
    refine ⟨header ++ ['\r'], ?_, trimEndWhere_append_return header⟩
    have hbody : ¬('\n' :: mark) <:+: header ++ ['\r'] :=
      mt (Text.infix_of_append_singleton (by decide) (by decide)) h
    rw [← Text.splitAtFirst?_mark hmark hbody]
    simp [LineEnd.chars]

/-- A text in two marks on lines of their own falls into what is between them and what is behind. -/
theorem split_framed (h : ∀ line ∈ Text.lines header, ¬mark <+: line) :
    split (marked marks (framed e header document)) =
      .ok (Text.trimEndWhere (· = '\r') header, document) := by
  obtain ⟨hstart, hinner⟩ := Text.mark_of_lines (by decide) (by decide) (by decide) h
  have hframed : framed e header document =
      mark ++ (e.chars ++ (header ++ e.chars ++ mark ++ (e.chars ++ document))) := by
    simp [framed]
  have hopen : ¬mark <+: header ++ e.chars ++ mark ++ (e.chars ++ document) := by
    obtain ⟨c, more, he, hc⟩ := exists_chars e
    rw [List.append_assoc, List.append_assoc, he]
    exact mt (Text.prefix_of_append_cons hc) hstart
  obtain ⟨body, hsplit, hbody⟩ := splitAtFirst?_header hinner e (e.chars ++ document)
  unfold split
  rw [hframed, dropWhile_marked, Text.dropHead?_append]
  dsimp only
  rw [dropLineEnd_chars, Text.dropHead?_eq_none hopen, hsplit]
  dsimp only
  rw [hbody, dropLineEnd_chars]

/-- Without a line between the marks nothing is expected, and the document follows. -/
theorem split_unframed : split (marked marks (unframed e document)) = .ok ([], document) := by
  have hunframed : unframed e document = mark ++ (e.chars ++ (mark ++ (e.chars ++ document))) := by
    simp [unframed]
  unfold split
  rw [hunframed, dropWhile_marked, Text.dropHead?_append]
  dsimp only
  rw [dropLineEnd_chars, Text.dropHead?_append]
  dsimp only
  rw [dropLineEnd_chars]

/-- Without a mark behind the byte order marks a text is refused, and no other text is refused for it. -/
theorem split_eq_unopened_iff :
    split text = .error .unopened ↔ ¬mark <+: text.dropWhile (· = '\uFEFF') := by
  unfold split
  constructor
  · rintro h ⟨rest, hrest⟩
    rw [← hrest, Text.dropHead?_append] at h
    dsimp only at h
    split at h
    · cases h
    · split at h <;> cases h
  · intro h
    rw [Text.dropHead?_eq_none h]

/-- A test file is taken apart as it is put together. A header none of whose lines starts with the mark is read
up to the carriage returns at its end, and if it gives expectations, the document is handed on exactly as it
stands behind the second mark. Only a text without the first mark is refused for the lack of it. -/
theorem read_marked (marks : Nat) (e : LineEnd) (document : List Char) :
    (∀ header, (∀ line ∈ Text.lines header, ¬mark <+: line) →
      read (String.ofList (marked marks (framed e header document))) =
        ofHeader (Text.trimEndWhere (· = '\r') header) document) ∧
    read (String.ofList (marked marks (unframed e document))) = ofHeader [] document ∧
    ∀ text, read (String.ofList text) = .error .unopened ↔
      ¬mark <+: text.dropWhile (· = '\uFEFF') := by
  refine ⟨fun header h => ?_, ?_, fun text => ?_⟩
  · rw [read_eq, split_framed h]
    rfl
  · rw [read_eq, split_unframed]
    rfl
  · rw [read_eq, ← split_eq_unopened_iff]
    cases split text with
    | error fault => simp [Except.bind]
    | ok parts =>
      unfold Except.bind ofHeader
      dsimp only
      split <;> simp

/-- A document that has a line with the mark of its own and no line feed at its end. -/
theorem read_marked_of_markedDocument :
    (∀ line ∈ Text.lines "description = \"d\"".toList, ¬mark <+: line) ∧
    read (String.ofList (marked 2 (framed .returnFeed "description = \"d\"".toList
      "\n---\n\x7b\x7d".toList))) = .ok ⟨{ description := some "d" }, "\n---\n\x7b\x7d"⟩ := by
  have hlines : ∀ line ∈ Text.lines "description = \"d\"".toList, ¬mark <+: line := by
    decide +kernel
  have hread := (read_marked 2 .returnFeed "\n---\n\x7b\x7d".toList).1 _ hlines
  have hheader : readExpectations (String.ofList
      (Text.trimEndWhere (· = '\r') "description = \"d\"".toList)) =
        some { description := some "d" } := by
    decide +kernel
  refine ⟨hlines, hread.trans ?_⟩
  unfold ofHeader
  rw [hheader, String.ofList_toList]

end TestFile

end BlockProgram
