import BlockProgram.Text.Blank

/-! Marks in texts: what follows one at the start, where one stands for the first time, and the lines that
start with one. -/
namespace BlockProgram.Text

variable {c : Char} {mark head u v s before rest : List Char}

theorem dropHead?_append (head rest : List Char) : dropHead? head (head ++ rest) = some rest := by
  induction head with
  | nil => exact dropHead?.eq_1 rest
  | cons c head ih => rw [List.cons_append, dropHead?, if_pos rfl, ih]

theorem dropHead?_eq_none (h : ¬head <+: s) : dropHead? head s = none := by
  induction head generalizing s with
  | nil => exact absurd List.nil_prefix h
  | cons c head ih =>
    cases s with
    | nil => rfl
    | cons d s =>
      rw [dropHead?]
      split
      · rename_i hcd
        exact ih fun hs => h (List.cons_prefix_cons.mpr ⟨hcd, hs⟩)
      · rfl

/-- What stands at the start of a text ends before a character that is not in it. -/
theorem prefix_of_append_cons (hc : c ∉ head) (h : head <+: u ++ c :: v) : head <+: u := by
  induction u generalizing head with
  | nil =>
    cases head with
    | nil => exact List.nil_prefix
    | cons d head =>
      obtain ⟨rfl, -⟩ := List.cons_prefix_cons.mp h
      exact absurd List.mem_cons_self hc
  | cons d u ih =>
    cases head with
    | nil => exact List.nil_prefix
    | cons e head =>
      obtain ⟨rfl, htail⟩ := List.cons_prefix_cons.mp h
      exact List.cons_prefix_cons.mpr ⟨rfl, ih (mt (List.mem_cons_of_mem _) hc) htail⟩

/-- What stands in a text does not reach to a last character that is not in it. -/
theorem infix_of_append_singleton (hne : mark ≠ []) (hc : c ∉ mark) (h : mark <:+: s ++ [c]) :
    mark <:+: s := by
  rcases List.infix_concat_iff.mp h with h | h
  · rcases List.suffix_concat_iff.mp h with rfl | ⟨t, rfl, -⟩
    · exact absurd rfl hne
    · exact absurd (List.mem_append_right t (List.mem_singleton_self c)) hc
  · exact h

/-- A mark that starts with a character of its own stands for the first time behind a text in which it does
not occur. -/
theorem splitAtFirst?_mark (hc : c ∉ mark) (h : ¬(c :: mark) <:+: before) :
    splitAtFirst? (c :: mark) (before ++ (c :: mark ++ rest)) = some (before, rest) := by
  induction before with
  | nil => rw [List.nil_append, List.cons_append, splitAtFirst?, ← List.cons_append, dropHead?_append]
  | cons d before ih =>
    have hhead : ¬(c :: mark) <+: d :: (before ++ (c :: mark ++ rest)) := by
      intro hp
      obtain ⟨rfl, htail⟩ := List.cons_prefix_cons.mp hp
      have hmark : mark <+: before := prefix_of_append_cons hc htail
      exact h (List.IsPrefix.isInfix (List.cons_prefix_cons.mpr ⟨rfl, hmark⟩))
    rw [List.cons_append, splitAtFirst?, dropHead?_eq_none hhead,
      ih fun hi => h (hi.trans (List.suffix_cons d before).isInfix)]
    rfl

/-- The first line starts with every mark that the text starts with. -/
theorem lines_append_mark (hne : mark ≠ []) (hfeed : '\n' ∉ mark) (hreturn : '\r' ∉ mark)
    (s : List Char) : ∃ line more, lines (mark ++ s) = (mark ++ line) :: more := by
  induction mark with
  | nil => exact absurd rfl hne
  | cons c mark ih =>
    obtain ⟨hc, hfeed⟩ := not_or.mp (mt List.mem_cons.mpr hfeed)
    obtain ⟨hc', hreturn⟩ := not_or.mp (mt List.mem_cons.mpr hreturn)
    rw [List.cons_append, lines.eq_4 c _ (Ne.symm hc) fun _ h => absurd h.symm hc']
    cases mark with
    | nil =>
      cases hs : lines ([] ++ s) with
      | nil => exact ⟨[], [], rfl⟩
      | cons line more => exact ⟨line, more, rfl⟩
    | cons d mark =>
      obtain ⟨line, more, hs⟩ := ih (List.cons_ne_nil _ _) hfeed hreturn
      rw [hs]
      exact ⟨line, more, rfl⟩

/-- The lines after a line feed are lines of the text. -/
theorem exists_lines_append (u v : List Char) :
    ∃ line more, lines (u ++ '\n' :: v) = line :: more ++ lines v := by
  induction u with
  | nil => exact ⟨[], [], lines.eq_2 v⟩
  | cons c u ih =>
    obtain ⟨line, more, hlines⟩ := ih
    rw [List.cons_append]
    by_cases hfeed : c = '\n'
    · exact ⟨[], line :: more, by rw [hfeed, lines.eq_2, hlines]; rfl⟩
    by_cases hreturn : c = '\r' ∧ ∃ w, u ++ '\n' :: v = '\n' :: w
    · obtain ⟨rfl, w, hw⟩ := hreturn
      rw [hw, lines.eq_3, ← lines.eq_2, ← hw]
      exact ⟨line, more, hlines⟩
    · rw [lines.eq_4 c _ hfeed fun w hc hw => hreturn ⟨hc, w, hw⟩, hlines]
      exact ⟨c :: line, more, rfl⟩

/-- A mark that starts no line stands neither at the start of the text nor behind a line feed. -/
theorem mark_of_lines (hne : mark ≠ []) (hfeed : '\n' ∉ mark) (hreturn : '\r' ∉ mark)
    (h : ∀ line ∈ lines s, ¬mark <+: line) : ¬mark <+: s ∧ ¬('\n' :: mark) <:+: s := by
  constructor
  · rintro ⟨t, rfl⟩
    obtain ⟨line, more, hlines⟩ := lines_append_mark hne hfeed hreturn t
    exact h _ (by rw [hlines]; exact List.mem_cons_self) (List.prefix_append _ _)
  · rintro ⟨u, t, rfl⟩
    obtain ⟨first, earlier, hlines⟩ := exists_lines_append u (mark ++ t)
    obtain ⟨line, more, hmark⟩ := lines_append_mark hne hfeed hreturn t
    rw [List.append_assoc, List.cons_append, hlines, hmark] at h
    exact h _ (List.mem_append_right _ List.mem_cons_self) (List.prefix_append _ _)

end BlockProgram.Text
