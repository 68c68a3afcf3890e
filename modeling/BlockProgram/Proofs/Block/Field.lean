import BlockProgram.Block.Field
import Mathlib.Data.List.Induction
import Mathlib.Data.List.Nodup

/-! Fields as a finite map: a field has the value that it was given last, and fields that have the same
values are the same. -/
namespace BlockProgram.Fields

variable {fields fields' : Fields} {name x : String} {value : FieldValue}

private theorem find?_insertEntry {l : List (String × FieldValue)} :
    ((insertEntry name value l).find? fun e => e.1 = x).map (·.2) =
      if x = name then some value else (l.find? fun e => e.1 = x).map (·.2) := by
  induction l with
  | nil =>
    by_cases hx : x = name
    · simp [insertEntry, hx]
    · simp [insertEntry, hx, Ne.symm hx]
  | cons entry rest ih =>
    unfold insertEntry
    by_cases hx : x = name
    · subst hx
      split
      · simp
      · rename_i hlt
        split
        · simp
        · rename_i hne
          rw [if_pos rfl] at ih ⊢
          rw [List.find?_cons_of_neg (by simpa using Ne.symm hne), ih]
    · rw [if_neg hx] at ih ⊢
      split
      · rw [List.find?_cons_of_neg (by simpa using Ne.symm hx)]
      · split
        · rename_i heq
          subst heq
          rw [List.find?_cons_of_neg (by simpa using Ne.symm hx),
            List.find?_cons_of_neg (by simpa using Ne.symm hx)]
        · by_cases he : entry.1 = x
          · simp [he]
          · rw [List.find?_cons_of_neg (by simpa using he),
              List.find?_cons_of_neg (by simpa using he), ih]

theorem get?_insert : (fields.insert name value).get? x =
    if x = name then some value else fields.get? x := find?_insertEntry

theorem get?_empty : empty.get? x = none := rfl

theorem mem_entries : (name, value) ∈ fields.entries ↔ fields.get? name = some value := by
  unfold get?
  constructor
  · intro h
    have hfirst : (fields.entries.find? fun e => e.1 = name) = some (name, value) := by
      refine List.find?_eq_some_iff_append.mpr ⟨by simp, ?_⟩
      obtain ⟨before, after, he⟩ := List.append_of_mem h
      refine ⟨before, after, he, fun e hm => ?_⟩
      have hlt := (List.pairwise_append.mp (he ▸ fields.ordered)).2.2 e hm (name, value) (by simp)
      simpa using fun heq : e.1 = name => String.lt_irrefl name (heq ▸ hlt)
    rw [hfirst]
    rfl
  · intro h
    obtain ⟨e, he, rfl⟩ := Option.map_eq_some_iff.mp h
    have hname : e.1 = name := by simpa using List.find?_some he
    exact hname ▸ List.mem_of_find?_eq_some he

/-- Fields are known by their values. -/
theorem ext_get? (h : ∀ x, fields.get? x = fields'.get? x) : fields = fields' := by
  have hnodup (fields : Fields) : fields.entries.Nodup := by
    refine fields.ordered.imp fun {a b} hlt => ?_
    rintro rfl
    exact String.lt_irrefl _ hlt
  have hperm : fields.entries.Perm fields'.entries :=
    (List.perm_ext_iff_of_nodup (hnodup _) (hnodup _)).mpr fun e => by
      rw [mem_entries, mem_entries, h]
  have hentries : fields.entries = fields'.entries :=
    hperm.eq_of_pairwise (fun a b _ _ hab hba => absurd hba (String.lt_asymm hab)) fields.ordered
      fields'.ordered
  obtain ⟨entries, ordered⟩ := fields
  obtain ⟨entries', ordered'⟩ := fields'
  obtain rfl : entries = entries' := hentries
  rfl

theorem insert_eq_self : fields.insert name value = fields ↔ fields.get? name = some value := by
  refine ⟨fun h => ?_, fun h => ext_get? fun x => ?_⟩
  · rw [← h, get?_insert, if_pos rfl]
  · rw [get?_insert]
    split
    · rename_i hx
      rw [hx, h]
    · rfl

private theorem get?_foldl_insert (entries : List (String × FieldValue)) :
    (entries.foldl (fun fields entry => fields.insert entry.1 entry.2) fields).get? x =
      ((entries.reverse.find? fun e => e.1 = x).map (·.2)).or (fields.get? x) := by
  induction entries using List.reverseRecOn with
  | nil => rfl
  | append_singleton entries entry ih =>
    rw [List.foldl_append, List.foldl_cons, List.foldl_nil, get?_insert, ih, List.reverse_append,
      List.reverse_singleton, List.singleton_append]
    by_cases hx : x = entry.1
    · simp [hx]
    · rw [if_neg hx, List.find?_cons_of_neg (by simpa using Ne.symm hx)]

/-- Fields that are given all the values of other fields have those, and their own besides. -/
theorem get?_foldl_entries :
    (fields'.entries.foldl (fun fields entry => fields.insert entry.1 entry.2) fields).get? x =
      (fields'.get? x).or (fields.get? x) := by
  rw [get?_foldl_insert]
  congr 1
  refine Option.ext fun value => ?_
  rw [Option.map_eq_some_iff]
  constructor
  · rintro ⟨e, he, rfl⟩
    have hname : e.1 = x := by simpa using List.find?_some he
    exact mem_entries.mp (hname ▸ List.mem_reverse.mp (List.mem_of_find?_eq_some he))
  · intro h
    have hmem := List.mem_reverse.mpr (mem_entries.mpr h)
    obtain ⟨e, he⟩ : ∃ e, (fields'.entries.reverse.find? fun e => e.1 = x) = some e :=
      Option.isSome_iff_exists.mp (List.find?_isSome.mpr ⟨_, hmem, by simp⟩)
    refine ⟨e, he, ?_⟩
    have hname : e.1 = x := by simpa using List.find?_some he
    have hvalue : fields'.get? x = some e.2 :=
      mem_entries.mp (hname ▸ List.mem_reverse.mp (List.mem_of_find?_eq_some he))
    exact Option.some.inj (hvalue.symm.trans h)

/-- The fields of a list in which no name is repeated. -/
theorem get?_ofList {entries : List (String × FieldValue)} (h : (entries.map (·.1)).Nodup) :
    (ofList entries).get? x = (entries.find? fun e => e.1 = x).map (·.2) := by
  unfold ofList
  rw [get?_foldl_insert, get?_empty, Option.or_none]
  congr 1
  refine Option.ext fun e => ?_
  have hone {l : List (String × FieldValue)} (hl : (l.map (·.1)).Nodup) :
      (l.find? fun e => e.1 = x) = some e ↔ e ∈ l ∧ e.1 = x := by
    refine ⟨fun he => ⟨List.mem_of_find?_eq_some he, by simpa using List.find?_some he⟩, ?_⟩
    rintro ⟨hm, rfl⟩
    obtain ⟨e', he'⟩ : ∃ e', (l.find? fun e' => e'.1 = e.1) = some e' :=
      Option.isSome_iff_exists.mp (List.find?_isSome.mpr ⟨e, hm, by simp⟩)
    rw [he', List.inj_on_of_nodup_map hl (List.mem_of_find?_eq_some he') hm
      (by simpa using List.find?_some he')]
  rw [hone h, hone (by rw [List.map_reverse]; exact List.nodup_reverse.mpr h), List.mem_reverse]

end BlockProgram.Fields
