import BlockProgram.Number.Decimal

/-! The values held by the fields of a block, and the fields themselves: a finite map ordered by
field name. -/
namespace BlockProgram

/-- The value of a block field: a text (or variable name), a number, or the choice of a dropdown. -/
inductive FieldValue where
  | text (s : String)
  | number (n : Binary64)
  | choice (s : String)
  deriving DecidableEq, Repr

namespace FieldValue

def string? : FieldValue → Option String
  | .text s => some s
  | .choice s => some s
  | .number _ => none

def number? : FieldValue → Option Binary64
  | .number n => some n
  | _ => none

def sameKind : FieldValue → FieldValue → Bool
  | .text _, .text _ => true
  | .number _, .number _ => true
  | .choice _, .choice _ => true
  | _, _ => false

def shown : FieldValue → String
  | .text s => s
  | .choice s => s
  | .number n => n.plain

end FieldValue

/-- Field values by name, in the order of the names. -/
structure Fields where
  entries : List (String × FieldValue)
  ordered : entries.Pairwise fun a b => a.1 < b.1
  deriving DecidableEq, Repr

namespace Fields

def empty : Fields := ⟨[], .nil⟩

/-- Put a value at its place in an ordered list, over the value that has the name already. -/
def insertEntry (name : String) (value : FieldValue) :
    List (String × FieldValue) → List (String × FieldValue)
  | [] => [(name, value)]
  | entry :: rest =>
    if name < entry.1 then (name, value) :: entry :: rest
    else if name = entry.1 then (name, value) :: rest
    else entry :: insertEntry name value rest

private theorem mem_insertEntry {name : String} {value : FieldValue}
    {l : List (String × FieldValue)} {e : String × FieldValue}
    (h : e ∈ insertEntry name value l) : e = (name, value) ∨ e ∈ l := by
  induction l with
  | nil => simp_all [insertEntry]
  | cons entry rest ih =>
    simp only [insertEntry] at h
    split at h
    · simpa using h
    · split at h
      · simp only [List.mem_cons] at h ⊢
        exact h.imp_right .inr
      · simp only [List.mem_cons] at h ⊢
        rcases h with h | h
        · exact .inr (.inl h)
        · exact (ih h).imp_right .inr

private theorem ordered_insertEntry (name : String) (value : FieldValue)
    {l : List (String × FieldValue)} (h : l.Pairwise fun a b => a.1 < b.1) :
    (insertEntry name value l).Pairwise fun a b => a.1 < b.1 := by
  induction l with
  | nil => simp [insertEntry]
  | cons entry rest ih =>
    obtain ⟨hfirst, hrest⟩ := List.pairwise_cons.1 h
    simp only [insertEntry]
    split
    · rename_i hlt
      refine List.pairwise_cons.2 ⟨fun e he => ?_, h⟩
      rcases List.mem_cons.1 he with rfl | he
      · exact hlt
      · exact String.lt_trans hlt (hfirst e he)
    · split
      · rename_i heq
        exact List.pairwise_cons.2 ⟨fun e he => by simpa [heq] using hfirst e he, hrest⟩
      · rename_i hlt heq
        refine List.pairwise_cons.2 ⟨fun e he => ?_, ih hrest⟩
        rcases mem_insertEntry he with rfl | he
        · refine Decidable.byContradiction fun hge => heq ?_
          exact String.le_antisymm (String.not_lt.1 hge) (String.not_lt.1 hlt)
        · exact hfirst e he

/-- Give a field a value; the last value given to a name is the one it has. -/
def insert (fields : Fields) (name : String) (value : FieldValue) : Fields :=
  ⟨insertEntry name value fields.entries, ordered_insertEntry name value fields.ordered⟩

def ofList (entries : List (String × FieldValue)) : Fields :=
  entries.foldl (fun fields entry => fields.insert entry.1 entry.2) empty

def get? (fields : Fields) (name : String) : Option FieldValue :=
  (fields.entries.find? fun entry => entry.1 = name).map (·.2)

end Fields

end BlockProgram
