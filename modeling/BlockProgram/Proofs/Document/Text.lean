import BlockProgram.Document.Json
import BlockProgram.Proofs.Block.Field
import BlockProgram.Proofs.Json.Bracketed
import BlockProgram.Proofs.Json.Numeral

/-! Documents and their texts. The text of a document is read back as the document with each number read
from its own text, and not at all if some number cannot be read. -/
namespace BlockProgram

open Json Json.Value Json.Reader

variable {α σ : Type} {level : Nat} {gap rest : List Char}

def FieldValue.reread? : FieldValue → Option FieldValue
  | .text s => some (.text s)
  | .number x => (Json.reread? x).map .number
  | .choice s => some (.choice s)

def Fields.reread? (fields : Fields) : Option Fields :=
  fields.entries.foldlM (fun acc entry => entry.2.reread?.map (acc.insert entry.1)) .empty

def BlockRecord.reread? (r : BlockRecord) : Option BlockRecord :=
  r.fields.reread?.map fun fields => { r with fields }

def Document.reread? (d : Document) : Option Document :=
  (d.blocks.mapM BlockRecord.reread?).map fun blocks => { d with blocks }

private theorem render_object (level : Nat) (ms : List (String × Value)) :
    (Value.object ms).render level = bracketed level '\x7b' '\x7d'
      (ms.map fun m => memberText m.1 (m.2.render (level + 1))) := by
  rw [render, renderMembers_eq]

/-- A member that has to be there. -/
theorem outcome_wanted (name : String) (a? : Option α) (s : List Char) :
    outcome (wanted name a?) s = a?.map (·, s) := by
  cases a? <;> rfl

private theorem outcome_openKind (name : String) (s : List Char) :
    outcome openKind (lineBreak level ++ (stringText name ++ s)) = some ((), stringText name ++ s) := by
  have hquote (s : List Char) :=
    outcome_peek (s := s) (gap_lineBreak level) (c := '"') (by decide)
  simp [openKind, stringText, hquote]

/-- An object with one member, which is named by the kind of the value. -/
theorem meets_tagged {kind : FieldKind} {name : String} {text : List Char}
    {v? : Option FieldValue} (hname : FieldKind.named.find? (fun k => k.1 = name) = some (name, kind))
    (hread : Meets kind.reader text v?) :
    Meets FieldValue.reader (bracketed level '\x7b' '\x7d' [memberText name text]) v? := by
  intro gap rest hg hr
  have hopen (s : List Char) := outcome_peek (s := s) hg (c := '\x7b') (by decide)
  have hkind (s : List Char) : outcome (Reader.choice FieldKind.named) (stringText name ++ s) =
      some (kind, s) := by
    rw [← List.nil_append (stringText name ++ s), outcome_choice _ _ gap_nil, hname, Option.map_some]
  have hvalue := hread [' '] (more (level + 1) level '\x7d' [] rest) gap_blank ended_more
  rw [List.singleton_append] at hvalue
  have hclose := outcome_peek (s := rest) (gap_lineBreak level) (c := '\x7d') (by decide)
  rw [bracketed_cons, memberText, List.append_assoc, List.cons_append, List.cons_append]
  simp only [FieldValue.reader, outcome_bind, hopen, Option.bind_some, outcome_skip, outcome_openKind,
    hkind, outcome_colon, hvalue]
  cases v? with
  | none => rfl
  | some v => simp [more_nil, hclose]

private theorem meets_fieldValue (level : Nat) (v : FieldValue) :
    Meets FieldValue.reader (v.json.render level) v.reread? := by
  have hkind {f : String → FieldValue} {kind : FieldKind}
      (hreader : kind.reader = (do return f (← Reader.string "a string"))) (s : String) :
      Meets kind.reader (stringText s) (some (f s)) := by
    intro gap rest hg _
    simp [hreader, outcome_string _ s hg]
  cases v with
  | text s =>
    rw [FieldValue.json, render_object]
    exact meets_tagged rfl (hkind rfl s)
  | number x =>
    rw [FieldValue.json, render_object]
    refine meets_tagged (show FieldKind.named.find? _ = some ("number", .number) from rfl)
      fun gap rest hg hr => ?_
    have hread := meets_float x gap rest hg hr
    simp only [FieldKind.reader, FieldValue.reread?, render, outcome_bind, hread]
    cases Json.reread? x <;> rfl
  | choice s =>
    rw [FieldValue.json, render_object]
    exact meets_tagged rfl (hkind rfl s)

theorem Json.Meets.map {f : α → σ} {read : Reader α} {text : List Char} {a? : Option α}
    (h : Meets read text a?) : Meets (do return f (← read)) text (a?.map f) := by
  intro gap rest hg hr
  simp only [outcome_bind, h gap rest hg hr]
  cases a? <;> rfl

/-- Records are read from objects, which start behind any blanks. -/
theorem meets_fields (level : Nat) (fields : Fields) :
    Meets Fields.reader (fields.json.render level) fields.reread? := by
  intro gap rest hg _
  let member (acc : Fields) (name : String) : Reader Fields := do
    colon
    return Fields.insert acc name (← FieldValue.reader)
  let step (acc : Fields) (entry : String × FieldValue) := entry.2.reread?.map (acc.insert entry.1)
  have hmember : ∀ entry ∈ fields.entries, ∀ acc,
      Follows (member acc entry.1) (entry.2.json.render (level + 1)) (step acc entry) :=
    fun entry _ acc => (meets_fieldValue (level + 1) entry.2).map.follows
  obtain ⟨s, hs, hread⟩ := outcome_allMembers hmember Fields.empty level rest
  have hopen := outcome_peek (s := s) hg (c := '\x7b') (by decide)
  rw [Fields.json, render_object, List.map_map]
  change outcome Fields.reader (gap ++ (bracketed level '\x7b' '\x7d'
    (fields.entries.map fun entry => memberText entry.1 (entry.2.json.render (level + 1))) ++ rest)) = _
  rw [hs]
  simp only [Fields.reader, outcome_bind, hopen, Option.bind_some]
  exact outcome_inObject hread

namespace BlockRecord

/-- A member of a record that is written. -/
inductive Member where
  | id (text : String)
  | type (name : String)
  | fields (values : Fields)
  | mutation (token : String)
  | shadow (flag : Bool)

def Member.name : Member → String
  | .id _ => "id"
  | .type _ => "type"
  | .fields _ => "fields"
  | .mutation _ => "mutation"
  | .shadow _ => "shadow"

def Member.json : Member → Value
  | .id text => .string text
  | .type name => .string name
  | .fields values => values.json
  | .mutation token => .string token
  | .shadow flag => .bool flag

def members (r : BlockRecord) : List Member :=
  [.id r.id.text, .type r.type] ++ (if r.fields.entries.isEmpty then [] else [.fields r.fields]) ++
    (if r.mutation = "" then [] else [.mutation r.mutation]) ++ (if r.shadow then [.shadow true] else [])

private theorem json_eq (r : BlockRecord) : r.json = .object (r.members.map fun m => (m.name, m.json)) := by
  unfold json members
  split <;> split <;> split <;> rfl

/-- What a record has become when a member more has been read. -/
def Partial.take? (acc : Partial) : Member → Option Partial
  | .id text => if acc.id.isSome then none else some { acc with id := some text }
  | .type name => if acc.type.isSome then none else some { acc with type := some name }
  | .fields values =>
    if acc.fields.isSome then none else values.reread?.map fun v => { acc with fields := some v }
  | .mutation token => if acc.mutation.isSome then none else some { acc with mutation := some token }
  | .shadow flag => if acc.shadow.isSome then none else some { acc with shadow := some flag }

end BlockRecord

/-- A member is taken once. -/
theorem follows_fill {name : String} {old : Option α} {read : Reader α} {put : α → σ} {text : List Char}
    {a? : Option α} (h : Meets read text a?) :
    Follows (fill name old read put) text (if old.isSome then none else a?.map put) := by
  unfold fill
  split
  · intro rest _
    rfl
  · exact h.map.follows

private theorem BlockRecord.follows_member (level : Nat) (acc : Partial) (m : Member) :
    Follows (member acc m.name) (m.json.render level) (acc.take? m) := by
  cases m with
  | id text => exact follows_fill (meets_string _ text)
  | type name => exact follows_fill (meets_string _ name)
  | fields values => exact follows_fill (meets_fields level values)
  | mutation token => exact follows_fill (meets_string _ token)
  | shadow flag => exact follows_fill (meets_bool flag)

namespace BlockRecord

def Partial.whole? (acc : Partial) : Option BlockRecord := do
  let id ← acc.id
  let type ← acc.type
  return {
    id := ⟨id⟩, type
    fields := acc.fields.getD .empty
    mutation := acc.mutation.getD ""
    shadow := acc.shadow.getD false }

/-- Members that are not written stand for themselves. -/
theorem foldlM_members (r : BlockRecord) :
    (r.members.foldlM Partial.take? {}).bind Partial.whole? = r.reread? := by
  obtain ⟨⟨id⟩, type, fields, mutation, shadow⟩ := r
  have hempty : fields.entries = [] → fields.reread? = some .empty := fun h => by
    unfold Fields.reread?
    rw [h]
    rfl
  unfold members reread?
  cases hfields : fields.entries with
  | nil =>
    by_cases hm : mutation = "" <;> cases shadow <;>
      simp [hm, hempty hfields, Partial.take?, Partial.whole?]
  | cons entry entries =>
    cases hr : fields.reread? <;> by_cases hm : mutation = "" <;> cases shadow <;>
      simp [hm, hr, Partial.take?, Partial.whole?]

private theorem meets_reader (level : Nat) (r : BlockRecord) :
    Meets reader (r.json.render level) r.reread? := by
  intro gap rest hg _
  obtain ⟨s, hs, hread⟩ := outcome_allMembers
    (fun m (_ : m ∈ r.members) acc => follows_member (level + 1) acc m) {} level rest
  have hopen := outcome_peek (s := s) hg (c := '\x7b') (by decide)
  have hobject : outcome fromObject s = r.reread?.map (·, '\x7d' :: rest) := by
    rw [← foldlM_members]
    simp only [fromObject, outcome_bind, hread]
    cases r.members.foldlM Partial.take? {} with
    | none => rfl
    | some acc =>
      simp only [Option.map_some, Option.bind_some, outcome_wanted, Partial.whole?]
      cases acc.id <;> cases acc.type <;> rfl
  rw [json_eq, render_object, List.map_map]
  change outcome reader (gap ++ (bracketed level '\x7b' '\x7d'
    (r.members.map fun m => memberText m.name (m.json.render (level + 1))) ++ rest)) = _
  rw [hs]
  simp only [reader, recordOr, outcome_bind, hopen, Option.bind_some]
  exact outcome_inObject hobject

end BlockRecord

namespace Connection

def members : Connection → List (String × String)
  | .input parent socket child =>
    [("kind", "input"), ("parent", parent.text), ("socket", socket), ("child", child.text)]
  | .next parent child => [("kind", "next"), ("parent", parent.text), ("child", child.text)]

private theorem json_eq (c : Connection) : c.json = .object (c.members.map fun m => (m.1, .string m.2)) := by
  cases c <;> rfl

/-- The kind is looked up, and the other members are kept for later. -/
def take? (acc : Option Kind × List (String × Found)) (m : String × String) :
    Option (Option Kind × List (String × Found)) :=
  if m.1 = "kind" then
    if acc.1.isSome then none
    else (Kind.named.find? fun k => k.1 = m.2).map fun k => (some k.2, acc.2)
  else some (acc.1, acc.2 ++ [(m.1, .string m.2)])

private theorem follows_member (level : Nat) (acc : Option Kind × List (String × Found)) (m : String × String) :
    Follows (member acc m.1) ((Value.string m.2).render level) (take? acc m) := by
  unfold member take?
  split
  · rename_i hkind
    have hchoice : Meets (Reader.choice Kind.named) ((Value.string m.2).render level)
        ((Kind.named.find? fun k => k.1 = m.2).map (·.2)) := by
      intro gap rest hg _
      rw [render, outcome_choice _ _ hg]
      cases Kind.named.find? fun k => k.1 = m.2 <;> rfl
    have hfill : Follows (fill m.1 acc.1 (Reader.choice Kind.named) fun kind => (some kind, acc.2)) _ _ :=
      follows_fill hchoice
    rwa [Option.map_map] at hfill
  · exact (meets_anything depth m.2).map.follows

private theorem meets_reader (level : Nat) (c : Connection) : Meets reader (c.json.render level) (some c) := by
  intro gap rest hg _
  obtain ⟨s, hs, hread⟩ := outcome_allMembers
    (fun m (_ : m ∈ c.members) acc => follows_member (level + 1) acc m) (none, []) level rest
  have hopen := outcome_peek (s := s) hg (c := '\x7b') (by decide)
  have hkept : ∃ kind found, c.members.foldlM take? (none, []) = some (some kind, found) ∧
      ofMembers kind found = .ok c := by
    cases c with
    | input parent socket child =>
      exact ⟨.input, [("parent", .string parent.text), ("socket", .string socket),
        ("child", .string child.text)], rfl, rfl⟩
    | next parent child =>
      exact ⟨.next, [("parent", .string parent.text), ("child", .string child.text)], rfl, rfl⟩
  obtain ⟨kind, found, hfold, hbuilt⟩ := hkept
  have hobject : outcome fromObject s = (some (.ok c)).map (·, '\x7d' :: rest) := by
    simp only [fromObject, outcome_bind, hread, hfold, Option.map_some, Option.bind_some, wanted,
      outcome_pure, hbuilt]
  rw [json_eq, render_object, List.map_map]
  change outcome reader (gap ++ (bracketed level '\x7b' '\x7d'
    (c.members.map fun m => memberText m.1 ((Value.string m.2).render (level + 1))) ++ rest)) = _
  rw [hs]
  simp only [reader, outcome_bind, hopen, Option.bind_some, outcome_inObject hobject, Option.map_some]
  rfl

end Connection

namespace Document

/-- The members of a document. -/
inductive Member where
  | version (n : Nat)
  | blocks (records : List BlockRecord)
  | connections (links : List Connection)

def Member.name : Member → String
  | .version _ => "version"
  | .blocks _ => "blocks"
  | .connections _ => "connections"

def Member.json : Member → Value
  | .version n => .natural n
  | .blocks records => .list (records.map BlockRecord.json)
  | .connections links => .list (links.map Connection.json)

def members (d : Document) : List Member :=
  [.version d.version, .blocks d.blocks, .connections d.connections]

private theorem json_eq (d : Document) : d.json = .object (d.members.map fun m => (m.name, m.json)) := rfl

/-- What a document has become when a member more has been read. -/
def Partial.take? (acc : Partial) : Member → Option Partial
  | .version n => if acc.version.isSome then none else some { acc with version := some n }
  | .blocks records =>
    if acc.blocks.isSome then none
    else (records.mapM BlockRecord.reread?).map fun v => { acc with blocks := some v }
  | .connections links =>
    if acc.connections.isSome then none else some { acc with connections := some links }

private theorem opensObject_render (level : Nat) (ms : List (String × Value)) :
    OpensObject ((Value.object ms).render level) := by
  rw [render_object]
  cases ms with
  | nil => exact ⟨_, rfl⟩
  | cons m ms => exact ⟨_, rfl⟩

private theorem render_list (level : Nat) (vs : List Value) :
    (Value.list vs).render level = bracketed level '[' ']' (vs.map (render (level + 1))) := by
  rw [render, renderAll_eq]

private theorem follows_member (level : Nat) (acc : Partial) {m : Member}
    (hversion : ∀ n, m = .version n → n < Nat.pow 2 32) :
    Follows (member acc m.name) (m.json.render level) (acc.take? m) := by
  cases m with
  | version n => exact follows_fill (meets_word32 (hversion n rfl))
  | blocks records =>
    refine follows_fill ?_
    rw [Member.json, render_list, List.map_map]
    exact meets_list (fun r _ => BlockRecord.meets_reader (level + 1) r)
      fun r _ => opensObject_render _ _
  | connections links =>
    have hsome : links.mapM some = some links := by
      simpa using List.mapM_pure (m := Option) (l := links) (f := id)
    have hlinks : Meets (Reader.list Connection.reader)
        (bracketed level '[' ']' (links.map fun c => c.json.render (level + 1))) (links.mapM some) :=
      meets_list (fun c _ => Connection.meets_reader (level + 1) c) fun c _ => by
        rw [Connection.json_eq]
        exact opensObject_render _ _
    rw [hsome] at hlinks
    have htext : (Member.connections links).json.render level =
        bracketed level '[' ']' (links.map fun c => c.json.render (level + 1)) := by
      rw [Member.json, render_list, List.map_map]
      rfl
    rw [htext]
    exact follows_fill hlinks

def Partial.whole? (acc : Partial) : Option Document :=
  acc.version.map fun version =>
    { version, blocks := acc.blocks.getD [], connections := acc.connections.getD [] }

private theorem foldlM_members (d : Document) :
    (d.members.foldlM Partial.take? {}).bind Partial.whole? = d.reread? := by
  unfold members reread?
  cases hr : d.blocks.mapM BlockRecord.reread? <;> simp [Partial.take?, Partial.whole?, hr]

/-- A text is read by its characters. -/
theorem ofJson_toJson_eq (d : Document) : ofJson d.toJson =
    ((reader.run (d.json.render 0)).map (·.1)).mapError (·.refusal (d.json.render 0)) := by
  unfold ofJson toJson
  rw [String.toList_ofList]
  cases reader.run (d.json.render 0) <;> rfl

/-- The text of a document is read back exactly as far as its numbers are. -/
theorem toOption_ofJson_toJson {d : Document} (hv : d.version < Nat.pow 2 32) :
    (ofJson d.toJson).toOption = d.reread? := by
  have hversion : ∀ m ∈ d.members, ∀ n, m = .version n → n < Nat.pow 2 32 := by
    rintro m hm n rfl
    obtain rfl : n = d.version := by simpa [members] using hm
    exact hv
  obtain ⟨s, hs, hread⟩ := outcome_allMembers
    (fun m (hm : m ∈ d.members) acc => follows_member 1 acc (hversion m hm)) {} 0 []
  have hopen := outcome_peek_cons (s := s) (c := '\x7b') (by decide)
  have hobject : outcome fromObject s = d.reread?.map (·, ['\x7d']) := by
    rw [← foldlM_members]
    simp only [fromObject, outcome_bind, hread]
    cases d.members.foldlM Partial.take? {} with
    | none => rfl
    | some acc =>
      simp only [Option.map_some, Option.bind_some, outcome_wanted, Partial.whole?]
      cases acc.version <;> rfl
  have hrender : d.json.render 0 = '\x7b' :: s := by
    rw [json_eq, render_object, List.map_map, ← hs, List.append_nil]
    rfl
  have hreader : outcome reader (d.json.render 0) = d.reread?.map (·, []) := by
    have hend : outcome peek [] = some (none, []) := rfl
    rw [hrender]
    simp only [reader, recordOr, outcome_bind, hopen, Option.bind_some, outcome_inObject hobject]
    cases d.reread? with
    | none => rfl
    | some d => simp [hend]
  have hofJson : (ofJson d.toJson).toOption = (outcome reader (d.json.render 0)).map (·.1) := by
    rw [ofJson_toJson_eq]
    unfold outcome StateT.run
    cases reader (d.json.render 0) <;> rfl
  rw [hofJson, hreader]
  cases d.reread? <;> rfl

end Document

/-- A value as it is read back, if it is. -/
def FieldValue.reread (v : FieldValue) : FieldValue := v.reread?.getD v

/-- A value can be read back unless it is a number that is not finite. -/
theorem FieldValue.isSome_reread? (v : FieldValue) :
    v.reread?.isSome ↔ ∀ x ∈ v.number?, x.isFinite := by
  cases v with
  | number x => simpa [reread?, number?] using Json.isSome_reread? x
  | _ => simp [reread?, number?]

private theorem FieldValue.reread?_eq_some {v : FieldValue} (h : ∀ x ∈ v.number?, x.isFinite) :
    v.reread? = some v.reread := by
  obtain ⟨v', hv⟩ := Option.isSome_iff_exists.mp (v.isSome_reread?.mpr h)
  rw [reread, hv]
  rfl

private theorem FieldValue.reread_of_number?_eq_none {v : FieldValue} (h : v.number? = none) : v.reread = v := by
  cases v with
  | number x => cases h
  | _ => rfl

namespace Fields

variable {fields : Fields}

def Finite (fields : Fields) : Prop := ∀ entry ∈ fields.entries, ∀ x ∈ entry.2.number?, x.isFinite

instance (fields : Fields) : Decidable fields.Finite :=
  inferInstanceAs (Decidable (∀ entry ∈ fields.entries, ∀ x ∈ entry.2.number?, x.isFinite))

def mapValues (f : FieldValue → FieldValue) (fields : Fields) : Fields :=
  ⟨fields.entries.map fun entry => (entry.1, f entry.2), List.pairwise_map.mpr fields.ordered⟩

theorem get?_mapValues (f : FieldValue → FieldValue) (name : String) :
    (fields.mapValues f).get? name = (fields.get? name).map f := by
  unfold mapValues get?
  rw [List.find?_map, Option.map_map, Option.map_map]
  rfl

private theorem reread?_of_finite (h : fields.Finite) : fields.reread? = some (fields.mapValues (·.reread)) := by
  have hfold (l : List (String × FieldValue)) (hl : ∀ entry ∈ l, ∀ x ∈ entry.2.number?, x.isFinite)
      (acc : Fields) : l.foldlM (fun acc entry => entry.2.reread?.map (acc.insert entry.1)) acc =
        some ((l.map fun entry => (entry.1, entry.2.reread)).foldl
          (fun fields entry => fields.insert entry.1 entry.2) acc) := by
    induction l generalizing acc with
    | nil => rfl
    | cons entry l ih =>
      obtain ⟨hentry, hl⟩ := List.forall_mem_cons.mp hl
      rw [List.foldlM_cons, FieldValue.reread?_eq_some hentry]
      exact ih hl _
  unfold reread?
  rw [hfold fields.entries h]
  refine congrArg some (ext_get? fun x => ?_)
  calc
    _ = ((fields.mapValues (·.reread)).get? x).or (empty.get? x) := get?_foldl_entries
    _ = (fields.mapValues (·.reread)).get? x := by rw [get?_empty, Option.or_none]

private theorem reread?_of_not_finite (h : ¬ fields.Finite) : fields.reread? = none := by
  have hfold (l : List (String × FieldValue)) (hl : ¬ ∀ entry ∈ l, ∀ x ∈ entry.2.number?, x.isFinite)
      (acc : Fields) :
      l.foldlM (fun acc entry => entry.2.reread?.map (acc.insert entry.1)) acc = none := by
    induction l generalizing acc with
    | nil => exact absurd (List.forall_mem_nil _) hl
    | cons entry l ih =>
      rw [List.foldlM_cons]
      by_cases hentry : ∀ x ∈ entry.2.number?, x.isFinite
      · rw [FieldValue.reread?_eq_some hentry]
        exact ih (fun hall => hl (List.forall_mem_cons.mpr ⟨hentry, hall⟩)) _
      · rw [← FieldValue.isSome_reread?, Option.not_isSome_iff_eq_none] at hentry
        rw [hentry]
        rfl
  exact hfold fields.entries h _

end Fields

def BlockRecord.reread (r : BlockRecord) : BlockRecord :=
  { r with fields := r.fields.mapValues (·.reread) }

namespace Document

variable {d : Document}

def Finite (d : Document) : Prop := ∀ r ∈ d.blocks, r.fields.Finite

def reread (d : Document) : Document := { d with blocks := d.blocks.map BlockRecord.reread }

private theorem reread?_of_finite (h : d.Finite) : d.reread? = some d.reread := by
  have hall (l : List BlockRecord) (hl : ∀ r ∈ l, r.fields.Finite) :
      l.mapM BlockRecord.reread? = some (l.map BlockRecord.reread) := by
    induction l with
    | nil => rfl
    | cons r l ih =>
      obtain ⟨hr, hl⟩ := List.forall_mem_cons.mp hl
      rw [List.mapM_cons, ih hl, BlockRecord.reread?, Fields.reread?_of_finite hr]
      rfl
  unfold reread?
  rw [hall d.blocks h]
  rfl

private theorem reread?_of_not_finite (h : ¬ d.Finite) : d.reread? = none := by
  have hall (l : List BlockRecord) (hl : ¬ ∀ r ∈ l, r.fields.Finite) :
      l.mapM BlockRecord.reread? = none := by
    induction l with
    | nil => exact absurd (List.forall_mem_nil _) hl
    | cons r l ih =>
      rw [List.mapM_cons]
      by_cases hr : r.fields.Finite
      · rw [ih fun hall => hl (List.forall_mem_cons.mpr ⟨hr, hall⟩)]
        cases r.reread? <;> rfl
      · rw [BlockRecord.reread?, Fields.reread?_of_not_finite hr]
        rfl
  unfold reread?
  rw [hall d.blocks h]
  rfl

/-- A text is read exactly if its numbers are finite, and then every other value is as it was. -/
theorem ofJson_toJson_eq_ok (hv : d.version < Nat.pow 2 32) {d' : Document} :
    ofJson d.toJson = .ok d' ↔ d.Finite ∧ d' = d.reread := by
  have hread := toOption_ofJson_toJson hv
  have hok : ofJson d.toJson = .ok d' ↔ d.reread? = some d' := by
    rw [← hread]
    cases ofJson d.toJson <;> simp [Except.toOption]
  rw [hok]
  by_cases h : d.Finite
  · rw [reread?_of_finite h]
    simp [h, eq_comm]
  · rw [reread?_of_not_finite h]
    simp [h]

def Numberless (d : Document) : Prop :=
  ∀ r ∈ d.blocks, ∀ entry ∈ r.fields.entries, entry.2.number? = none

instance (d : Document) : Decidable d.Numberless :=
  inferInstanceAs (Decidable (∀ r ∈ d.blocks, ∀ entry ∈ r.fields.entries, entry.2.number? = none))

theorem Numberless.finite (h : d.Numberless) : d.Finite := by
  intro r hr entry he x hx
  rw [h r hr entry he] at hx
  cases hx

/-- A document without numbers is read back as it is. -/
theorem Numberless.reread (h : d.Numberless) : d.reread = d := by
  have hrecord : ∀ r ∈ d.blocks, r.reread = r := by
    intro r hr
    have hfields : r.fields.mapValues (·.reread) = r.fields := Fields.ext_get? fun x => by
      rw [Fields.get?_mapValues]
      cases hx : r.fields.get? x with
      | none => rfl
      | some v =>
        exact congrArg some (FieldValue.reread_of_number?_eq_none
          (h r hr (x, v) (Fields.mem_entries.mpr hx)))
    rw [BlockRecord.reread, hfields]
  rw [Document.reread, List.map_congr_left hrecord, List.map_id']

/-- A document without numbers is read back from its text as it was, whatever characters its texts hold.
A record has a member for its fields, its mutation or its shadow flag only where they are not what is read
when the member is missing. -/
theorem ofJson_toJson {d : Document} (hv : d.version < Nat.pow 2 32) (hn : d.Numberless) :
    ofJson d.toJson = .ok d ∧
      ∀ r ∈ d.blocks, ∃ ms, r.json = .object ms ∧
        ("fields" ∈ ms.map (·.1) ↔ r.fields ≠ .empty) ∧
        ("mutation" ∈ ms.map (·.1) ↔ r.mutation ≠ "") ∧
        ("shadow" ∈ ms.map (·.1) ↔ r.shadow = true) := by
  constructor
  · exact (ofJson_toJson_eq_ok hv).mpr ⟨hn.finite, hn.reread.symm⟩
  · intro r _
    refine ⟨_, BlockRecord.json_eq r, ?_⟩
    have hempty : r.fields.entries = [] ↔ r.fields = .empty := by
      constructor
      · intro h
        refine Fields.ext_get? fun x => ?_
        unfold Fields.get?
        rw [h]
        rfl
      · intro h
        rw [h]
        rfl
    unfold BlockRecord.members
    rw [← not_iff_not] at hempty
    by_cases hf : r.fields.entries = [] <;> by_cases hm : r.mutation = "" <;> cases r.shadow <;>
      simp [hf, hm, ← hempty, BlockRecord.Member.name]

/-- Quotes, backslashes, control characters and characters beyond ASCII in every place for a text, and
members that are written or not. -/
theorem ofJson_toJson_of_escaped :
    let odd := "a\"b\\c\n\x01/\x7fé😀"
    let d : Document := {
      version := 1
      blocks := [
        { id := ⟨odd⟩, type := odd, fields := .ofList [(odd, .text odd), ("", .choice odd)],
          mutation := odd, shadow := true },
        { id := ⟨""⟩, type := "" }]
      connections := [.input ⟨odd⟩ odd ⟨""⟩, .next ⟨""⟩ ⟨odd⟩] }
    d.version < Nat.pow 2 32 ∧ d.Numberless ∧ ofJson d.toJson = .ok d := by
  intro odd d
  have hv : d.version < Nat.pow 2 32 := by decide
  have hn : d.Numberless := by decide +kernel
  exact ⟨hv, hn, (ofJson_toJson hv hn).1⟩

end Document

end BlockProgram
