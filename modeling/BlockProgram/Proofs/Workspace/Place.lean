import BlockProgram.Workspace.Links
import Mathlib.Data.List.Nodup

/-! Places and what stands in them. A link is written at both of its ends, so a workspace is looked at
from three sides: the blocks without their links, the place of each block, and the block in each place. -/
namespace BlockProgram

def Socket.emptied (s : Socket) : Socket := { s with target := none }

@[simp] theorem Socket.emptied_emptied (s : Socket) : s.emptied.emptied = s.emptied := rfl

theorem Socket.map_name_of_emptied {l l' : List Socket}
    (h : l.map Socket.emptied = l'.map Socket.emptied) : l.map (·.name) = l'.map (·.name) := by
  simpa [Function.comp_def, Socket.emptied] using congrArg (List.map (·.name)) h

namespace Block

def bare (b : Block) : Block :=
  { b with sockets := b.sockets.map Socket.emptied, parent := none, next := none }

theorem find?_retarget (name n : String) (target : Option BlockId) (l : List Socket) :
    (retarget name target l).find? (fun s => s.name = n) =
      if n = name then (l.find? fun s => s.name = n).map fun s => { s with target }
      else l.find? fun s => s.name = n := by
  induction l with
  | nil => simp [retarget]
  | cons s rest ih => grind [retarget]

theorem map_emptied_retarget (name : String) (target : Option BlockId) (l : List Socket) :
    (retarget name target l).map Socket.emptied = l.map Socket.emptied := by
  induction l with
  | nil => rfl
  | cons s rest ih =>
    unfold retarget
    split
    · rfl
    · rw [List.map_cons, ih, List.map_cons]

theorem mutation_of_bare {b b' : Block} (h : b'.bare = b.bare) : b'.mutation = b.mutation :=
  show b'.bare.mutation = b.bare.mutation from congrArg mutation h

theorem fields_of_bare {b b' : Block} (h : b'.bare = b.bare) : b'.fields = b.fields :=
  show b'.bare.fields = b.bare.fields from congrArg fields h

theorem bare_plug (b : Block) (name : String) (target : Option BlockId) :
    (b.plug name target).bare = b.bare := by
  simp [bare, plug, map_emptied_retarget]

private theorem target?_plug (b : Block) (name n : String) (target : Option BlockId) :
    (b.plug name target).target? n =
      if n = name ∧ (b.socket? n).isSome then target else b.target? n := by
  unfold target? socket? plug
  rw [find?_retarget]
  by_cases h : n = name
  · cases hs : b.sockets.find? fun s => s.name = n <;> simp [h]
  · simp [h]

theorem socket?_of_mem {b : Block} {s : Socket} (hn : (b.sockets.map (·.name)).Nodup)
    (hs : s ∈ b.sockets) : b.socket? s.name = some s := by
  obtain ⟨k, hk⟩ : ∃ k, b.socket? s.name = some k :=
    Option.isSome_iff_exists.mp (List.find?_isSome.mpr ⟨s, hs, by simp⟩)
  rw [hk, List.inj_on_of_nodup_map hn (List.mem_of_find?_eq_some hk) hs
    (by simpa using List.find?_some hk)]

theorem socket?_bare (b : Block) (name : String) :
    b.bare.socket? name = (b.socket? name).map Socket.emptied := by
  unfold socket? bare
  rw [List.find?_map]
  rfl

theorem target?_bare (b : Block) (name : String) : b.bare.target? name = none := by
  unfold target?
  rw [socket?_bare]
  cases b.socket? name <;> rfl

/-- Sockets are known by what they are and what they hold. -/
theorem sockets_eq {b b' : Block} (hn : (b.sockets.map (·.name)).Nodup)
    (hs : b'.sockets.map Socket.emptied = b.sockets.map Socket.emptied)
    (ht : ∀ n, b'.target? n = b.target? n) : b'.sockets = b.sockets := by
  have hn' : (b'.sockets.map (·.name)).Nodup := Socket.map_name_of_emptied hs ▸ hn
  refine List.ext_getElem? fun i => ?_
  have hi := congrArg (fun l : List Socket => l[i]?) hs
  simp only [List.getElem?_map] at hi
  cases hk : b.sockets[i]? with
  | none => simpa [hk] using hi
  | some k =>
    rw [hk] at hi
    obtain ⟨k', hk', he⟩ := Option.map_eq_some_iff.mp hi
    have he : k'.emptied = k.emptied := he
    have hname : k'.emptied.name = k.emptied.name := congrArg Socket.name he
    have htarget := ht k.name
    unfold target? at htarget
    rw [socket?_of_mem hn (List.mem_of_getElem? hk), show k.name = k'.name from hname.symm,
      socket?_of_mem hn' (List.mem_of_getElem? hk')] at htarget
    rw [hk', show k' = { k'.emptied with target := k'.target } from rfl, he]
    simp only [Option.bind_some] at htarget
    rw [htarget]
    rfl

end Block

namespace Workspace

/-- The block that stands in a place. -/
def occupant? (w : Workspace) : Attachment → Option BlockId
  | .input p s => (w.find? p).bind (·.target? s)
  | .next p => (w.find? p).bind (·.next)

/-- Whether a workspace has a place: the block to follow, or the block with the socket. -/
def offers (w : Workspace) : Attachment → Bool
  | .input p s => ((w.find? p).bind (·.socket? s)).isSome
  | .next p => w.has p

def bare? (w : Workspace) (id : BlockId) : Option Block := (w.find? id).map Block.bare

theorem mem_of_find? {w : Workspace} {id : BlockId} {b : Block} (h : w.find? id = some b) :
    b ∈ w.blocks ∧ b.id = id :=
  ⟨List.mem_of_find?_eq_some h, by simpa using List.find?_some h⟩

theorem has_iff {w : Workspace} {id : BlockId} : w.has id ↔ ∃ b, w.find? id = some b :=
  Option.isSome_iff_exists

theorem bare?_of_find? {w : Workspace} {id : BlockId} {b : Block} (h : w.find? id = some b) :
    w.bare? id = some b.bare := by
  rw [bare?, h]
  rfl

theorem eq_bare_of_find? {w : Workspace} {id : BlockId} {b b' : Block} (h : w.find? id = some b)
    (h' : w.bare? id = some b') : b' = b.bare :=
  Option.some.inj (h'.symm.trans (bare?_of_find? h))

theorem has_iff_bare? {w : Workspace} {id : BlockId} : w.has id = (w.bare? id).isSome := by
  simp [has, bare?]

/-- Whether a block is there does not depend on links. -/
theorem has_congr {w w' : Workspace} {id : BlockId} (h : w'.bare? id = w.bare? id) :
    w'.has id = w.has id := by
  rw [has_iff_bare?, h, ← has_iff_bare?]

theorem has_iff_mem_ids {w : Workspace} {id : BlockId} : w.has id ↔ id ∈ w.ids := by
  simp [has, find?, ids]

theorem find?_of_mem {w : Workspace} (hn : w.ids.Nodup) {b : Block} (h : b ∈ w.blocks) :
    w.find? b.id = some b := by
  obtain ⟨found, hf⟩ := has_iff.mp (has_iff_mem_ids.mpr (List.mem_map_of_mem (f := (·.id)) h))
  obtain ⟨hm, he⟩ := mem_of_find? hf
  rw [hf, List.inj_on_of_nodup_map hn hm h he]

/-- Blocks that are left stand in the order they had. -/
theorem ids_eq_filter {w w' : Workspace} (hn : w.ids.Nodup) (h : w'.ids.Sublist w.ids) :
    w'.ids = w.ids.filter w'.has := by
  have hsub : w'.ids.Sublist (w.ids.filter w'.has) := by
    have hfilter := h.filter w'.has
    rwa [List.filter_eq_self.mpr fun x hx => has_iff_mem_ids.mpr hx] at hfilter
  refine hsub.eq_of_length_le ((hn.filter _).length_le_of_subset fun x hx => ?_)
  exact has_iff_mem_ids.mp (List.mem_filter.mp hx).2

theorem ids_eq_of_has {w w' : Workspace} (hn : w.ids.Nodup) (h : w'.ids.Sublist w.ids)
    (hhas : ∀ x, w'.has x = w.has x) : w'.ids = w.ids := by
  rw [ids_eq_filter hn h, List.filter_eq_self]
  exact fun x hx => (hhas x).trans (has_iff_mem_ids.mpr hx)

/-- Workspaces with the same blocks in the same order are the same. -/
theorem ext_find? {w w' : Workspace} (hs : w'.shapes = w.shapes) (hi : w'.ids = w.ids)
    (hn : w.ids.Nodup) (h : ∀ x, w'.find? x = w.find? x) : w' = w := by
  have hblocks : w'.blocks = w.blocks := by
    refine List.ext_getElem? fun i => ?_
    have hid := congrArg (fun l : List BlockId => l[i]?) hi
    simp only [ids, List.getElem?_map] at hid
    cases hb : w.blocks[i]? with
    | none => simpa [hb] using hid
    | some b =>
      rw [hb] at hid
      obtain ⟨b', hb', he⟩ := Option.map_eq_some_iff.mp hid
      have hfind := h b.id
      rw [find?_of_mem hn (List.mem_of_getElem? hb), show b.id = b'.id from he.symm,
        find?_of_mem (hi ▸ hn) (List.mem_of_getElem? hb')] at hfind
      rw [hb', hfind]
  cases w
  cases w'
  simp_all

theorem has_of_parent? {w : Workspace} {id : BlockId} {place : Attachment}
    (h : w.parent? id = some place) : w.has id := by
  obtain ⟨b, hb, _⟩ := Option.bind_eq_some_iff.mp h
  exact has_iff.mpr ⟨b, hb⟩

theorem offers_of_occupant? {w : Workspace} {place : Attachment} {c : BlockId}
    (h : w.occupant? place = some c) : w.offers place := by
  cases place with
  | input p s =>
    obtain ⟨b, hb, ht⟩ := Option.bind_eq_some_iff.mp h
    obtain ⟨k, hk, _⟩ := Option.bind_eq_some_iff.mp ht
    simp [offers, hb, hk]
  | next p =>
    obtain ⟨b, hb, _⟩ := Option.bind_eq_some_iff.mp h
    exact has_iff.mpr ⟨b, hb⟩

theorem exists_socket_of_offers {w : Workspace} {p : BlockId} {s : String}
    (h : w.offers (.input p s)) : ∃ b, w.bare? p = some b ∧ ∃ k, b.socket? s = some k := by
  obtain ⟨k, hk⟩ := Option.isSome_iff_exists.mp h
  obtain ⟨b, hb, hs⟩ := Option.bind_eq_some_iff.mp hk
  exact ⟨b.bare, bare?_of_find? hb, k.emptied, by simp [Block.socket?_bare, hs]⟩

theorem offers_of_bare? {w : Workspace} {p : BlockId} {s : String} {b : Block} {k : Socket}
    (hb : w.bare? p = some b) (hk : b.socket? s = some k) : w.offers (.input p s) := by
  obtain ⟨b', hb', rfl⟩ := Option.map_eq_some_iff.mp hb
  rw [Block.socket?_bare] at hk
  obtain ⟨k', hk', -⟩ := Option.map_eq_some_iff.mp hk
  simp [offers, hb', hk']

theorem has_of_offers {w : Workspace} {place : Attachment} (h : w.offers place) :
    w.has place.block := by
  cases place with
  | input p s =>
    obtain ⟨k, hk⟩ := Option.isSome_iff_exists.mp h
    obtain ⟨b, hb, _⟩ := Option.bind_eq_some_iff.mp hk
    exact has_iff.mpr ⟨b, hb⟩
  | next p => exact h

theorem occupant?_of_not_has {w : Workspace} {place : Attachment} (h : ¬ w.has place.block) :
    w.occupant? place = none :=
  Option.eq_none_iff_forall_ne_some.mpr fun _ ho => h (has_of_offers (offers_of_occupant? ho))

/-- Whether a place is there does not depend on links. -/
theorem offers_congr {w w' : Workspace} {place : Attachment}
    (h : w'.bare? place.block = w.bare? place.block) : w'.offers place = w.offers place := by
  cases place with
  | input p s =>
    have hs (v : Workspace) :
        ((v.find? p).bind (·.socket? s)).isSome = ((v.bare? p).bind (·.socket? s)).isSome := by
      cases hv : v.find? p <;> simp [bare?, hv, Block.socket?_bare]
    change w'.bare? p = w.bare? p at h
    simp only [offers, hs, h]
  | next p =>
    change w'.bare? p = w.bare? p at h
    exact has_congr h

section modify

variable {w : Workspace} {id x : BlockId} {f : Block → Block}

theorem find?_modify (hf : ∀ b, (f b).id = b.id) :
    (w.modify id f).find? x = if x = id then (w.find? x).map f else w.find? x := by
  unfold find? modify
  rw [List.find?_map]
  have he : ((fun b : Block => decide (b.id = x)) ∘ fun b => if b.id = id then f b else b) =
      fun b => decide (b.id = x) := by
    funext b
    by_cases h : b.id = id <;> simp [h, hf]
  rw [he]
  cases hb : w.blocks.find? fun b => b.id = x with
  | none => simp
  | some b =>
    have hx : b.id = x := by simpa using List.find?_some hb
    by_cases h : x = id <;> simp [hx, h]

theorem ids_modify (hf : ∀ b, (f b).id = b.id) : (w.modify id f).ids = w.ids := by
  simp only [ids, modify, List.map_map]
  refine List.map_congr_left fun b _ => ?_
  by_cases h : b.id = id <;> simp [h, hf]

theorem has_modify (hf : ∀ b, (f b).id = b.id) : (w.modify id f).has x = w.has x := by
  simp only [has, find?_modify hf]
  split <;> simp

/-- Only what becomes of the one block counts. -/
theorem modify_congr {g : Block → Block} {b : Block} (hn : w.ids.Nodup) (hb : w.find? id = some b)
    (hfg : f b = g b) : w.modify id f = w.modify id g := by
  unfold modify
  congr 1
  refine List.map_congr_left fun d hd => ?_
  split
  · rename_i hid
    have hfind := find?_of_mem hn hd
    rw [hid, hb] at hfind
    cases hfind
    exact hfg
  · rfl

private theorem bare?_modify (hf : ∀ b, (f b).id = b.id) (hb : ∀ b, (f b).bare = b.bare) :
    (w.modify id f).bare? x = w.bare? x := by
  simp only [bare?, find?_modify hf]
  split
  · cases w.find? x <;> simp [hb]
  · rfl

/-- The blocks without their links, in layout order. -/
theorem map_bare_modify (hb : ∀ b, (f b).bare = b.bare) :
    (w.modify id f).blocks.map Block.bare = w.blocks.map Block.bare := by
  simp only [modify, List.map_map]
  refine List.map_congr_left fun b _ => ?_
  by_cases h : b.id = id <;> simp [h, hb]

theorem parent?_modify (hf : ∀ b, (f b).id = b.id) (hp : ∀ b, (f b).parent = b.parent) :
    (w.modify id f).parent? x = w.parent? x := by
  simp only [parent?, find?_modify hf]
  split
  · cases w.find? x <;> simp [hp]
  · rfl

theorem occupant?_modify (hf : ∀ b, (f b).id = b.id) (ht : ∀ b s, (f b).target? s = b.target? s)
    (hn : ∀ b, (f b).next = b.next) (place : Attachment) :
    (w.modify id f).occupant? place = w.occupant? place := by
  cases place <;>
  · simp only [occupant?, find?_modify hf]
    split
    · cases w.find? _ <;> simp [ht, hn]
    · rfl

end modify

/-- The workspace with a new content of a place. The block in it does not know yet. -/
def fill (w : Workspace) (place : Attachment) (content : Option BlockId) : Workspace :=
  match place with
  | .input p s => w.modify p fun b => b.plug s content
  | .next p => w.modify p fun b => { b with next := content }

/-- The workspace with another place of a block. The place does not know yet. -/
def settle (w : Workspace) (id : BlockId) (place : Option Attachment) : Workspace :=
  w.modify id fun b => { b with parent := place }

section fill

variable (w : Workspace) (place : Attachment) (content : Option BlockId)

private theorem find?_fill_input (p : BlockId) (s : String) (x : BlockId) :
    (w.fill (.input p s) content).find? x =
      if x = p then (w.find? x).map fun b => b.plug s content else w.find? x :=
  find?_modify fun _ => rfl

private theorem find?_fill_next (p x : BlockId) : (w.fill (.next p) content).find? x =
    if x = p then (w.find? x).map fun b => { b with next := content } else w.find? x :=
  find?_modify fun _ => rfl

@[simp] theorem shapes_fill : (w.fill place content).shapes = w.shapes := by
  cases place <;> rfl

@[simp] theorem ids_fill : (w.fill place content).ids = w.ids := by
  cases place <;> exact ids_modify fun _ => rfl

@[simp] theorem has_fill (x : BlockId) : (w.fill place content).has x = w.has x := by
  cases place <;> exact has_modify fun _ => rfl

@[simp] theorem bare?_fill (x : BlockId) : (w.fill place content).bare? x = w.bare? x := by
  cases place with
  | input p s => exact bare?_modify (fun _ => rfl) fun b => b.bare_plug s content
  | next p => exact bare?_modify (fun _ => rfl) fun _ => rfl

@[simp] theorem map_bare_fill :
    (w.fill place content).blocks.map Block.bare = w.blocks.map Block.bare := by
  cases place with
  | input p s => exact map_bare_modify fun b => b.bare_plug s content
  | next p => exact map_bare_modify fun _ => rfl

@[simp] theorem parent?_fill (x : BlockId) : (w.fill place content).parent? x = w.parent? x := by
  cases place <;> exact parent?_modify (fun _ => rfl) fun _ => rfl

theorem occupant?_fill (q : Attachment) : (w.fill place content).occupant? q =
    if q = place ∧ w.offers place then content else w.occupant? q := by
  cases place with
  | input p s =>
    cases q with
    | input p' s' =>
      simp only [occupant?, find?_fill_input, offers, Attachment.input.injEq]
      by_cases hp : p' = p
      · subst hp
        cases w.find? p' <;> by_cases hs : s' = s <;> simp [Block.target?_plug, hs]
      · simp [hp]
    | next p' =>
      simp only [occupant?, find?_fill_input]
      by_cases hp : p' = p
      · cases w.find? p' <;> simp [hp, Block.plug]
      · simp [hp]
  | next p =>
    cases q with
    | input p' s' =>
      simp only [occupant?, find?_fill_next]
      by_cases hp : p' = p
      · cases w.find? p' <;> simp [hp, Block.target?, Block.socket?]
      · simp [hp]
    | next p' =>
      simp only [occupant?, find?_fill_next, offers, has, Attachment.next.injEq]
      by_cases hp : p' = p
      · cases hb : w.find? p' <;> simp_all
      · simp [hp]

end fill

section settle

variable (w : Workspace) (id : BlockId) (place : Option Attachment)

private theorem find?_settle (x : BlockId) : (w.settle id place).find? x =
    if x = id then (w.find? x).map fun b => { b with parent := place } else w.find? x :=
  find?_modify fun _ => rfl

@[simp] theorem shapes_settle : (w.settle id place).shapes = w.shapes := rfl

@[simp] theorem ids_settle : (w.settle id place).ids = w.ids := ids_modify fun _ => rfl

@[simp] theorem has_settle (x : BlockId) : (w.settle id place).has x = w.has x :=
  has_modify fun _ => rfl

@[simp] theorem bare?_settle (x : BlockId) : (w.settle id place).bare? x = w.bare? x :=
  bare?_modify (fun _ => rfl) fun _ => rfl

@[simp] theorem map_bare_settle :
    (w.settle id place).blocks.map Block.bare = w.blocks.map Block.bare :=
  map_bare_modify fun _ => rfl

@[simp] theorem occupant?_settle (q : Attachment) :
    (w.settle id place).occupant? q = w.occupant? q := by
  apply occupant?_modify <;> intros <;> rfl

theorem parent?_settle (x : BlockId) : (w.settle id place).parent? x =
    if x = id ∧ w.has x then place else w.parent? x := by
  simp only [parent?, find?_settle]
  by_cases hx : x = id
  · cases hb : w.find? x <;> simp [has, hx, hx ▸ hb]
  · simp [hx]

end settle

end Workspace

end BlockProgram
