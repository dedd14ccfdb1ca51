import Mathlib.Data.List.NodupEquivFin
import SigningKeys.Proofs.HexValues
import SigningKeys.Proofs.Lookup

/-!
# Names and places in the table

A name is looked up by halving the table.  The halving is followed here by places: it keeps the
bounds of the part that it still looks at, and ends at the place of a field.  It comes upon the same
field as a search through the whole table, and a byte string that only resembles a name leads
nowhere.  The field at that place carries the slot of a record that has this name.

## Main definitions

* `Field.placeBetween`, `Field.place`: halving by places.
* `Field.window`: the fields between two places.
* `Misspells`: byte strings that resemble a name.
* `Record.slots`: the slots of a record under their names, each with the kind of its values.

## Main results

* `Field.search_eq_placeBetween`: halving comes upon the field at the place that halving by places
  leads to.
* `Field.place_eq_some_iff`: the place of a name is that of the field with this name.
* `Field.lookup_of_misspells`: what resembles a name is no name.
* `Record.slots_set`: a value that is set is found in the slot of its field, and nowhere else.
* `Field.lookup_by_exact_name`: **halving finds what a search through the table finds, and a value
  for it gets into the slot of that name.**
-/

namespace SigningKeys

open Byte

namespace Field

/-! ### Halving by places -/

/-- The place of a name in a list that is sorted by name, looked for from `low` on and in front of
`high`: the field in the middle either has the name or tells on which side of it to look on. -/
def placeBetween (name : Bytes) (fields : List Field) (low high : ℕ) (h : high ≤ fields.length) :
    Option (Fin fields.length) :=
  if hlt : low < high then
    let middle : Fin fields.length := ⟨low + (high - low) / 2, by omega⟩
    let order := Bytes.order (fields.get middle).nameBytes name
    if order = .eq then some middle
    else if order = .lt then placeBetween name fields (low + (high - low) / 2 + 1) high h
    else placeBetween name fields low (low + (high - low) / 2) (by omega)
  else none
termination_by high - low
decreasing_by
  all_goals omega

/-- The place of the field whose name has exactly these bytes. -/
def place (name : Bytes) : Option (Fin table.length) :=
  placeBetween name table 0 table.length (Nat.le_refl _)

/-! ### Both ways of halving meet the same fields -/

/-- The fields of a list from the place `low` on and in front of the place `high`. -/
def window (fields : List Field) (low high : ℕ) : List Field := (fields.take high).drop low

section Windows

variable {fields : List Field} {low high k : ℕ}

theorem length_window (h : high ≤ fields.length) :
    (window fields low high).length = high - low := by
  rw [window, List.length_drop, List.length_take_of_le h]

/-- A window from one of its places on. -/
theorem drop_window (h : high ≤ fields.length) (hk : low + k < high) :
    (window fields low high).drop k =
      fields.get ⟨low + k, by omega⟩ :: window fields (low + k + 1) high := by
  have hlen : low + k < (fields.take high).length := by
    rw [List.length_take_of_le h]
    exact hk
  rw [window, List.drop_drop, List.drop_eq_getElem_cons hlen, List.getElem_take,
    List.get_eq_getElem, window]

/-- A window in front of one of its places. -/
theorem take_window (hk : low + k < high) :
    (window fields low high).take k = window fields low (low + k) := by
  rw [window, List.take_drop, List.take_take, Nat.min_eq_left (Nat.le_of_lt hk), window]

/-- What halving a list does with the field in the middle. -/
theorem search_halves {name : Bytes} {fields later : List Field} {f : Field} {k : ℕ}
    (hk : fields.length / 2 = k) (hdrop : fields.drop k = f :: later) :
    search name fields =
      if Bytes.order f.nameBytes name = .eq then some f
      else if Bytes.order f.nameBytes name = .lt then search name later
      else search name (fields.take k) := by
  subst hk
  rw [search]
  split
  · next hnil => cases hdrop.symm.trans hnil
  · next g rest hcons =>
    obtain ⟨rfl, rfl⟩ := List.cons.inj (hdrop.symm.trans hcons)
    cases Bytes.order f.nameBytes name <;> rfl

/-- Halving a window leads to one of the windows on both sides of its middle. -/
theorem search_window (name : Bytes) (h : high ≤ fields.length) (hlt : low < high) :
    search name (window fields low high) =
      if Bytes.order (fields.get ⟨low + (high - low) / 2, by omega⟩).nameBytes name = .eq then
        some (fields.get ⟨low + (high - low) / 2, by omega⟩)
      else if Bytes.order (fields.get ⟨low + (high - low) / 2, by omega⟩).nameBytes name = .lt then
        search name (window fields (low + (high - low) / 2 + 1) high)
      else search name (window fields low (low + (high - low) / 2)) := by
  have hmiddle : low + (high - low) / 2 < high := by omega
  rw [search_halves (congrArg (· / 2) (length_window h)) (drop_window h hmiddle),
    take_window hmiddle]

/-- Halving a window comes upon the field at the place that halving by places leads to. -/
theorem search_eq_placeBetween (name : Bytes) (h : high ≤ fields.length) :
    search name (window fields low high) =
      (placeBetween name fields low high h).map fields.get := by
  -- along the halving by places: the middle of the window is the place that it looks at
  fun_induction placeBetween name fields low high h with
  | case1 low high h hlt middle order horder =>
    rw [search_window name h hlt, if_pos horder]
    rfl
  | case2 low high h hlt middle order hne horder ih =>
    rw [search_window name h hlt, if_neg hne, if_pos horder, ih]
  | case3 low high h hlt middle order hne horder ih =>
    rw [search_window name h hlt, if_neg hne, if_neg horder, ih]
  | case4 low high h hlt =>
    have hnil : window fields low high = [] := by
      rw [← List.length_eq_zero_iff, length_window h]
      omega
    rw [hnil, search]
    rfl

end Windows

/-! ### The place of a name -/

/-- A look-up finds the field at the place that halving by places leads to. -/
theorem lookup_eq_place (name : Bytes) : lookup name = (place name).map table.get := by
  have hwhole : window table 0 table.length = table := by
    rw [window, List.take_length, List.drop_zero]
  rw [lookup, place, ← search_eq_placeBetween, hwhole]

theorem get_table_injective : Function.Injective table.get :=
  List.nodup_iff_injective_get.mp (by decide)

/-- The place of a name is that of the field with this name. -/
theorem place_eq_some_iff {name : Bytes} {i : Fin table.length} :
    place name = some i ↔ (table.get i).nameBytes = name := by
  rw [← lookup_eq_some_iff, lookup_eq_place, Option.map_eq_some_iff]
  constructor
  · intro h
    exact ⟨i, h, rfl⟩
  · rintro ⟨j, hj, hget⟩
    rwa [← get_table_injective hget]

/-! ### Searching through the whole table -/

theorem lookup_eq_none_iff {name : Bytes} :
    lookup name = none ↔ ∀ f ∈ table, f.nameBytes ≠ name := by
  simp only [Option.eq_none_iff_forall_ne_some, ne_eq, lookup_eq_some_iff, mem_table,
    forall_const]

/-- Halving finds what a search through the whole table finds. -/
theorem lookup_eq_find (name : Bytes) :
    lookup name = table.find? (fun f : Field => f.nameBytes == name) := by
  cases hfind : table.find? fun f => f.nameBytes == name with
  | none =>
    rw [lookup_eq_none_iff]
    intro f hf
    simpa using List.find?_eq_none.mp hfind f hf
  | some f =>
    have hname := List.find?_some hfind
    rw [lookup_eq_some_iff]
    exact beq_iff_eq.mp hname

end Field

/-! ### What only resembles a name -/

/-- The byte strings that resemble a name without being the name. -/
inductive Misspells (name : Bytes) : Bytes → Prop where
  /-- The name breaks off. -/
  | cut {bs : Bytes} (h : bs <+: name) (hne : bs ≠ name) : Misspells name bs
  /-- The name goes on. -/
  | extended {bs : Bytes} (h : name <+: bs) (hne : bs ≠ name) : Misspells name bs
  /-- Letters are in the other case. -/
  | letterCase {bs : Bytes} (h : bs.map toLower = name.map toLower) (hne : bs ≠ name) :
    Misspells name bs

namespace Field

/-- No name begins with another. -/
theorem eq_of_prefixed_nameBytes {f g : Field} (h : f.nameBytes <+: g.nameBytes) : f = g := by
  revert h
  cases f <;> cases g <;> decide

/-- Names are written in small letters. -/
theorem map_toLower_nameBytes (f : Field) : f.nameBytes.map toLower = f.nameBytes := by
  cases f <;> decide

/-- What resembles the name of a field is the name of no field. -/
theorem lookup_of_misspells {f : Field} {name : Bytes} (h : Misspells f.nameBytes name) :
    lookup name = none := by
  rw [lookup_eq_none_iff]
  rintro g - rfl
  cases h with
  | cut h hne => exact hne (congrArg nameBytes (eq_of_prefixed_nameBytes h))
  | extended h hne => exact hne (congrArg nameBytes (eq_of_prefixed_nameBytes h)).symm
  | letterCase h hne =>
    rw [map_toLower_nameBytes, map_toLower_nameBytes] at h
    exact hne h

/-- A byte outside ASCII is in no name. -/
theorem lookup_of_not_ascii {name : Bytes} (h : ∃ b ∈ name, 128 ≤ b) : lookup name = none := by
  rw [lookup_eq_none_iff]
  rintro f - rfl
  obtain ⟨b, hb, hlarge⟩ := h
  have hgraphic := (f.isGraphic_of_mem_nameBytes b hb).1
  simp only [isGraphic, Bool.and_eq_true, decide_eq_true_eq, UInt8.le_iff_toNat_le,
    UInt8.reduceToNat] at hgraphic hlarge
  omega

end Field

/-! ### Slots and their names -/

namespace Record

/-- The slots of a record under their names.  Each slot has a kind of values. -/
def slots (r : Record) : List (Bytes × (k : Kind) × Option k.Value) :=
  [(Utf8.encode "version", ⟨.unsigned, r.version⟩),
   (Utf8.encode "data", ⟨.hex Layout.secretLength, r.data⟩),
   (Utf8.encode "id", ⟨.hex Layout.idLength, r.id⟩),
   (Utf8.encode "kdf", ⟨.text, r.kdf⟩),
   (Utf8.encode "rounds", ⟨.unsigned, r.rounds⟩),
   (Utf8.encode "salt", ⟨.hex Layout.saltLength, r.salt⟩),
   (Utf8.encode "checksum", ⟨.hex Layout.digestLength, r.checksum⟩)]

/-- The slot of a name. -/
def slot (r : Record) (name : Bytes) : Option ((k : Kind) × Option k.Value) :=
  r.slots.lookup name

/-- The slots of a record are those of its fields. -/
theorem slots_eq (r : Record) :
    r.slots = Field.written.map fun f => (f.nameBytes, ⟨f.kind, r.get f⟩) :=
  rfl

theorem slot_nameBytes (r : Record) (f : Field) :
    r.slot f.nameBytes = some ⟨f.kind, r.get f⟩ := by
  have key : ∀ fields : List Field, f ∈ fields →
      (fields.map fun g => (g.nameBytes, (⟨g.kind, r.get g⟩ : (k : Kind) × Option k.Value))).lookup
        f.nameBytes = some ⟨f.kind, r.get f⟩ := by
    intro fields hf
    induction fields with
    | nil => cases hf
    | cons g fields ih =>
      rw [List.map_cons, List.lookup_cons]
      by_cases hname : f.nameBytes = g.nameBytes
      · rw [Field.nameBytes_injective f g hname, beq_self_eq_true]
      · have hne : f ≠ g := fun h => hname (congrArg Field.nameBytes h)
        rw [beq_false_of_ne hname]
        exact ih ((List.mem_cons.mp hf).resolve_left hne)
  rw [slot, slots_eq]
  exact key Field.written f.mem_written

/-- A name that is looked up in vain has no slot. -/
theorem slot_of_lookup_none (r : Record) {name : Bytes} (h : Field.lookup name = none) :
    r.slot name = none := by
  rw [slot, slots_eq, List.lookup_eq_none_iff, List.forall_mem_map]
  intro f _
  exact bne_iff_ne.mpr (Field.lookup_eq_none_iff.mp h f f.mem_table).symm

/-- A value that is set is found in the slot of its field. -/
theorem slot_set (r : Record) (f : Field) (v : f.kind.Value) :
    (r.set f v).slot f.nameBytes = some ⟨f.kind, some v⟩ := by
  rw [slot_nameBytes, get_set]

/-- A value that is set leaves the slots of other names as they are. -/
theorem slot_set_of_ne (r : Record) {f : Field} {name : Bytes} (h : name ≠ f.nameBytes)
    (v : f.kind.Value) : (r.set f v).slot name = r.slot name := by
  cases hlookup : Field.lookup name with
  | none => rw [slot_of_lookup_none _ hlookup, slot_of_lookup_none _ hlookup]
  | some g =>
    obtain rfl := Field.lookup_eq_some_iff.mp hlookup
    have hne : g ≠ f := fun hgf => h (congrArg Field.nameBytes hgf)
    rw [slot_nameBytes, slot_nameBytes, get_set_of_ne r hne]

/-- A value is stored if the slot of its field is empty. -/
theorem put_of_slot_empty {r : Record} {f : Field}
    (h : r.slot f.nameBytes = some ⟨f.kind, none⟩) (v : f.kind.Value) :
    r.put f v = .ok (r.set f v) := by
  rw [slot_nameBytes, Option.some.injEq, Sigma.mk.injEq, heq_eq_eq] at h
  rw [put, h.2]

/-- A value is refused if the slot of its field is taken. -/
theorem put_of_slot_taken {r : Record} {f : Field}
    (h : r.slot f.nameBytes ≠ some ⟨f.kind, none⟩) (v : f.kind.Value) :
    r.put f v = .error (.alreadySet f) := by
  rw [slot_nameBytes] at h
  rw [put]
  cases hget : r.get f with
  | none => exact absurd (by rw [hget]) h
  | some w => rfl

end Record

/-! ### Looking up a name -/

namespace Field

/-- A look-up finds what a search through the whole table finds: the field whose name has exactly
these bytes, and nothing if there is no such field.  So a part of a name, a name and more, a name
with letters in the other case and a byte string outside ASCII are never found.  Halving ends at the
place of the field, and a value for that field gets into the slot of the name and into no other; if
the slot is taken, the value is refused. -/
theorem lookup_by_exact_name (name : Bytes) :
    lookup name = table.find? (fun f : Field => f.nameBytes == name) ∧
    (∀ f, lookup name = some f ↔ f ∈ table ∧ f.nameBytes = name) ∧
    (lookup name = none ↔ ∀ f ∈ table, f.nameBytes ≠ name) ∧
    (∀ f : Field, Misspells f.nameBytes name → lookup name = none) ∧
    ((∃ b ∈ name, 128 ≤ b) → lookup name = none) ∧
    lookup name = (place name).map table.get ∧
    ∀ i, (place name = some i ↔ (table.get i).nameBytes = name) ∧
      (place name = some i → ∀ (r : Record) (v : (table.get i).kind.Value),
        (r.slot name = some ⟨(table.get i).kind, none⟩ →
          ∃ r', r.put (table.get i) v = .ok r' ∧
            r'.slot name = some ⟨(table.get i).kind, some v⟩ ∧
            ∀ other, other ≠ name → r'.slot other = r.slot other) ∧
        (r.slot name ≠ some ⟨(table.get i).kind, none⟩ →
          r.put (table.get i) v = .error (.alreadySet (table.get i)))) := by
  refine ⟨lookup_eq_find name, ?_, lookup_eq_none_iff, fun f => lookup_of_misspells,
    lookup_of_not_ascii, lookup_eq_place name, fun i => ⟨place_eq_some_iff, ?_⟩⟩
  · intro f
    rw [lookup_eq_some_iff, and_iff_right (mem_table f)]
  · intro hplace r v
    obtain rfl := place_eq_some_iff.mp hplace
    constructor
    · intro hempty
      exact ⟨_, Record.put_of_slot_empty hempty v, r.slot_set _ v,
        fun other hother => r.slot_set_of_ne hother v⟩
    · intro htaken
      exact Record.put_of_slot_taken htaken v

/-- The fifth name of the table, and four byte strings that resemble it. -/
theorem rounds_by_exact_name :
    lookup (Utf8.encode "rounds") = some .rounds ∧
      place (Utf8.encode "rounds") = some ⟨4, by decide⟩ ∧
      (∃ r', Record.empty.put .rounds (7 : UInt32) = .ok r' ∧
        r'.slot (Utf8.encode "rounds") = some ⟨.unsigned, some (7 : UInt32)⟩ ∧
        r'.slot (Utf8.encode "version") = Record.empty.slot (Utf8.encode "version")) ∧
      lookup (Utf8.encode "round") = none ∧ lookup (Utf8.encode "rounds2") = none ∧
      lookup (Utf8.encode "Rounds") = none ∧ lookup (Utf8.encode "roundſ") = none := by
  obtain ⟨-, hfound, -, -, -, -, hplace⟩ := lookup_by_exact_name (Utf8.encode "rounds")
  obtain ⟨hat, hput⟩ := hplace ⟨4, by decide⟩
  have hplace : place (Utf8.encode "rounds") = some ⟨4, by decide⟩ := hat.mpr rfl
  obtain ⟨r', hstored, hslot, hother⟩ := (hput hplace Record.empty (7 : UInt32)).1 rfl
  have hresembles : ∀ {bs}, Misspells (nameBytes .rounds) bs → lookup bs = none :=
    fun {bs} => (lookup_by_exact_name bs).2.2.2.1 .rounds
  exact ⟨(hfound .rounds).mpr ⟨mem_table _, rfl⟩, hplace,
    ⟨r', hstored, hslot, hother _ (by decide)⟩, hresembles (.cut (by decide) (by decide)),
    hresembles (.extended (by decide) (by decide)),
    hresembles (.letterCase (by decide) (by decide)),
    (lookup_by_exact_name _).2.2.2.2.1 (by decide)⟩

end Field

end SigningKeys
