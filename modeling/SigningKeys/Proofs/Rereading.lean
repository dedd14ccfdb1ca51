import SigningKeys.Proofs.RoundTrip

/-!
# What the text of a record tells

The text of a record lists its values under the names of their fields, so it tells the record in
full: records that are written alike are equal.  This holds also where reading does not give the
record back, because the name of the KDF ends in a carriage return or is too long.

## Main results

* `Field.eq_of_body_eq`, `Field.body_injective`: a line tells its field and its value.
* `Record.text_injective`: records that are written alike are equal.
* `Record.encode_tells`: **what becomes of a written record when it is read, and that its text
  tells it apart from every other.**
-/

namespace SigningKeys

open Byte

/-! ### Lines -/

namespace Field

theorem colon_not_mem_nameBytes (f : Field) : colon ∉ f.nameBytes := by
  cases f <;> decide

theorem body_eq (f : Field) (v : f.kind.Value) :
    f.body v = f.nameBytes ++ colon :: 32 :: f.kind.render v := by
  rw [body, label_eq, List.append_assoc, List.append_assoc]
  rfl

/-- A line tells its field, since no name has a colon in it. -/
theorem eq_of_body_eq {f g : Field} {v : f.kind.Value} {w : g.kind.Value}
    (h : f.body v = g.body w) : f = g := by
  rw [body_eq, body_eq] at h
  exact nameBytes_injective f g
    (Bytes.append_cons_inj f.colon_not_mem_nameBytes g.colon_not_mem_nameBytes h).1

/-- The line of a field tells its value. -/
theorem body_injective {f : Field} {v w : f.kind.Value} (hv : f.kind.Sound v)
    (hw : f.kind.Sound w) (h : f.body v = f.body w) : v = w := by
  have hrender := congrArg f.read (List.append_cancel_left h)
  rwa [read_render hv, read_render hw, Except.ok.injEq] at hrender

end Field

namespace Record

/-! ### Lines of several fields -/

/-- The lines of some fields start with the line of one of them, if there is any. -/
theorem lines_eq_nil_or (r : Record) (fields : List Field) :
    r.lines fields = [] ∨
      ∃ f ∈ fields, ∃ v, r.get f = some v ∧
        ∃ rest, r.lines fields = f.body v ++ newline :: rest := by
  induction fields with
  | nil => exact .inl rfl
  | cons f fields ih =>
    cases hv : r.get f with
    | some v => exact .inr ⟨f, List.mem_cons_self, v, hv, _, lines_cons_of_some hv fields⟩
    | none =>
      rw [lines_cons_of_none hv]
      rcases ih with hnil | ⟨g, hg, hfirst⟩
      · exact .inl hnil
      · exact .inr ⟨g, List.mem_cons_of_mem f hg, hfirst⟩

variable {r s : Record}

/-- Lines that start with the line of a field are not those of other fields. -/
theorem body_append_ne_lines (hr : r.WellFormed) (hs : s.WellFormed) {f : Field}
    {v : f.kind.Value} (hv : r.get f = some v) {fields : List Field} (hf : f ∉ fields)
    (rest : Bytes) : f.body v ++ newline :: rest ≠ s.lines fields := by
  intro h
  rcases s.lines_eq_nil_or fields with hnil | ⟨g, hg, w, hw, rest', hlines⟩
  · rw [hnil] at h
    simp at h
  · rw [hlines] at h
    have hbody := (Bytes.append_cons_inj (Field.newline_not_mem_body (hr f v hv))
      (Field.newline_not_mem_body (hs g w hw)) h).1
    exact hf (Field.eq_of_body_eq hbody ▸ hg)

/-- Records that have the same lines for some fields agree in these fields. -/
theorem get_eq_of_lines_eq (hr : r.WellFormed) (hs : s.WellFormed) :
    ∀ fields : List Field, fields.Nodup → r.lines fields = s.lines fields →
      ∀ f ∈ fields, r.get f = s.get f := by
  intro fields
  induction fields with
  | nil =>
    intro _ _ f hf
    cases hf
  | cons f fields ih =>
    intro hnodup h
    rw [List.nodup_cons] at hnodup
    -- the first field has a line in both, or in neither
    have hfirst : r.get f = s.get f ∧ r.lines fields = s.lines fields := by
      cases hv : r.get f with
      | none =>
        rw [lines_cons_of_none hv] at h
        cases hw : s.get f with
        | none =>
          rw [lines_cons_of_none hw] at h
          exact ⟨rfl, h⟩
        | some w =>
          rw [lines_cons_of_some hw] at h
          exact absurd h.symm (body_append_ne_lines hs hr hw hnodup.1 _)
      | some v =>
        rw [lines_cons_of_some hv] at h
        cases hw : s.get f with
        | none =>
          rw [lines_cons_of_none hw] at h
          exact absurd h (body_append_ne_lines hr hs hv hnodup.1 _)
        | some w =>
          rw [lines_cons_of_some hw] at h
          obtain ⟨hbody, hrest⟩ := Bytes.append_cons_inj
            (Field.newline_not_mem_body (hr f v hv)) (Field.newline_not_mem_body (hs f w hw)) h
          exact ⟨congrArg some (Field.body_injective (hr f v hv) (hs f w hw) hbody), hrest⟩
    intro g hg
    rcases List.mem_cons.mp hg with rfl | hg
    · exact hfirst.1
    · exact ih hnodup.2 hfirst.2 g hg

/-- Records that are written alike are equal. -/
theorem text_injective (hr : r.WellFormed) (hs : s.WellFormed) (h : r.text = s.text) : r = s := by
  rw [text_eq, text_eq] at h
  have hlines := (List.cons.inj (List.append_cancel_left h)).2
  apply ext_get
  intro f
  exact get_eq_of_lines_eq hr hs Field.written (by decide) hlines f f.mem_written

/-! ### Reading the text again -/

theorem dropReturn_append (t : String) : dropReturn (t ++ "\r") = t := by
  have htoList : (t ++ "\r").toList = t.toList ++ ['\r'] := String.toList_append
  rw [dropReturn, htoList, if_pos List.getLast?_concat, List.dropLast_concat, String.ofList_toList]

theorem dropReturn_of_ne {s : String} (h : ∀ t, s ≠ t ++ "\r") : dropReturn s = s := by
  refine dropReturn_eq_self_iff.mpr ?_
  intro hlast
  obtain ⟨cs, hcs⟩ := List.getLast?_eq_some_iff.mp hlast
  refine h (String.ofList cs) ?_
  rw [← String.toList_inj, String.toList_append, String.toList_ofList, hcs]
  rfl

/-- A written record reads back, but for one carriage return at the end of its KDF, if the KDF is
short enough, and else not at all.  In each of the three cases its text is that of no other record
that a caller can come by. -/
theorem encode_tells {bytes : Bytes} (hr : r.Reachable) (h : r.encode = .ok bytes) :
    ((∀ kdf, r.kdf = some kdf → (Utf8.encode kdf).length ≤ 1018 ∧ ∀ t, kdf ≠ t ++ "\r") →
        (parse (.ofBytes bytes)).result = .ok r) ∧
      (∀ t, r.kdf = some (t ++ "\r") → (Utf8.encode (t ++ "\r")).length ≤ 1018 →
        (parse (.ofBytes bytes)).result = .ok { r with kdf := some t }) ∧
      (∀ kdf, r.kdf = some kdf → 1018 < (Utf8.encode kdf).length →
        (parse (.ofBytes bytes)).result = .error (.format .overlongLine)) ∧
      ∀ r', r'.Reachable → r'.encode = .ok bytes → r' = r := by
  have hwf := hr.wellFormed
  obtain ⟨-, rfl⟩ := encode_eq_ok_iff.mp h
  refine ⟨?_, ?_, fun kdf hkdf hlong => parse_text_long hwf hkdf hlong, ?_⟩
  · intro hfits
    have hreread : r.reread = r := by
      cases hkdf : r.kdf with
      | none => rw [reread, hkdf, Option.map_none, ← hkdf]
      | some kdf =>
        rw [reread, hkdf, Option.map_some, dropReturn_of_ne (hfits kdf hkdf).2, ← hkdf]
    rw [parse_text hwf fun kdf hkdf => (hfits kdf hkdf).1, hreread]
  · intro t hkdf hroom
    have hroom' : ∀ kdf, r.kdf = some kdf → (Utf8.encode kdf).length ≤ Layout.kdfRoom := by
      intro kdf hkdf'
      rw [hkdf, Option.some.injEq] at hkdf'
      exact hkdf' ▸ hroom
    rw [parse_text hwf hroom', reread, hkdf, Option.map_some, dropReturn_append]
  · intro r' hr' h'
    obtain ⟨-, htext⟩ := encode_eq_ok_iff.mp h'
    exact text_injective hr'.wellFormed hwf htext.symm

/-- Of two carriage returns at the end of a KDF one is read back.  The text is that of no other
record, so not that of the record which is read. -/
theorem zeros_with_returns_tells :
    ∃ bytes, (zeros.set .kdf "scrypt\r\r").Reachable ∧
      (zeros.set .kdf "scrypt\r\r").encode = .ok bytes ∧
      (parse (.ofBytes bytes)).result = .ok (zeros.set .kdf "scrypt\r") ∧
      (zeros.set .kdf "scrypt\r").encode ≠ .ok bytes := by
  have hsound : ∀ kdf, kdf = "scrypt\r" ∨ kdf = "scrypt\r\r" → Kind.Sound .text kdf := by
    rintro kdf (rfl | rfl)
    · exact ⟨by decide, fun b hb => by cases hb; rfl⟩
    · exact ⟨by decide, fun b hb => by cases hb; rfl⟩
  have hr := reachable_zeros.set (f := .kdf) (hsound _ (.inr rfl)) rfl
  have hr' := reachable_zeros.set (f := .kdf) (hsound _ (.inl rfl)) rfl
  have hwritten : (zeros.set .kdf "scrypt\r\r").encode = .ok _ :=
    encode_eq_ok_iff.mpr ⟨⟨.plaintext, by decide⟩, rfl⟩
  obtain ⟨-, hread, -, honly⟩ := encode_tells hr hwritten
  refine ⟨_, hr, hwritten, hread "scrypt\r" rfl (by decide), ?_⟩
  intro h
  have hkdf := congrArg Record.kdf (honly _ hr' h)
  exact absurd hkdf (by decide)

end Record

end SigningKeys
