import SigningKeys.Proofs.RoundTrip

/-!
# Containers that are cut off

A container that is cut off somewhere is a number of whole lines and a part of the next one.  The
whole lines are read as they were written.  Of the part it depends on the field what becomes of it:
a part of the name is refused, bytes in hexadecimal digits are read only if all of them are there,
and text and numbers are read however little is left of them.

## Main definitions

* `Field.earlier`: the fields that a container lists before a field.
* `Record.textUpTo`: the text of a container up to a field.
* `Record.CutReading`: the records that the beginnings of a container are read as.

## Main results

* `Record.readBody_cut`: what becomes of a part of a line.
* `Record.cut_lines`: the beginnings of some lines are whole lines and a part of one.
* `Record.cutReading_of_parse`: **what becomes of a container that is cut off.**
-/

namespace SigningKeys

open Byte

theorem prefix_append_or {t as bs : Bytes} (h : t <+: as ++ bs) :
    t <+: as ∨ ∃ u, t = as ++ u ∧ u <+: bs := by
  rcases List.prefix_or_prefix_of_prefix h (List.prefix_append as bs) with hle | ⟨u, rfl⟩
  · exact Or.inl hle
  · exact Or.inr ⟨u, rfl, (List.prefix_append_right_inj as).mp h⟩

theorem prefix_singleton_or {t : Bytes} {b : UInt8} (h : t <+: [b]) : t = [] ∨ t = [b] := by
  rw [List.prefix_cons_iff] at h
  rcases h with rfl | ⟨u, rfl, hu⟩
  · exact Or.inl rfl
  · rw [List.prefix_nil] at hu
    exact Or.inr (by rw [hu])

namespace Record

/-! ### Parts of a line -/

/-- A part of the name of a field is refused. -/
theorem readBody_name (r : Record) {f : Field} {part : Bytes} (hne : part ≠ [])
    (h : part <+: f.nameBytes) : r.readBody part = .error (.format (.line .malformed)) := by
  have hgraphic : ∀ b ∈ part, isGraphic b = true ∧ b ≠ colon := by
    intro b hb
    exact f.isGraphic_of_mem_nameBytes b (h.subset hb)
  -- no carriage return is taken off, since there is none in a name
  have hlast : part.getLast? ≠ some carriageReturn := by
    intro hlast
    have := (hgraphic _ (List.mem_of_getLast? hlast)).1
    cases this
  rw [readBody, dropFinal_of_getLast? hlast, scan_unfinished_name r hne hgraphic]
  rfl

/-- After the name of a field, its colon and at most one blank, the rest of the line is the text of
its value. -/
theorem readBody_value (r : Record) (f : Field) {gap raw : Bytes} (hgap : gap <+: [32])
    (hfirst : ∀ b, raw.head? = some b → isBlank b = false) (hnl : newline ∉ raw)
    (hdigit : f.kind = .unsigned → ∀ b ∈ raw, isDigit b = true) :
    r.readBody (f.nameBytes ++ [colon] ++ gap ++ raw) =
      (Scanned.ofApply r (r.apply f (Bytes.dropFinal carriageReturn raw))).toExcept := by
  have hpre := dropFinal_isPrefix carriageReturn raw
  have hlast : (f.nameBytes ++ [colon] ++ gap).getLast? ≠ some carriageReturn := by
    rcases prefix_singleton_or hgap with rfl | rfl <;> simp [colon, carriageReturn]
  have hblank : ∀ b ∈ gap, isBlank b = true := by
    intro b hb
    rw [List.mem_singleton.mp (hgap.subset hb)]
    rfl
  rw [readBody, dropFinal_append hlast,
    scan_field_line r f hblank (fun b hb => hfirst b (head?_of_isPrefix hpre hb))
      (fun hmem => hnl (hpre.subset hmem)) (fun hk b hb => hdigit hk b (hpre.subset hb))]

/-- A part of a line is a part of the name of its field, or goes on after the colon with a part of
the text of its value. -/
theorem cut_body {f : Field} {v : f.kind.Value} {part : Bytes} (h : part <+: f.body v) :
    part <+: f.nameBytes ∨
      ∃ gap raw, part = f.nameBytes ++ [colon] ++ gap ++ raw ∧ gap <+: [32] ∧
        raw <+: f.kind.render v ∧ (raw = [] ∨ gap = [32]) := by
  rw [Field.body, f.label_eq] at h
  -- from the value back to the name, each piece of the line is cut or whole
  rcases prefix_append_or h with h | ⟨raw, rfl, hraw⟩
  · rcases prefix_append_or h with h | ⟨gap, rfl, hgap⟩
    · rcases prefix_append_or h with h | ⟨u, rfl, hu⟩
      · exact Or.inl h
      · rcases prefix_singleton_or hu with rfl | rfl
        · exact Or.inl (by simp)
        · exact Or.inr ⟨[], [], by simp, List.nil_prefix, List.nil_prefix, Or.inl rfl⟩
    · exact Or.inr ⟨gap, [], by simp, hgap, List.nil_prefix, Or.inl rfl⟩
  · exact Or.inr ⟨[32], raw, rfl, List.prefix_refl _, hraw, Or.inr rfl⟩

/-- Bytes in hexadecimal digits are not read from a part of their text. -/
theorem eq_render_of_readHex {f : Field} {n : ℕ} {raw bs w : Bytes} (hlen : bs.length = n)
    (hraw : raw <+: Hex.encode bs) (h : f.readHex n raw = .ok w) :
    raw = Hex.encode bs ∧ w = bs := by
  -- only texts of the full length are read, so no digit is missing
  have hfull : raw = Hex.encode bs := by
    refine hraw.eq_of_length ?_
    rw [Field.readHex] at h
    split at h
    · next hn => rw [hn, Hex.length_encode, hlen]
    · cases h
  rw [hfull, f.readHex_encode hlen, Except.ok.injEq] at h
  exact ⟨hfull, h.symm⟩

theorem eq_render_of_read {f : Field} {n : ℕ} {raw : Bytes} {v w : f.kind.Value}
    (hk : f.kind = .hex n) (hv : f.kind.Sound v) (hraw : raw <+: f.kind.render v)
    (h : f.read raw = .ok w) : raw = f.kind.render v ∧ w = v := by
  have key : ∀ (k : Kind) (v w : k.Value), k = .hex n → k.Sound v → raw <+: k.render v →
      f.readKind k raw = .ok w → raw = k.render v ∧ w = v := by
    rintro k v w rfl hv hraw h
    exact eq_render_of_readHex hv hraw h
  exact key f.kind v w hk hv hraw h

/-- No field holds bytes without any digit. -/
theorem render_ne_nil {f : Field} {n : ℕ} {v : f.kind.Value} (hk : f.kind = .hex n)
    (hv : f.kind.Sound v) : f.kind.render v ≠ [] := by
  have hn : 0 < n := by cases f <;> cases hk <;> decide
  have key : ∀ (k : Kind) (v : k.Value), k = .hex n → k.Sound v → k.render v ≠ [] := by
    rintro k v rfl hv hnil
    have hlen : (Kind.render (.hex n) v).length = 2 * (v : Bytes).length := Hex.length_encode v
    have hv' : (v : Bytes).length = n := hv
    rw [hnil, hv', List.length_nil] at hlen
    omega
  exact key f.kind v hk hv

/-- What becomes of a part of a line: it goes at least to the colon, and some value is stored; for
bytes in hexadecimal digits it is the whole line. -/
theorem readBody_cut {r r' : Record} {f : Field} {v : f.kind.Value} (hv : f.kind.Sound v)
    {part : Bytes} (hpart : part <+: f.body v) (hne : part ≠ []) (h : r.readBody part = .ok r') :
    f.nameBytes ++ [colon] <+: part ∧
      ∃ w, r' = r.set f w ∧ ∀ n, f.kind = .hex n → w = v ∧ part = f.body v := by
  rcases cut_body hpart with hname | ⟨gap, raw, rfl, hgap, hraw, hsplit⟩
  · rw [readBody_name r hne hname] at h
    cases h
  · have hpre := dropFinal_isPrefix carriageReturn raw
    rw [readBody_value r f hgap
      (fun b hb => Kind.isBlank_head_render hv (head?_of_isPrefix hraw hb))
      (fun hmem => Kind.newline_not_mem_render hv (hraw.subset hmem))
      (fun hk b hb => Kind.isDigit_of_mem_render hk (hraw.subset hb))] at h
    refine ⟨by simp, ?_⟩
    cases happly : r.apply f (Bytes.dropFinal carriageReturn raw) with
    | error fault =>
      rw [happly] at h
      cases h
    | ok r'' =>
      rw [happly] at h
      cases h
      obtain ⟨w, hread, -, rfl⟩ := apply_eq_ok_iff.mp happly
      refine ⟨w, rfl, ?_⟩
      intro n hk
      obtain ⟨hfull, rfl⟩ := eq_render_of_read hk hv (hpre.trans hraw) hread
      -- nothing of the text is missing, so there was a blank before it
      have hall : raw = f.kind.render w := hraw.eq_of_length
        (Nat.le_antisymm hraw.length_le (hfull ▸ hpre.length_le))
      rcases hsplit with hnil | rfl
      · exact absurd (hall ▸ hnil) (render_ne_nil hk hv)
      · exact ⟨rfl, by rw [hall, Field.body, f.label_eq]⟩

/-! ### Whole lines and a part of one -/

/-- The beginnings of some lines are whole lines and a part of one. -/
theorem cut_lines (r : Record) : ∀ (fields : List Field) (t : Bytes), t <+: r.lines fields →
    t = r.lines fields ∨ ∃ before f after v part, fields = before ++ f :: after ∧
      r.get f = some v ∧ part <+: f.body v ∧ t = r.lines before ++ part := by
  intro fields
  induction fields with
  | nil =>
    intro t ht
    rw [lines_nil, List.prefix_nil] at ht
    exact Or.inl ht
  | cons f fields ih =>
    intro t ht
    cases hv : r.get f with
    | none =>
      rw [lines_cons_of_none hv] at ht ⊢
      rcases ih t ht with rfl | ⟨before, g, after, v, part, rfl, hg, hpart, rfl⟩
      · exact Or.inl rfl
      · exact Or.inr ⟨f :: before, g, after, v, part, rfl, hg, hpart,
          by rw [lines_cons_of_none hv]⟩
    | some v =>
      rw [lines_cons_of_some hv] at ht ⊢
      -- the cut is in the first line, before its newline, or in a later line
      rcases prefix_append_or ht with hpart | ⟨u, rfl, hu⟩
      · exact Or.inr ⟨[], f, fields, v, t, rfl, hv, hpart, rfl⟩
      rw [List.prefix_cons_iff] at hu
      rcases hu with rfl | ⟨t', rfl, ht'⟩
      · exact Or.inr ⟨[], f, fields, v, _, rfl, hv, by simp, rfl⟩
      rcases ih t' ht' with rfl | ⟨before, g, after, w, part, rfl, hg, hpart, rfl⟩
      · exact Or.inl rfl
      · exact Or.inr ⟨f :: before, g, after, w, part, rfl, hg, hpart,
          by simp [lines_cons_of_some hv]⟩

end Record

/-! ### Beginnings of a container -/

/-- The fields that a container lists before a field. -/
def Field.earlier (f : Field) : List Field := Field.written.takeWhile (· ≠ f)

theorem Field.eq_earlier {before after : List Field} {f : Field}
    (h : Field.written = before ++ f :: after) : before = f.earlier := by
  have hnodup : (before ++ f :: after).Nodup := h ▸ by decide
  have hother : ∀ g ∈ before, decide (g ≠ f) = true := by
    intro g hg
    rw [decide_eq_true_eq]
    rintro rfl
    exact (List.nodup_append.mp hnodup).2.2 g hg g List.mem_cons_self rfl
  rw [Field.earlier, h, List.takeWhile_append_of_pos hother, List.takeWhile_cons_of_neg (by simp),
    List.append_nil]

theorem Field.nodup_earlier (f : Field) : f.earlier.Nodup := by cases f <;> decide

namespace Record

/-- The text of a container up to the line of a field. -/
def textUpTo (r : Record) (f : Field) : Bytes := magic ++ newline :: r.lines f.earlier

/-- What the beginning `t` of the container of a record is read as. -/
inductive CutReading (r : Record) (t : Bytes) : Record → Prop where
  /-- The first line is all that there is. -/
  | first : CutReading r t empty
  /-- Nothing is missing. -/
  | whole (ht : t = r.text) : CutReading r t r
  /-- The container is cut before the line of `f`. -/
  | before (f : Field) (ht : t = r.textUpTo f) : CutReading r t (empty.fill r f.earlier)
  /-- The container is cut within the line of `f`, after the colon. -/
  | within (f : Field) {v w : f.kind.Value} {part : Bytes} (hget : r.get f = some v)
      (hpart : part <+: f.body v) (hcolon : f.nameBytes ++ [colon] <+: part)
      (ht : t = r.textUpTo f ++ part)
      (hread : (empty.fill r f.earlier).readBody part = .ok ((empty.fill r f.earlier).set f w))
      (hhex : ∀ n, f.kind = .hex n → w = v ∧ part = f.body v) :
      CutReading r t ((empty.fill r f.earlier).set f w)

/-- Of the first line without its newline, nothing is read, and parts of it are refused. -/
theorem eq_empty_of_parse {r' : Record} {t : Bytes} (ht : t <+: magic)
    (h : (parse (.ofBytes t)).result = .ok r') : r' = empty := by
  have hnl : newline ∉ t := by
    intro hmem
    exact absurd (ht.subset hmem) (by decide)
  have hlen : t.length < Layout.lineLimit := Nat.lt_of_le_of_lt ht.length_le (by decide)
  have hline := Stream.line_of_end hnl hlen
  cases t with
  | nil =>
    rw [parse, hline] at h
    cases h
  | cons b t =>
    simp only [parse, hline] at h
    -- if the first line is right, no line follows it
    split at h
    · rw [Outcome.result_ofExcept, readLines_nil] at h
      cases h
      rfl
    · cases h

/-- The whole lines of a container are read as they were written. -/
theorem Faithful.parse_textUpTo {r : Record} (hr : r.Faithful) (f : Field) (rest : Bytes) :
    (parse (.ofBytes (r.textUpTo f ++ rest))).result =
      (empty.fill r f.earlier).readLines (.ofBytes rest) := by
  have hlines := readLines_lines hr.wellFormed .closed rest f.earlier empty f.nodup_earlier
    (fun g _ => get_empty g) fun g _ v => length_body_lt hr.wellFormed hr.room
  rw [hr.reread] at hlines
  rw [textUpTo, List.append_assoc, List.cons_append, parse_magic, Outcome.result_ofExcept,
    Stream.ofBytes, hlines]
  rfl

/-- The part of a line behind whole lines is read as a line. -/
theorem Faithful.parse_part {r : Record} (hr : r.Faithful) {f : Field} {v : f.kind.Value}
    (hv : r.get f = some v) {part : Bytes} (hpart : part <+: f.body v) (hne : part ≠ []) :
    (parse (.ofBytes (r.textUpTo f ++ part))).result =
      (empty.fill r f.earlier).readBody part := by
  have hnl : newline ∉ part := by
    intro hmem
    exact Field.newline_not_mem_body (hr.wellFormed f v hv) (hpart.subset hmem)
  have hlen : part.length < Layout.lineLimit :=
    Nat.lt_of_le_of_lt hpart.length_le (length_body_lt hr.wellFormed hr.room hv)
  rw [hr.parse_textUpTo, readLines_last _ hne hnl hlen]

/-- What becomes of a container that is cut off. -/
theorem cutReading_of_parse {r r' : Record} (hr : r.Faithful) {t : Bytes} (ht : t <+: r.text)
    (h : (parse (.ofBytes t)).result = .ok r') : r.CutReading t r' := by
  have htext := ht
  rw [text_eq] at htext
  -- the cut is in the first line, before its newline, or in the lines of the fields
  rcases prefix_append_or htext with hmagic | ⟨u, rfl, hu⟩
  · rw [eq_empty_of_parse hmagic h]
    exact .first
  rw [List.prefix_cons_iff] at hu
  rcases hu with rfl | ⟨lines, rfl, hlines⟩
  · rw [eq_empty_of_parse (by simp) h]
    exact .first
  rcases r.cut_lines _ _ hlines with rfl | ⟨before, f, after, v, part, hsplit, hv, hpart, rfl⟩
  · rw [← text_eq, hr.parse_text, Except.ok.injEq] at h
    exact h ▸ .whole (text_eq r).symm
  have hcut : magic ++ newline :: (r.lines before ++ part) = r.textUpTo f ++ part := by
    rw [textUpTo, ← Field.eq_earlier hsplit, List.append_assoc, List.cons_append]
  rw [hcut] at h ⊢
  by_cases hne : part = []
  · subst hne
    rw [hr.parse_textUpTo, readLines_nil, Except.ok.injEq] at h
    exact h ▸ .before f (by rw [List.append_nil])
  · rw [hr.parse_part hv hpart hne] at h
    obtain ⟨hcolon, w, rfl, hhex⟩ := readBody_cut (hr.wellFormed f v hv) hpart hne h
    exact .within f hv hpart hcolon rfl h hhex

end Record

end SigningKeys
