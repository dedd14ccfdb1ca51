import Mathlib.Data.List.Infix
import SigningKeys.Proofs.CutContainers
import SigningKeys.Proofs.WrappedKeys

/-!
# Keys from containers that are cut off

A container has no mark at its end, and it is its KDF that makes a record an encrypted one.  So a
container of a wrapped secret that is cut off after the identifier and before the last byte of the
name of the KDF is a plaintext key, whose secret is the wrapped one.  At every other place a cut is
found out, or nothing is missing: no key but the original one comes from such a container.

## Main definitions

* `Record.opening`: the lines of a container before its KDF.
* `Record.Exposes`: the cuts that make a plaintext key of a wrapped secret.
* `Record.KeepsOpening`: a record that has everything but its KDF.

## Main results

* `Record.CutReading.eq_of_checksum`: a record that is read with a checksum is whole.
* `Record.CutReading.exposes`: only the cuts that expose hide the KDF behind an identifier.
* `Record.Exposes.parse`: what such a cut leaves is read as a plaintext key.
* `SecretKey.load_cut_container`: **which keys come from a container that is cut off.**
-/

namespace SigningKeys

open Byte

namespace Record

/-! ### Values behind a cut -/

theorem get_fill_earlier (r : Record) (f g : Field) :
    (empty.fill r f.earlier).get g = if g ∈ f.earlier then r.get g else none := by
  rw [get_fill, get_empty, Option.or_none]

theorem get_fill_earlier_of_mem (r : Record) {f g : Field} (h : g ∈ f.earlier) :
    (empty.fill r f.earlier).get g = r.get g := by
  rw [get_fill_earlier, if_pos h]

theorem get_fill_earlier_of_not_mem (r : Record) {f g : Field} (h : g ∉ f.earlier) :
    (empty.fill r f.earlier).get g = none := by
  rw [get_fill_earlier, if_neg h]

namespace CutReading

variable {r r' : Record} {t : Bytes}

/-- Bytes in hexadecimal digits that are read are the written ones. -/
theorem get_hex (h : r.CutReading t r') {f : Field} {n : ℕ} (hk : f.kind = .hex n)
    {v : f.kind.Value} (hv : r'.get f = some v) : r.get f = some v := by
  cases h with
  | first =>
    rw [get_empty] at hv
    cases hv
  | whole => exact hv
  | before g _ =>
    rw [get_fill_earlier] at hv
    split at hv
    · exact hv
    · cases hv
  | within g hget _ _ _ _ hhex =>
    by_cases hg : f = g
    · subst hg
      rw [get_set, (hhex n hk).1] at hv
      rw [hget, hv]
    · rw [get_set_of_ne _ hg, get_fill_earlier] at hv
      split at hv
      · exact hv
      · cases hv

/-- A record that is read with a checksum is whole, since the checksum stands last. -/
theorem eq_of_checksum (h : r.CutReading t r') {v : Field.checksum.kind.Value}
    (hv : r'.get .checksum = some v) : r' = r := by
  have hlast : ∀ f : Field, Field.checksum ∉ f.earlier := by
    intro f
    cases f <;> decide
  cases h with
  | first => cases hv
  | whole => rfl
  | before f _ =>
    rw [get_fill_earlier_of_not_mem r (hlast f)] at hv
    cases hv
  | within f hget _ _ _ _ hhex =>
    by_cases hf : f = .checksum
    · subst hf
      obtain ⟨rfl, -⟩ := hhex _ rfl
      apply ext_get
      intro g
      by_cases hg : g = .checksum
      · subst hg
        rw [get_set, hget]
      · have hmem : g ∈ Field.checksum.earlier := by
          cases g <;> first | exact absurd rfl hg | decide
        rw [get_set_of_ne _ hg, get_fill_earlier_of_mem r hmem]
    · rw [get_set_of_ne _ (Ne.symm hf), get_fill_earlier_of_not_mem r (hlast f)] at hv
      cases hv

end CutReading

/-! ### Cuts that expose the wrapped secret -/

/-- The lines of a container before its KDF: its version, its secret and its identifier. -/
def opening (r : Record) : Bytes := r.textUpTo .kdf

/-- The container of a wrapped secret is cut off after the identifier, and nothing is left of the
line of the KDF, or its colon and not all of the name. -/
def Exposes (r : Record) (t : Bytes) : Prop :=
  r.kdf = some Layout.kdfName ∧
    (t = r.opening.dropLast ∨ t = r.opening ∨
      r.opening ++ Utf8.encode "kdf:" <+: t ∧
        t.length < (r.opening ++ Utf8.encode "kdf: pbkdf2-sha256").length)

theorem opening_eq {r : Record} {v : Field.id.kind.Value} (h : r.get .id = some v) :
    r.opening = r.textUpTo .id ++ Field.body .id v ++ [newline] := by
  have hearlier : Field.kdf.earlier = Field.id.earlier ++ [.id] := by decide
  rw [opening, textUpTo, hearlier, lines_append, lines_cons_of_some h, lines_nil, textUpTo]
  simp

theorem body_kdfName :
    Field.body .kdf Layout.kdfName = Utf8.encode "kdf: pbkdf2-sha256" := by decide

theorem nameBytes_kdf : Field.nameBytes .kdf ++ [colon] = Utf8.encode "kdf:" := by decide

/-- A cut behind the identifier and not behind the KDF is at the KDF. -/
theorem eq_kdf_of_earlier {f : Field} (hid : .id ∈ f.earlier) (hkdf : .kdf ∉ f.earlier) :
    f = .kdf := by
  cases f <;> first | rfl | exact absurd hid (by decide) | exact absurd (by decide) hkdf

/-- Only the cuts that expose the wrapped secret leave an identifier and not the KDF. -/
theorem CutReading.exposes {r r' : Record} {t : Bytes} (h : r.CutReading t r')
    (hkdf : r.get .kdf = some Layout.kdfName) {v : Field.id.kind.Value}
    (hid : r'.get .id = some v) (hne : r'.get .kdf ≠ some Layout.kdfName) : r.Exposes t := by
  refine ⟨hkdf, ?_⟩
  cases h with
  | first => cases hid
  | whole => exact absurd hkdf hne
  | before f ht =>
    have hno : .kdf ∉ f.earlier := by
      intro hmem
      rw [get_fill_earlier_of_mem r hmem] at hne
      exact hne hkdf
    have hyes : .id ∈ f.earlier := by
      by_contra hmem
      rw [get_fill_earlier_of_not_mem r hmem] at hid
      cases hid
    obtain rfl := eq_kdf_of_earlier hyes hno
    exact Or.inr (Or.inl ht)
  | @within f _ w part hget hpart hcolon ht hread hhex =>
    have hno : .kdf ∉ f.earlier := by
      intro hmem
      have hf : Field.kdf ≠ f := by
        rintro rfl
        exact absurd hmem (by decide)
      rw [get_set_of_ne _ hf, get_fill_earlier_of_mem r hmem] at hne
      exact hne hkdf
    by_cases hf : f = .id
    · -- the identifier is there in full, and only its newline is missing
      subst hf
      obtain ⟨-, rfl⟩ := hhex _ rfl
      rw [opening_eq hget, List.dropLast_concat]
      exact Or.inl ht
    · have hyes : .id ∈ f.earlier := by
        by_contra hmem
        rw [get_set_of_ne _ (Ne.symm hf), get_fill_earlier_of_not_mem r hmem] at hid
        cases hid
      obtain rfl := eq_kdf_of_earlier hyes hno
      obtain rfl := Option.some.inj (hkdf.symm.trans hget)
      -- the whole line would be read as the name of the KDF
      have hshort : part ≠ Field.body .kdf Layout.kdfName := by
        rintro rfl
        have hnone : (empty.fill r Field.kdf.earlier).get .kdf = none :=
          get_fill_earlier_of_not_mem r (by decide)
        rw [readBody_body _ (f := .kdf) sound_kdfName hnone, Except.ok.injEq] at hread
        rw [← hread, get_set] at hne
        exact hne (congrArg some (dropReturn_eq_self_iff.mpr (by decide)))
      rw [nameBytes_kdf] at hcolon
      rw [ht, ← opening, ← body_kdfName]
      refine Or.inr (Or.inr ⟨(List.prefix_append_right_inj _).mpr hcolon, ?_⟩)
      have hlt : part.length < (Field.body .kdf Layout.kdfName).length :=
        Nat.lt_of_le_of_ne hpart.length_le fun hlen => hshort (hpart.eq_of_length hlen)
      rw [List.length_append, List.length_append]
      omega

/-! ### What an exposed secret is loaded as -/

/-- A part of the name of the KDF is the name of another one. -/
theorem decodeLossy_ne_kdfName {raw : Bytes} (h : raw <+: Utf8.encode Layout.kdfName)
    (hne : raw ≠ Utf8.encode Layout.kdfName) :
    Bytes.dropFinal carriageReturn raw = raw ∧ Utf8.decodeLossy raw ≠ Layout.kdfName := by
  have hall : ∀ raw ∈ (Utf8.encode Layout.kdfName).inits, raw ≠ Utf8.encode Layout.kdfName →
      Bytes.dropFinal carriageReturn raw = raw ∧ Utf8.decodeLossy raw ≠ Layout.kdfName := by
    decide
  exact hall raw ((List.mem_inits raw _).mpr h) hne

/-- A part of the line of the KDF is read as another KDF. -/
theorem readBody_part_of_kdf {r : Record} (hget : r.get .kdf = none) {part : Bytes}
    (hpart : part <+: Field.body .kdf Layout.kdfName) (hcolon : Utf8.encode "kdf:" <+: part)
    (hne : part ≠ Field.body .kdf Layout.kdfName) :
    ∃ s : Field.kdf.kind.Value, s ≠ Layout.kdfName ∧ r.readBody part = .ok (r.set .kdf s) := by
  rcases cut_body hpart with hname | ⟨gap, raw, rfl, hgap, hraw, hsplit⟩
  · -- the name of the field is shorter than the name and the colon
    have hlen := (hcolon.trans hname).length_le
    exact absurd hlen (by decide)
  · have hshort : raw ≠ Utf8.encode Layout.kdfName := by
      rintro rfl
      rcases hsplit with hnil | rfl
      · exact absurd hnil (by decide)
      · exact hne (by decide)
    obtain ⟨hdrop, hs⟩ := decodeLossy_ne_kdfName hraw hshort
    refine ⟨Utf8.decodeLossy raw, hs, ?_⟩
    have happly : r.apply .kdf raw = .ok (r.set .kdf (Utf8.decodeLossy raw)) :=
      apply_eq_ok_iff.mpr ⟨_, rfl, hget, rfl⟩
    rw [readBody_value r .kdf hgap
      (fun b hb => sound_kdfName.2 b (head?_of_isPrefix hraw hb))
      (fun hmem => sound_kdfName.1 (hraw.subset hmem)) (fun hk => absurd hk (by decide)),
      hdrop, happly]
    rfl

theorem text_eq_opening {r : Record} {s : String} (h : r.get .kdf = some s) :
    r.text = r.opening ++
      (Field.body .kdf s ++ newline :: r.lines [.rounds, .salt, .checksum]) := by
  have hwritten : Field.written = Field.kdf.earlier ++ [.kdf, .rounds, .salt, .checksum] := by
    decide
  rw [text_eq, hwritten, lines_append, lines_cons_of_some h, opening, textUpTo]
  simp

/-- A record has the version, the secret and the identifier of another one, and not the KDF of
wrapped secrets. -/
structure KeepsOpening (r r' : Record) : Prop where
  kdf : r'.get .kdf ≠ some Layout.kdfName
  values : ∀ f ∈ Field.kdf.earlier, r'.get f = r.get f

section

variable {r : Record}

/-- A container that is cut off at the newline of the identifier is read with all lines before
its KDF. -/
theorem Faithful.parse_opening_dropLast (hr : r.Faithful) {v : Field.id.kind.Value}
    (hid : r.get .id = some v) :
    ∃ r', (Record.parse (.ofBytes r.opening.dropLast)).result = .ok r' ∧
      r.KeepsOpening r' := by
  have hnone : (empty.fill r Field.id.earlier).get .id = none :=
    get_fill_earlier_of_not_mem r (by decide)
  have hnoKdf : (empty.fill r Field.id.earlier).get .kdf = none :=
    get_fill_earlier_of_not_mem r (by decide)
  have hne : Field.body .id v ≠ [] := by simp [Field.body, Field.label_eq]
  -- the line of the identifier lacks only its newline, so all of it is read
  rw [opening_eq hid, List.dropLast_concat, hr.parse_part hid (List.prefix_refl _) hne,
    readBody_body _ (hr.wellFormed .id v hid) hnone]
  refine ⟨_, rfl, ?_, ?_⟩
  · rw [get_set_of_ne _ (by decide), hnoKdf]
    intro hsome
    cases hsome
  · intro f hf
    by_cases hfid : f = .id
    · subst hfid
      rw [get_set, hid]
      rfl
    · have hmem : f ∈ Field.id.earlier := by
        cases f <;> first | exact absurd rfl hfid | exact absurd hf (by decide) | decide
      rw [get_set_of_ne _ hfid, get_fill_earlier_of_mem r hmem]

/-- The lines before the KDF are read as they are. -/
theorem Faithful.parse_opening (hr : r.Faithful) :
    ∃ r', (Record.parse (.ofBytes r.opening)).result = .ok r' ∧ r.KeepsOpening r' := by
  have hparse := hr.parse_textUpTo .kdf []
  rw [List.append_nil, readLines_nil] at hparse
  refine ⟨empty.fill r Field.kdf.earlier, hparse, ?_, ?_⟩
  · rw [get_fill_earlier_of_not_mem r (by decide)]
    intro hsome
    cases hsome
  · intro f hf
    exact get_fill_earlier_of_mem r hf

/-- The lines before the KDF are read together with a part of its line, as those of another
KDF. -/
theorem Faithful.parse_opening_append (hr : r.Faithful) (hkdf : r.kdf = some Layout.kdfName)
    {part : Bytes} (hpart : part <+: Field.body .kdf Layout.kdfName)
    (hcolon : Utf8.encode "kdf:" <+: part) (hshort : part ≠ Field.body .kdf Layout.kdfName) :
    ∃ r', (Record.parse (.ofBytes (r.opening ++ part))).result = .ok r' ∧
      r.KeepsOpening r' := by
  have hnone : (empty.fill r Field.kdf.earlier).get .kdf = none :=
    get_fill_earlier_of_not_mem r (by decide)
  obtain ⟨s, hs, hread⟩ := readBody_part_of_kdf hnone hpart hcolon hshort
  have hne : part ≠ [] := by
    rintro rfl
    exact absurd hcolon.length_le (by decide)
  have hparse := hr.parse_part (f := .kdf) hkdf hpart hne
  rw [hread] at hparse
  refine ⟨(empty.fill r Field.kdf.earlier).set .kdf s, hparse, ?_, ?_⟩
  · rw [get_set]
    intro heq
    exact hs (Option.some.inj heq)
  · intro f hf
    have hne : f ≠ .kdf := by
      rintro rfl
      exact absurd hf (by decide)
    rw [get_set_of_ne _ hne, get_fill_earlier_of_mem r hf]

/-- What an exposing cut leaves is read, and it has everything that a plaintext key needs. -/
theorem Exposes.parse (hr : r.Faithful) {t : Bytes} (h : r.Exposes t) (ht : t <+: r.text)
    {v : Field.id.kind.Value} (hid : r.get .id = some v) :
    ∃ r', (Record.parse (.ofBytes t)).result = .ok r' ∧ r.KeepsOpening r' := by
  obtain ⟨hkdf, rfl | rfl | ⟨hpre, hlen⟩⟩ := h
  · exact hr.parse_opening_dropLast hid
  · exact hr.parse_opening
  · obtain ⟨u, rfl⟩ := hpre
    rw [text_eq_opening hkdf, List.append_assoc] at ht
    rw [List.append_assoc]
    have hlen' : (Utf8.encode "kdf:" ++ u).length < (Field.body .kdf Layout.kdfName).length := by
      rw [body_kdfName]
      simp only [List.length_append] at hlen ⊢
      omega
    -- what is left after the opening is too short to reach beyond the line of the KDF
    have hpart : Utf8.encode "kdf:" ++ u <+: Field.body .kdf Layout.kdfName := by
      rcases prefix_append_or ((List.prefix_append_right_inj _).mp ht) with hpart | ⟨w, hw, -⟩
      · exact hpart
      · rw [hw, List.length_append] at hlen'
        omega
    have hshort : Utf8.encode "kdf:" ++ u ≠ Field.body .kdf Layout.kdfName := by
      intro heq
      rw [heq] at hlen'
      exact Nat.lt_irrefl _ hlen'
    exact hr.parse_opening_append hkdf hpart (List.prefix_append _ u) hshort

end

end Record

namespace SecretKey

/-! ### Loading what is left -/

/-- An exposing cut is loaded as the wrapped secret, whatever is required and whoever is asked. -/
theorem load_exposed {r : Record} (hr : r.Faithful) {bytes t id : Bytes}
    (hbytes : r.encode = .ok bytes) (ht : t <+: bytes) (hid : r.id = some id)
    (hexposes : r.Exposes t) :
    ∃ blob, r.data = some blob ∧ ∀ source settings loading, ∃ locked,
      (load (.ofBytes t) source settings loading).result = .ok ⟨blob, id, locked⟩ := by
  obtain ⟨⟨shape, hshape⟩, rfl⟩ := Record.encode_eq_ok_iff.mp hbytes
  obtain ⟨r', hparse, hkeeps⟩ := hexposes.parse hr ht hid
  have hversion : r'.version = r.version := hkeeps.values .version (by decide)
  have hid' : r'.id = r.id := hkeeps.values .id (by decide)
  have hdata' : r'.data = r.data := hkeeps.values .data (by decide)
  -- the record that was written is an encrypted one, so it has a version and a secret
  obtain ⟨hone, hencrypted⟩ := Record.shape_eq_ok_iff.mp hshape
  rw [if_pos hexposes.1, Record.encryptedShape_eq_ok_iff] at hencrypted
  obtain ⟨-, -, -, -, hsome, -⟩ := hencrypted
  obtain ⟨blob, hblob⟩ := Option.isSome_iff_exists.mp hsome
  have hlen : blob.length = Layout.secretLength := hr.wellFormed .data blob hblob
  refine ⟨blob, hblob, ?_⟩
  intro source settings loading
  obtain ⟨hplain, htake⟩ := (Record.takes_iff (Record.wellFormed_parse hparse)
    ⟨blob, id, settings.lockMemory⟩).mpr
    ⟨hversion.trans hone, hid'.trans hid, hlen, rfl, hkeeps.kdf, hdata'.trans hblob⟩
  refine ⟨settings.lockMemory, ?_⟩
  rw [result_load hparse hplain]
  exact htake

/-- A key from the beginning of a container that was written is the original one, unless the cut
exposes the wrapped secret.  Then that is handed out, whatever is required and whoever is asked. -/
theorem load_cut_container {secret id : Bytes} {r : Record} {source : Option PasswordSource}
    (hr : Record.plain secret id = .ok r ∨
      ∃ password rounds entropy,
        (Record.wrap secret id password rounds entropy).result = .ok r ∧
          (source = none ∨ source = some (.fixed password)))
    {bytes t : Bytes} (hbytes : r.encode = .ok bytes) (ht : t <+: bytes)
    (settings : LoadSettings) (loading : Entropy) :
    (¬ r.Exposes t → ∀ key, (load (.ofBytes t) source settings loading).result = .ok key →
        key.data = secret ∧ key.id = id) ∧
      (r.Exposes t → ∃ blob, r.data = some blob ∧ ∀ asked required random, ∃ locked,
        (load (.ofBytes t) asked required random).result = .ok ⟨blob, id, locked⟩) := by
  have hfaithful : r.Faithful := by
    rcases hr with hplain | ⟨password, rounds, entropy, hwrap, -⟩
    · exact Record.faithful_plain hplain
    · exact Record.faithful_wrap hwrap
  have hid : r.id = some id := by
    rcases hr with hplain | ⟨password, rounds, entropy, hwrap, -⟩
    · obtain ⟨-, -, rfl⟩ := Record.plain_eq_ok_iff.mp hplain
      rfl
    · obtain ⟨-, -, -, -, rfl⟩ := Record.wrap_eq_ok_iff.mp hwrap
      rfl
  refine ⟨?_, ?exposed⟩
  case exposed =>
    intro hexposes
    exact load_exposed hfaithful hbytes ht hid hexposes
  intro hhidden key hkey
  obtain ⟨-, rfl⟩ := Record.encode_eq_ok_iff.mp hbytes
  obtain ⟨r', hparse, hunlock⟩ := load_eq_ok_iff_unlock.mp hkey
  obtain ⟨-, hkeyid, -, -, hxor⟩ :=
    (Record.unlocks_iff (Record.wellFormed_parse hparse)).mp hunlock
  have hcut := Record.cutReading_of_parse hfaithful ht hparse
  have hsameid : key.id = id :=
    Option.some.inj ((hcut.get_hex (f := .id) rfl hkeyid).symm.trans hid)
  refine ⟨?_, hsameid⟩
  rcases hxor with ⟨⟨hkdf, hdata⟩, -⟩ | ⟨hopens, -⟩
  · -- nothing was unwrapped
    have hstored : r.data = some key.data := hcut.get_hex (f := .data) rfl hdata
    rcases hr with hplain | ⟨password, rounds, entropy, hwrap, -⟩
    · obtain ⟨-, -, rfl⟩ := Record.plain_eq_ok_iff.mp hplain
      exact (Option.some.inj hstored).symm
    · obtain ⟨-, -, -, -, rfl⟩ := Record.wrap_eq_ok_iff.mp hwrap
      exact absurd (hcut.exposes rfl hkeyid hkdf) hhidden
  · -- the checksum is there, so nothing is missing
    have hwhole : r' = r := by
      obtain ⟨-, _, -, -, -, _, _, -, -, _, _, -, -, -, hchecksum⟩ := hopens
      exact hcut.eq_of_checksum hchecksum
    subst hwhole
    rcases hr with hplain | ⟨password, rounds, entropy, hwrap, hsource⟩
    · obtain ⟨-, -, rfl⟩ := Record.plain_eq_ok_iff.mp hplain
      cases hopens.1
    · rcases hsource with rfl | rfl
      · obtain ⟨-, _, -, -, -, _, _, hasked, -⟩ := hopens
        cases hasked
      · exact ((Record.opensUnder_fixed_iff hwrap).mp hopens).2.2

/-! ### A secret of zeros -/

/-- A secret of zeros under a password of one byte. -/
def wrappedZeros : Record :=
  Record.wrappedWith (List.replicate 64 0) (List.replicate 8 0) [97] 1 ⟨fun _ => 0⟩

theorem wrap_zeros : (Record.wrap (List.replicate 64 0) (List.replicate 8 0) [97] 1
    ⟨fun _ => 0⟩).result = .ok wrappedZeros :=
  Record.wrap_eq_ok_iff.mpr ⟨rfl, rfl, by decide, by decide, rfl⟩

theorem encode_wrappedZeros : wrappedZeros.encode = .ok wrappedZeros.text :=
  Record.encode_eq_ok_iff.mpr ⟨⟨.encrypted, Record.shape_wrappedWith _ _ _ _ (by decide)⟩, rfl⟩

theorem opening_isPrefix : wrappedZeros.opening <+: wrappedZeros.text := by
  rw [Record.text_eq_opening (r := wrappedZeros) rfl]
  exact List.prefix_append _ _

theorem exposes_opening : wrappedZeros.Exposes wrappedZeros.opening := ⟨rfl, Or.inr (Or.inl rfl)⟩

theorem load_opening_of_zeros :
    (Record.wrap (List.replicate 64 0) (List.replicate 8 0) [97] 1 ⟨fun _ => 0⟩).result =
        .ok wrappedZeros ∧
      wrappedZeros.encode = .ok wrappedZeros.text ∧
      wrappedZeros.opening <+: wrappedZeros.text ∧
      ∃ blob, wrappedZeros.data = some blob ∧ ∀ asked required random, ∃ locked,
        (load (.ofBytes wrappedZeros.opening) asked required random).result =
          .ok ⟨blob, List.replicate 8 0, locked⟩ := by
  have hspec := @load_cut_container (List.replicate 64 0) (List.replicate 8 0) wrappedZeros none
    (Or.inr ⟨[97], 1, ⟨fun _ => 0⟩, wrap_zeros, Or.inl rfl⟩) _ _ encode_wrappedZeros
    opening_isPrefix .standard ⟨fun _ => 0⟩
  exact ⟨wrap_zeros, encode_wrappedZeros, opening_isPrefix, hspec.2 exposes_opening⟩

/-- The lines before the KDF of a wrapped secret are loaded as a secret that is not the original
one. -/
theorem exists_prefix_with_wrapped_secret :
    ∃ r bytes t key,
      (Record.wrap (List.replicate 64 0) (List.replicate 8 0) [97] 1 ⟨fun _ => 0⟩).result =
        .ok r ∧ r.encode = .ok bytes ∧ t <+: bytes ∧
      (load (.ofBytes t) (some (.fixed [97])) ⟨1, 64, false⟩ ⟨fun _ => 0⟩).result = .ok key ∧
      key.data ≠ List.replicate 64 0 := by
  obtain ⟨blob, hblob, hall⟩ := load_exposed (Record.faithful_wrap wrap_zeros)
    encode_wrappedZeros opening_isPrefix rfl exposes_opening
  obtain ⟨locked, hload⟩ := hall (some (.fixed [97])) ⟨1, 64, false⟩ ⟨fun _ => 0⟩
  refine ⟨_, _, _, _, wrap_zeros, encode_wrappedZeros, opening_isPrefix, hload, ?_⟩
  have hwrapped : wrappedZeros.data ≠ some (List.replicate 64 0) := by decide +kernel
  rintro rfl
  exact hwrapped hblob

end SecretKey

end SigningKeys
