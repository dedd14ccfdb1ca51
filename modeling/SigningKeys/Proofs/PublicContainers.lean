import Mathlib.Data.List.DropRight
import Mathlib.Data.List.Induction
import SigningKeys.Proofs.Base64
import SigningKeys.Proofs.FieldText
import SigningKeys.Public.Container

/-!
# Public containers written and read

The text of a public container is its beginning, its version and its two parts.  A reader accepts
this text and few others: zeros may stand in front of the version, and blanks behind the end.  So a
container is read back from its text whatever its format is, and a text without these additions is
the only one of its container.

The parts need no care for what surrounds them.  The beginning is known, so it may end in a digit or
hold a colon; the version ends at the first byte that is no digit; and Base64 text has neither
colons nor blanks.

## Main definitions

* `Decimal.zeros`: zeros in front of a number.
* `Public.Container.Fits`: containers that a format admits.
* `Public.Container.IsText`: the texts that stand for a container.
* `Public.Container.IsPlain`: texts without leading zeros and without blanks at their end.

## Main results

* `Decimal.word_eq_some_iff_zeros`: the strings of digits that denote a word.
* `Public.Container.load_eq_ok_iff_isText`: a reader accepts the texts of fitting containers.
* `Public.Container.IsText.isPlain_iff`: the plain text of a container is the one written for it.
* `Public.Container.load_encode`: **a container is read back from its text.**
* `Public.Container.load_canonical`: **a text is read as the container that it stands for, or not at
  all, and plain texts of one container are equal.**
-/

namespace SigningKeys

open Byte

/-! ### Numbers with leading zeros -/

namespace Decimal

/-- Zeros in front of a number. -/
def zeros (n : ℕ) : Bytes := List.replicate n 48

theorem zeros_succ (n : ℕ) : zeros (n + 1) = 48 :: zeros n := rfl

theorem zeros_concat (n : ℕ) : zeros n ++ [48] = zeros (n + 1) := List.replicate_succ'.symm

theorem isDigit_of_mem_zeros {n : ℕ} {b : UInt8} (h : b ∈ zeros n) : isDigit b = true := by
  rw [(List.mem_replicate.mp h).2]
  rfl

/-- A number with zeros in front is a string of digits, and not an empty one. -/
theorem isDigit_of_mem_zeros_append {n m : ℕ} {b : UInt8} (h : b ∈ zeros n ++ digits m) :
    isDigit b = true :=
  (List.mem_append.mp h).elim isDigit_of_mem_zeros isDigit_of_mem_digits

theorem zeros_append_ne_nil (n m : ℕ) : zeros n ++ digits m ≠ [] :=
  List.append_ne_nil_of_right_ne_nil _ (digits_ne_nil m)

/-- Leading zeros do not count. -/
theorem value_zeros_append (n : ℕ) (ds : Bytes) : value (zeros n ++ ds) = value ds := by
  induction n with
  | zero => rfl
  | succ n ih => exact ih

/-- A string of digits is its number with zeros in front. -/
theorem exists_zeros {ds : Bytes} (hne : ds ≠ []) (hdigits : ∀ b ∈ ds, isDigit b = true) :
    ∃ n, ds = zeros n ++ digits (value ds) := by
  induction ds using List.reverseRecOn with
  | nil => exact absurd rfl hne
  | append_singleton ds d ih =>
    have hd : 48 ≤ d.toNat ∧ d.toNat ≤ 57 := by
      have h := hdigits d (List.mem_append_right _ List.mem_cons_self)
      simpa [isDigit, UInt8.le_iff_toNat_le] using h
    have hlast : [UInt8.ofNat (48 + (d.toNat - 48))] = [d] := by
      rw [Nat.add_sub_cancel' hd.1, UInt8.ofNat_toNat]
    rw [value_concat]
    by_cases hzero : value ds = 0
    · -- all digits before the last are zeros
      have hzeros : ∃ n, ds = zeros n := by
        by_cases hds : ds = []
        · exact ⟨0, hds⟩
        · obtain ⟨n, hn⟩ := ih hds fun b hb => hdigits b (List.mem_append_left _ hb)
          rw [hzero, digits_of_lt (by decide)] at hn
          exact ⟨n + 1, hn.trans (zeros_concat n)⟩
      obtain ⟨n, hn⟩ := hzeros
      refine ⟨n, ?_⟩
      rw [hzero, digits_of_lt (by omega), Nat.mul_zero, Nat.zero_add, hlast, hn]
    · have hds : ds ≠ [] := by
        rintro rfl
        exact hzero rfl
      obtain ⟨n, hn⟩ := ih hds fun b hb => hdigits b (List.mem_append_left _ hb)
      have hdiv : (10 * value ds + (d.toNat - 48)) / 10 = value ds := by omega
      have hmod : (10 * value ds + (d.toNat - 48)) % 10 = d.toNat - 48 := by omega
      refine ⟨n, ?_⟩
      rw [digits_of_ge (by omega), hdiv, hmod, hlast, ← List.append_assoc, ← hn]

/-- A written number starts with a zero only if it is zero. -/
theorem eq_nil_of_digits_eq {n : ℕ} {ds : Bytes} (h : digits n = 48 :: ds) : ds = [] := by
  by_contra hne
  have hvalue : value ds = n := by
    rw [← value_zeros_append 1, ← value_digits n, h]
    rfl
  have hdigits : ∀ b ∈ ds, isDigit b = true := fun b hb =>
    isDigit_of_mem_digits (h ▸ List.mem_cons_of_mem 48 hb)
  -- the other digits would denote the number too, and be no fewer
  obtain ⟨k, hk⟩ := exists_zeros hne hdigits
  rw [hvalue, h] at hk
  have hlen := congrArg List.length hk
  rw [List.length_append, List.length_cons] at hlen
  omega

/-- The strings of digits that denote a word: its number, with any zeros in front. -/
theorem word_eq_some_iff_zeros {ds : Bytes} (hne : ds ≠ [])
    (hdigits : ∀ b ∈ ds, isDigit b = true) {w : UInt32} :
    word ds = some w ↔ ∃ n, ds = zeros n ++ digits w.toNat := by
  rw [word_eq_some_iff]
  constructor
  · rintro ⟨hfits, rfl⟩
    obtain ⟨n, hn⟩ := exists_zeros hne hdigits
    rw [UInt32.toNat_ofNat_of_lt' hfits]
    exact ⟨n, hn⟩
  · rintro ⟨n, rfl⟩
    rw [value_zeros_append, value_digits]
    exact ⟨w.toNat_lt, UInt32.ofNat_toNat.symm⟩

end Decimal

/-! ### Blanks at the end -/

namespace Bytes

theorem trimBlanks_eq (bs : Bytes) : trimBlanks bs = bs.rdropWhile isBlank := rfl

theorem exists_blanks (bs : Bytes) :
    ∃ blanks, bs = trimBlanks bs ++ blanks ∧ ∀ b ∈ blanks, isBlank b = true :=
  ⟨bs.rtakeWhile isBlank, (List.rdropWhile_append_rtakeWhile ..).symm,
    fun _ hb => List.mem_rtakeWhile_imp hb⟩

/-- The blanks behind a text without blanks are taken off, and nothing else. -/
theorem trimBlanks_append {bs blanks : Bytes} (hbs : ∀ b ∈ bs, isBlank b = false)
    (hblanks : ∀ b ∈ blanks, isBlank b = true) : trimBlanks (bs ++ blanks) = bs := by
  have hdrop : trimBlanks (bs ++ blanks) = trimBlanks bs := by
    rw [trimBlanks, List.reverse_append,
      List.dropWhile_append_of_pos fun b hb => hblanks b (List.mem_reverse.mp hb), trimBlanks]
  rw [hdrop, trimBlanks_eq, List.rdropWhile_eq_self_iff]
  intro hne
  rw [hbs _ (List.getLast_mem hne)]
  exact Bool.false_ne_true

end Bytes

namespace Public

/-! ### Texts of containers -/

namespace Container

/-- A container that a format admits. -/
structure Fits (c : Container) (format : Format) : Prop where
  /-- The version is not too low. -/
  minVersion : format.minVersion ≤ c.version
  /-- The version is not too high. -/
  maxVersion : c.version ≤ format.maxVersion
  /-- The identifier has the right length. -/
  idLength : c.id.length = format.idLength
  /-- The key or signature has the right length. -/
  dataLength : c.data.length = format.dataLength

/-- The texts that stand for a container: zeros may stand in front of its version, and blanks at
the end. -/
def IsText (c : Container) (magic : String) (text : Bytes) : Prop :=
  ∃ n blanks, (∀ b ∈ blanks, isBlank b = true) ∧
    text = Utf8.encode magic ++ Decimal.zeros n ++ Decimal.digits c.version.toNat ++
      colon :: Base64.encode c.id ++ colon :: Base64.encode c.data ++ blanks

theorem encode_eq (c : Container) (magic : String) :
    c.encode magic = Utf8.encode magic ++ (Decimal.digits c.version.toNat ++
      colon :: (Base64.encode c.id ++ colon :: Base64.encode c.data)) := by
  simp [encode]

/-- The text of a container stands for it, and so does the text with blanks at its end. -/
theorem isText_encode (c : Container) (magic : String) {blanks : Bytes}
    (hblanks : ∀ b ∈ blanks, isBlank b = true) : c.IsText magic (c.encode magic ++ blanks) := by
  refine ⟨0, blanks, hblanks, ?_⟩
  simp [encode, Decimal.zeros]

/-! ### Reading -/

variable {format : Format}

theorem admits_iff {version : UInt32} :
    format.admits version = true ↔
      format.minVersion ≤ version ∧ version ≤ format.maxVersion := by
  rw [Format.admits, Bool.and_eq_true, decide_eq_true_eq, decide_eq_true_eq]

theorem make_eq_ok_iff {version : UInt32} {id data : Bytes} {c : Container} :
    make format version id data = .ok c ↔ c = ⟨version, id, data⟩ ∧ c.Fits format := by
  rw [make]
  constructor
  · intro h
    split at h
    · next hadmits =>
      obtain ⟨hmin, hmax⟩ := admits_iff.mp hadmits
      split at h
      · next hlength =>
        cases h
        exact ⟨rfl, hmin, hmax, hlength.1, hlength.2⟩
      · cases h
    · cases h
  · rintro ⟨rfl, hfits⟩
    rw [if_pos (admits_iff.mpr ⟨hfits.minVersion, hfits.maxVersion⟩),
      if_pos ⟨hfits.idLength, hfits.dataLength⟩]

theorem afterMagic_eq_ok_iff {text rest : Bytes} :
    afterMagic format text = .ok rest ↔ rest ≠ [] ∧ text = Utf8.encode format.magic ++ rest := by
  simp only [afterMagic]
  constructor
  · intro h
    split at h
    · next hmagic =>
      obtain ⟨hlong, hprefix⟩ := hmagic
      obtain ⟨tail, rfl⟩ := List.isPrefixOf_iff_prefix.mp hprefix
      rw [List.drop_left, Except.ok.injEq] at h
      subst h
      rw [List.length_append] at hlong
      exact ⟨List.ne_nil_of_length_pos (by omega), rfl⟩
    · cases h
  · rintro ⟨hne, rfl⟩
    have hpos := List.length_pos_iff.mpr hne
    rw [if_pos, List.drop_left]
    exact ⟨by rw [List.length_append]; omega,
      List.isPrefixOf_iff_prefix.mpr (List.prefix_append _ _)⟩

/-- The version is the number up to the first byte that is no digit. -/
theorem readVersion_eq_ok_iff {text rest : Bytes} {version : UInt32} :
    readVersion format text = .ok (version, rest) ↔
      format.admits version = true ∧
        ∃ n, text = Decimal.zeros n ++ Decimal.digits version.toNat ++ colon :: rest := by
  constructor
  · intro h
    unfold readVersion at h
    split at h
    · next d ds b rest' hdigits hrest =>
      have hall : ∀ b ∈ d :: ds, isDigit b = true := by
        intro b hb
        exact List.mem_takeWhile_imp (hdigits ▸ hb)
      have htext : text = d :: ds ++ b :: rest' := by
        rw [← hdigits, ← hrest, List.takeWhile_append_dropWhile]
      split at h
      · next hcolon =>
        split at h
        · cases h
        · next version' hword =>
          split at h
          · next hadmits =>
            cases h
            obtain ⟨n, hn⟩ :=
              (Decimal.word_eq_some_iff_zeros (List.cons_ne_nil d ds) hall).mp hword
            exact ⟨hadmits, n, by rw [htext, hn, hcolon]⟩
          · cases h
      · cases h
    · cases h
  · rintro ⟨hadmits, n, rfl⟩
    have hall : ∀ b ∈ Decimal.zeros n ++ Decimal.digits version.toNat, isDigit b = true :=
      fun _ => Decimal.isDigit_of_mem_zeros_append
    have hne := Decimal.zeros_append_ne_nil n version.toNat
    have hword := (Decimal.word_eq_some_iff_zeros hne hall).mpr ⟨n, rfl⟩
    obtain ⟨d, ds, hds⟩ := List.exists_cons_of_ne_nil hne
    have hcolon : isDigit colon = false := rfl
    unfold readVersion
    rw [Bytes.takeWhile_run hall hcolon, Bytes.dropWhile_run hall hcolon, hds]
    rw [hds] at hword
    simp only [if_true, hword, hadmits]

theorem splitParts_eq_ok_iff {text front rest : Bytes} :
    splitParts text = .ok (front, rest) ↔ colon ∉ front ∧ text = front ++ colon :: rest := by
  constructor
  · intro h
    unfold splitParts at h
    split at h
    · cases h
    · next b rest' hdrop =>
      cases h
      have hb : b = colon := by
        have hnot := List.head?_dropWhile_not (fun b => decide (b ≠ colon)) text
        rw [hdrop] at hnot
        simpa using hnot
      subst hb
      refine ⟨?_, ?_⟩
      · intro hmem
        have := List.mem_takeWhile_imp hmem
        simp at this
      · rw [← hdrop, List.takeWhile_append_dropWhile]
  · rintro ⟨hfront, rfl⟩
    have hrun : ∀ b ∈ front, decide (b ≠ colon) = true := by
      intro b hb
      rw [decide_eq_true_eq]
      rintro rfl
      exact hfront hb
    unfold splitParts
    rw [Bytes.dropWhile_run hrun (by decide), Bytes.takeWhile_run hrun (by decide)]

theorem readPart_eq_ok_iff {part : PublicPart} {length : ℕ} {text bs : Bytes} :
    readPart part length text = .ok bs ↔ Base64.encode bs = text ∧ bs.length = length := by
  rw [← Base64.decode_eq_some_iff, readPart]
  cases Base64.decode text with
  | none => simp
  | some bs' =>
    simp only [Option.some.injEq]
    split
    · next hlength =>
      rw [Except.ok.injEq]
      constructor
      · rintro rfl
        exact ⟨rfl, hlength⟩
      · exact fun h => h.1
    · next hlength =>
      simp only [reduceCtorEq, false_iff]
      rintro ⟨rfl, h⟩
      exact hlength h

/-- A reader accepts the texts of those containers that its format admits. -/
theorem load_eq_ok_iff_isText {text : Bytes} {c : Container} :
    load format text = .ok c ↔ c.IsText format.magic text ∧ c.Fits format := by
  simp only [load, exceptBind_eq_ok_iff, Prod.exists, afterMagic_eq_ok_iff,
    readVersion_eq_ok_iff, splitParts_eq_ok_iff, readPart_eq_ok_iff]
  constructor
  · rintro ⟨afterMagic, ⟨-, hmagic⟩, version, afterVersion, ⟨hadmits, n, hversion⟩, idText,
      dataText, ⟨-, hparts⟩, id, ⟨hid, hidLength⟩, data, ⟨hdata, hdataLength⟩, hc⟩
    cases hc
    obtain ⟨hmin, hmax⟩ := admits_iff.mp hadmits
    obtain ⟨blanks, hdataText, hblanks⟩ := Bytes.exists_blanks dataText
    refine ⟨⟨n, blanks, hblanks, ?_⟩, hmin, hmax, hidLength, hdataLength⟩
    rw [hmagic, hversion, hparts, hdataText, hid, hdata]
    simp only [List.append_assoc, List.cons_append]
  · rintro ⟨⟨n, blanks, hblanks, htext⟩, hfits⟩
    have hgraphic : ∀ b ∈ Base64.encode c.data, isBlank b = false := fun b hb =>
      isBlank_of_isGraphic (Base64.visible_of_mem_encode hb).1
    have htrim : Bytes.trimBlanks (Base64.encode c.data ++ blanks) = Base64.encode c.data :=
      Bytes.trimBlanks_append hgraphic hblanks
    refine ⟨Decimal.zeros n ++ Decimal.digits c.version.toNat ++ colon ::
        (Base64.encode c.id ++ colon :: (Base64.encode c.data ++ blanks)), ⟨by simp, ?_⟩,
      c.version, _, ⟨admits_iff.mpr ⟨hfits.minVersion, hfits.maxVersion⟩, n, rfl⟩,
      Base64.encode c.id, Base64.encode c.data ++ blanks, ⟨Base64.colon_not_mem_encode c.id, rfl⟩,
      c.id, ⟨rfl, hfits.idLength⟩, c.data, ⟨htrim.symm, hfits.dataLength⟩, rfl⟩
    rw [htext]
    simp only [List.append_assoc, List.cons_append]

/-- A container that a caller can come by fits its format. -/
theorem Fits.of_made {c : Container} (h : (∃ version id data, make format version id data = .ok c) ∨
    ∃ text, load format text = .ok c) : c.Fits format := by
  rcases h with ⟨version, id, data, hmake⟩ | ⟨text, hload⟩
  · exact (make_eq_ok_iff.mp hmake).2
  · exact (load_eq_ok_iff_isText.mp hload).2

/-- A container is read back from its text, whatever blanks follow it. -/
theorem load_encode (format : Format) (c : Container)
    (h : (∃ version id data, make format version id data = .ok c) ∨
      ∃ text, load format text = .ok c)
    {blanks : Bytes} (hblanks : ∀ b ∈ blanks, isBlank b = true) :
    load format (c.encode format.magic ++ blanks) = .ok c :=
  load_eq_ok_iff_isText.mpr ⟨c.isText_encode format.magic hblanks, Fits.of_made h⟩

/-- The beginning may hold a colon and end in a digit, and there may be no identifier. -/
theorem load_encode_behind_digits :
    make ⟨"v:10", 0, 7, 0, 1⟩ 0 [] [255] = .ok ⟨0, [], [255]⟩ ∧
      load ⟨"v:10", 0, 7, 0, 1⟩ (encode ⟨0, [], [255]⟩ "v:10" ++ [13, 10]) =
        .ok ⟨0, [], [255]⟩ := by
  have hmake : make ⟨"v:10", 0, 7, 0, 1⟩ 0 [] [255] = .ok ⟨0, [], [255]⟩ := by decide
  have hblanks : ∀ b ∈ ([13, 10] : Bytes), isBlank b = true :=
    List.forall_mem_cons.mpr ⟨rfl, List.forall_mem_singleton.mpr rfl⟩
  exact ⟨hmake, load_encode _ _ (.inl ⟨0, [], [255], hmake⟩) hblanks⟩

/-! ### Plain texts -/

/-- No zero stands in front of the number that follows the magic, and no blank at the end. -/
structure IsPlain (magic : String) (text : Bytes) : Prop where
  /-- A zero behind the magic is the whole number. -/
  zero : ∀ b rest, text = Utf8.encode magic ++ 48 :: b :: rest → isDigit b = false
  /-- The last byte is no blank. -/
  last : ∀ b, text.getLast? = some b → isBlank b = false

theorem isPlain_encode (c : Container) (magic : String) : IsPlain magic (c.encode magic) := by
  constructor
  · intro b rest h
    rw [encode_eq] at h
    have hrest := List.append_cancel_left h
    obtain ⟨d, ds, hds⟩ := List.exists_cons_of_ne_nil (Decimal.digits_ne_nil c.version.toNat)
    rw [hds, List.cons_append, List.cons.injEq] at hrest
    obtain ⟨rfl, hrest⟩ := hrest
    rw [Decimal.eq_nil_of_digits_eq hds, List.nil_append, List.cons.injEq] at hrest
    exact hrest.1 ▸ rfl
  · intro b hb
    rw [encode, List.getLast?_append_of_ne_nil _ (List.cons_ne_nil _ _)] at hb
    rcases List.mem_cons.mp (List.mem_of_getLast? hb) with rfl | hmem
    · exact isBlank_colon
    · exact isBlank_of_isGraphic (Base64.visible_of_mem_encode hmem).1

/-- Of the texts of a container, the one that is written for it is plain, and no other. -/
theorem IsText.isPlain_iff {c : Container} {magic : String} {text : Bytes}
    (h : c.IsText magic text) : IsPlain magic text ↔ text = c.encode magic := by
  refine ⟨fun hplain => ?_, fun htext => htext ▸ c.isPlain_encode magic⟩
  obtain ⟨n, blanks, hblanks, htext⟩ := h
  have hzeros : n = 0 := by
    cases n with
    | zero => rfl
    | succ n =>
      -- another zero or the number itself follows the first zero
      obtain ⟨d, ds, hds⟩ :=
        List.exists_cons_of_ne_nil (Decimal.zeros_append_ne_nil n c.version.toNat)
      have hd : isDigit d = true :=
        Decimal.isDigit_of_mem_zeros_append (hds ▸ List.mem_cons_self)
      have hfirst : text = Utf8.encode magic ++ 48 :: d :: (ds ++
          colon :: Base64.encode c.id ++ colon :: Base64.encode c.data ++ blanks) := by
        rw [htext, Decimal.zeros_succ, List.append_assoc (Utf8.encode magic), List.cons_append,
          hds]
        simp only [List.append_assoc, List.cons_append]
      rw [hplain.zero d _ hfirst] at hd
      cases hd
  have hnil : blanks = [] := by
    cases blanks using List.reverseRecOn with
    | nil => rfl
    | append_singleton blanks b =>
      have hb := hblanks b (List.mem_append_right blanks List.mem_cons_self)
      rw [hplain.last b (by rw [htext, ← List.append_assoc, List.getLast?_concat])] at hb
      cases hb
  rw [htext, hzeros, hnil]
  simp [encode, Decimal.zeros]

/-- A reader accepts the texts of the containers that its format admits and refuses all others; what
it reads can be made from its parts.  Plain texts that are read as one container are equal. -/
theorem load_canonical (format : Format) (text : Bytes) :
    (∀ c : Container, load format text = .ok c ↔ c.IsText format.magic text ∧ c.Fits format) ∧
      (∀ c, load format text = .ok c → make format c.version c.id c.data = .ok c) ∧
      ((∀ c : Container, c.Fits format → ¬ c.IsText format.magic text) →
        ∃ fault, load format text = .error fault) ∧
      ∀ text' c, IsPlain format.magic text → IsPlain format.magic text' →
        load format text = .ok c → load format text' = .ok c → text = text' := by
  refine ⟨fun c => load_eq_ok_iff_isText, ?_, ?_, ?_⟩
  · intro c h
    exact make_eq_ok_iff.mpr ⟨rfl, (load_eq_ok_iff_isText.mp h).2⟩
  · intro hnone
    cases hload : load format text with
    | error fault => exact ⟨fault, rfl⟩
    | ok c =>
      obtain ⟨htext, hfits⟩ := load_eq_ok_iff_isText.mp hload
      exact absurd htext (hnone c hfits)
  · intro text' c hplain hplain' h h'
    rw [(load_eq_ok_iff_isText.mp h).1.isPlain_iff.mp hplain,
      (load_eq_ok_iff_isText.mp h').1.isPlain_iff.mp hplain']

-- zeros and blanks are passed over, but bits of the last symbol that no byte takes are not
example : load ⟨"v:", 0, 7, 0, 1⟩ (Utf8.encode "v:007::/w==\n") = .ok ⟨7, [], [255]⟩ := by decide

example : load ⟨"v:", 0, 7, 0, 1⟩ (Utf8.encode "v:7::/x==") = .error (.notBase64 .data) := by
  decide

end Container

end Public

end SigningKeys
