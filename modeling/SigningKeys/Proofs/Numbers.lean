import Mathlib.Data.Nat.Digits.Defs
import SigningKeys.Proofs.PublicContainers
import SigningKeys.Proofs.WrittenLines

/-!
# Numbers read exactly

A string of digits may have any length, and any number of zeros may stand in front.  It is read as
the number that it denotes as long as that fits into 32 bits, and refused otherwise: the number
never wraps around, and no digit is left out.  The fields of a record and the version of a public
container are read by the same rule.

## Main definitions

* `Decimal.appendWord`: one digit more, in 32-bit arithmetic that is checked at each operation.
* `Public.Container.line`: the line of a public container, with any text for its version.

## Main results

* `Decimal.value_eq_ofDigits`: what a string of digits denotes.
* `Decimal.word_eq_foldlM`: reading a number is 32-bit arithmetic up to the first overflow.
* `Record.scan_number`, `Record.scan_large_number`: numbers that fit into a field and those that do
  not.
* `Public.Container.load_line`, `Public.Container.load_line_large`: the same for versions.
* `Decimal.read_exactly`: **a number is read exactly, or not at all.**
-/

namespace SigningKeys

open Byte

/-! ### What digits denote -/

namespace Decimal

/-- A string of digits denotes the number that has these digits to the base ten. -/
theorem value_eq_ofDigits (ds : Bytes) :
    value ds = Nat.ofDigits 10 (ds.reverse.map fun d => d.toNat - 48) := by
  induction ds using List.reverseRecOn with
  | nil => rfl
  | append_singleton ds d ih =>
    rw [value_concat, ih, List.reverse_append, List.reverse_singleton, List.singleton_append,
      List.map_cons, Nat.ofDigits_cons, Nat.add_comm]

/-- The word with one digit more.  The product and the sum are checked one after the other, and
there is no word if either does not fit into 32 bits. -/
def appendWord (n : UInt32) (d : UInt8) : Option UInt32 :=
  if n.toNat * 10 < wordLimit then
    if (n * 10).toNat + (d.toNat - 48) < wordLimit then
      some (n * 10 + UInt32.ofNat (d.toNat - 48))
    else none
  else none

theorem appendWord_eq (n : UInt32) (d : UInt8) :
    appendWord n d =
      if append n.toNat d < wordLimit then some (UInt32.ofNat (append n.toNat d)) else none := by
  rw [appendWord]
  by_cases hproduct : n.toNat * 10 < wordLimit
  · have htoNat : (n * 10).toNat = n.toNat * 10 := by
      rw [UInt32.toNat_mul]
      exact Nat.mod_eq_of_lt hproduct
    have hsum : (n * 10).toNat + (d.toNat - 48) = append n.toNat d := by
      rw [htoNat, append, Nat.mul_comm]
    have hword : n * 10 + UInt32.ofNat (d.toNat - 48) = UInt32.ofNat (append n.toNat d) := by
      rw [← hsum, UInt32.ofNat_add, UInt32.ofNat_toNat]
    rw [if_pos hproduct, hsum, hword]
  · have hlarge : ¬ append n.toNat d < wordLimit := by
      rw [append]
      omega
    rw [if_neg hproduct, if_neg hlarge]

/-- A string of digits is read by 32-bit arithmetic, up to the first operation that overflows. -/
theorem word_eq_foldlM (ds : Bytes) : word ds = ds.foldlM appendWord 0 := by
  have key : ∀ n : UInt32, wordFrom n.toNat ds = ds.foldlM appendWord n := by
    induction ds with
    | nil =>
      intro n
      rw [wordFrom, UInt32.ofNat_toNat]
      rfl
    | cons d ds ih =>
      intro n
      rw [wordFrom, List.foldlM_cons, appendWord_eq]
      by_cases hfits : append n.toNat d < wordLimit
      · have hnat : (UInt32.ofNat (append n.toNat d)).toNat = append n.toNat d :=
          UInt32.toNat_ofNat_of_lt' hfits
        rw [if_pos hfits, if_pos hfits, Option.bind_eq_bind, Option.bind_some, ← ih, hnat]
      · rw [if_neg hfits, if_neg hfits]
        rfl
  exact key 0

theorem word_of_lt {ds : Bytes} (h : value ds < wordLimit) :
    word ds = some (UInt32.ofNat (value ds)) := by
  rw [word_eq, if_pos h]

theorem word_of_ge {ds : Bytes} (h : wordLimit ≤ value ds) : word ds = none := by
  rw [word_eq, if_neg (Nat.not_lt.mpr h)]

end Decimal

/-! ### Numbers in fields -/

section Fields

variable {f : Field} {ds : Bytes}

/-- A number that does not fit is out of range. -/
theorem Field.read_of_ge (hf : f.kind = .unsigned) (hne : ds ≠ [])
    (hdigits : ∀ b ∈ ds, isDigit b = true) (h : Decimal.wordLimit ≤ Decimal.value ds) :
    f.read ds = .error (.outOfRange f) := by
  have key : ∀ k : Kind, k = .unsigned → f.readKind k ds = .error (.outOfRange f) := by
    rintro k rfl
    show f.readUnsigned ds = .error (.outOfRange f)
    rw [readUnsigned, if_pos ⟨hne, List.all_eq_true.mpr hdigits⟩, Decimal.word_of_ge h]
  exact key f.kind hf

namespace Record

/-- The line of a field with a string of digits stores what the digits stand for. -/
theorem scan_digits (r : Record) (f : Field) (hdigits : ∀ b ∈ ds, isDigit b = true) :
    r.scan (f.label ++ ds ++ [newline]) = Scanned.ofApply r (r.apply f ds) := by
  have hblank : ∀ b ∈ [32], isBlank b = true := List.forall_mem_singleton.mpr rfl
  have hfirst : ∀ b, ds.head? = some b → isBlank b = false := fun b hb =>
    isBlank_of_isGraphic (isGraphic_of_isDigit (hdigits b (List.mem_of_mem_head? hb)))
  have hnl : newline ∉ ds := fun hmem => by cases hdigits _ hmem
  rw [f.label_eq, scan_field_line r f hblank hfirst hnl fun _ => hdigits]

/-- A number that fits is stored in a field that has no value yet. -/
theorem scan_number {r : Record} (hf : f.kind = .unsigned) (hfree : r.get f = none) (hne : ds ≠ [])
    (hdigits : ∀ b ∈ ds, isDigit b = true) (h : Decimal.value ds < Decimal.wordLimit) :
    r.scan (f.label ++ ds ++ [newline]) = ⟨r.set f (f.kind.meaning ds), none⟩ := by
  have hadmits : f.kind.Admits ds := by
    rw [hf]
    exact ⟨hne, hdigits, h⟩
  rw [scan_digits r f hdigits, apply_eq_ok_iff_admits.mpr ⟨hfree, hadmits, rfl⟩]
  rfl

/-- A number that does not fit is at fault, and the record is as it was. -/
theorem scan_large_number (r : Record) (hf : f.kind = .unsigned) (hne : ds ≠ [])
    (hdigits : ∀ b ∈ ds, isDigit b = true) (h : Decimal.wordLimit ≤ Decimal.value ds) :
    r.scan (f.label ++ ds ++ [newline]) = ⟨r, some (.outOfRange f)⟩ := by
  rw [scan_digits r f hdigits, apply, Field.read_of_ge hf hne hdigits h]
  rfl

end Record

end Fields

/-! ### Versions of public containers -/

namespace Public.Container

variable {format : Format} {ds id data blanks : Bytes}

/-- The line of a public container with any text for its version, and with blanks at its end. -/
def line (magic : String) (version id data blanks : Bytes) : Bytes :=
  Utf8.encode magic ++ version ++ colon :: Base64.encode id ++ colon :: Base64.encode data ++ blanks

theorem line_eq (magic : String) (version id data blanks : Bytes) :
    line magic version id data blanks = Utf8.encode magic ++ (version ++
      colon :: (Base64.encode id ++ colon :: (Base64.encode data ++ blanks))) := by
  simp [line]

/-- The version of a line is what its digits are read as. -/
theorem readVersion_digits (hne : ds ≠ []) (hdigits : ∀ b ∈ ds, isDigit b = true) (rest : Bytes) :
    readVersion format (ds ++ colon :: rest) =
      (Decimal.word ds).elim (.error .versionOutOfRange) fun version =>
        if format.admits version then .ok (version, rest)
        else .error (.unsupportedVersion version) := by
  have hcolon : isDigit colon = false := rfl
  rw [readVersion, Bytes.takeWhile_run hdigits hcolon, Bytes.dropWhile_run hdigits hcolon]
  obtain ⟨d, ds, rfl⟩ := List.exists_cons_of_ne_nil hne
  show (if colon = colon then _ else _) = _
  rw [if_pos rfl]
  cases Decimal.word (d :: ds) <;> rfl

/-- A version that is refused is what is wrong with the line. -/
theorem load_of_readVersion_error {rest : Bytes} {fault : PublicFault} (hne : rest ≠ [])
    (h : readVersion format rest = .error fault) :
    load format (Utf8.encode format.magic ++ rest) = .error fault := by
  have hmagic : afterMagic format (Utf8.encode format.magic ++ rest) = .ok rest :=
    afterMagic_eq_ok_iff.mpr ⟨hne, rfl⟩
  rw [load, hmagic]
  show (readVersion format rest >>= _) = _
  rw [h]
  rfl

/-- A version that does not fit into 32 bits is out of range. -/
theorem load_line_large (hne : ds ≠ []) (hdigits : ∀ b ∈ ds, isDigit b = true)
    (h : Decimal.wordLimit ≤ Decimal.value ds) :
    load format (line format.magic ds id data blanks) = .error .versionOutOfRange := by
  rw [line_eq]
  refine load_of_readVersion_error (by simp) ?_
  rw [readVersion_digits hne hdigits, Decimal.word_of_ge h]
  rfl

/-- A version that fits into 32 bits is read, if the format admits it. -/
theorem load_line (hne : ds ≠ []) (hdigits : ∀ b ∈ ds, isDigit b = true)
    (hid : id.length = format.idLength) (hdata : data.length = format.dataLength)
    (hblanks : ∀ b ∈ blanks, isBlank b = true) {version : UInt32}
    (h : Decimal.word ds = some version) :
    load format (line format.magic ds id data blanks) =
      if format.admits version then .ok ⟨version, id, data⟩
      else .error (.unsupportedVersion version) := by
  split
  · next hadmits =>
    obtain ⟨hmin, hmax⟩ := admits_iff.mp hadmits
    obtain ⟨n, hn⟩ := (Decimal.word_eq_some_iff_zeros hne hdigits).mp h
    refine load_eq_ok_iff_isText.mpr ⟨⟨n, blanks, hblanks, ?_⟩, hmin, hmax, hid, hdata⟩
    rw [line, hn, ← List.append_assoc]
  · next hrefused =>
    rw [line_eq]
    refine load_of_readVersion_error (by simp) ?_
    rw [readVersion_digits hne hdigits, h]
    exact if_neg hrefused

end Public.Container

/-! ### The limit -/

/-- A string of digits with the number `v`, however many zeros stand in front of it, is read as the
32-bit word of that number if `v` is at most `4294967295`, and as nothing otherwise; 32-bit
arithmetic that is checked at each operation does the same.  This is so in the two fields of a
record that hold numbers, which store the word if they have no value yet, and in the version of a
public container, which is loaded if its format admits the version.  A number that is too large is
out of range in all three, and changes no record. -/
theorem Decimal.read_exactly {ds : Bytes} (hne : ds ≠ []) (hdigits : ∀ b ∈ ds, isDigit b = true)
    {v : ℕ} (hv : Nat.ofDigits 10 (ds.reverse.map fun d => d.toNat - 48) = v) :
    (v ≤ 4294967295 → ∃ w : UInt32, w.toNat = v ∧ ds.foldlM appendWord 0 = some w ∧
      (∀ r : Record, r.rounds = none →
        r.scan (Utf8.encode "rounds: " ++ ds ++ [newline]) =
          ⟨{ r with rounds := some w }, none⟩) ∧
      (∀ r : Record, r.version = none →
        r.scan (Utf8.encode "version: " ++ ds ++ [newline]) =
          ⟨{ r with version := some w }, none⟩) ∧
      ∀ (format : Public.Format) (id data blanks : Bytes), id.length = format.idLength →
        data.length = format.dataLength → (∀ b ∈ blanks, isBlank b = true) →
        Public.Container.load format (Public.Container.line format.magic ds id data blanks) =
          if format.minVersion.toNat ≤ v ∧ v ≤ format.maxVersion.toNat then .ok ⟨w, id, data⟩
          else .error (.unsupportedVersion w)) ∧
    (4294967295 < v → ds.foldlM appendWord 0 = none ∧
      (∀ r : Record, r.scan (Utf8.encode "rounds: " ++ ds ++ [newline]) =
        ⟨r, some (.outOfRange .rounds)⟩) ∧
      (∀ r : Record, r.scan (Utf8.encode "version: " ++ ds ++ [newline]) =
        ⟨r, some (.outOfRange .version)⟩) ∧
      ∀ (format : Public.Format) (id data blanks : Bytes),
        Public.Container.load format (Public.Container.line format.magic ds id data blanks) =
          .error .versionOutOfRange) := by
  have hrounds : Utf8.encode "rounds: " = Field.label .rounds := by decide
  have hversion : Utf8.encode "version: " = Field.label .version := by decide
  rw [← value_eq_ofDigits] at hv
  rw [hrounds, hversion, ← word_eq_foldlM]
  constructor
  · intro hsmall
    have hfits : value ds < wordLimit := by
      rw [hv, wordLimit]
      omega
    have hnat : (UInt32.ofNat (value ds)).toNat = v := by
      rw [UInt32.toNat_ofNat_of_lt' hfits, hv]
    refine ⟨UInt32.ofNat (value ds), hnat, word_of_lt hfits, ?_, ?_, ?_⟩
    · intro r hfree
      exact Record.scan_number (f := .rounds) rfl hfree hne hdigits hfits
    · intro r hfree
      exact Record.scan_number (f := .version) rfl hfree hne hdigits hfits
    · intro format id data blanks hid hdata hblanks
      rw [Public.Container.load_line hne hdigits hid hdata hblanks (word_of_lt hfits)]
      simp only [Public.Container.admits_iff, UInt32.le_iff_toNat_le, hnat]
  · intro hlarge
    have hge : wordLimit ≤ value ds := by
      rw [hv, wordLimit]
      omega
    refine ⟨word_of_ge hge, fun r => ?_, fun r => ?_, fun format id data blanks => ?_⟩
    · exact r.scan_large_number rfl hne hdigits hge
    · exact r.scan_large_number rfl hne hdigits hge
    · exact Public.Container.load_line_large hne hdigits hge

/-- The largest word behind zeros, in a field and behind the digit that a magic ends in, and the
number after it. -/
theorem Decimal.read_limit_exactly :
    Record.empty.scan (Utf8.encode "rounds: " ++ Utf8.encode "0004294967295" ++ [newline]) =
        ⟨{ Record.empty with rounds := some 4294967295 }, none⟩ ∧
      Public.Container.load ⟨"v1", 7, 4294967295, 0, 1⟩
          (Public.Container.line "v1" (Utf8.encode "0004294967295") [] [255] [10]) =
        .ok ⟨4294967295, [], [255]⟩ ∧
      Record.empty.scan (Utf8.encode "version: " ++ Utf8.encode "4294967296" ++ [newline]) =
        ⟨Record.empty, some (.outOfRange .version)⟩ := by
  have hmost : Nat.ofDigits 10 ((Utf8.encode "0004294967295").reverse.map fun d =>
      d.toNat - 48) = 4294967295 := by decide +kernel
  have hmore : Nat.ofDigits 10 ((Utf8.encode "4294967296").reverse.map fun d =>
      d.toNat - 48) = 4294967296 := by decide +kernel
  obtain ⟨w, hw, -, hrounds, -, hload⟩ :=
    (read_exactly (by decide +kernel) (by decide +kernel) hmost).1 (Nat.le_refl _)
  obtain ⟨-, -, hversion, -⟩ :=
    (read_exactly (by decide +kernel) (by decide +kernel) hmore).2 (by decide)
  obtain rfl : w = 4294967295 := UInt32.toNat_inj.mp hw
  have hblanks : ∀ b ∈ ([10] : Bytes), isBlank b = true := List.forall_mem_singleton.mpr rfl
  exact ⟨hrounds _ rfl, hload ⟨"v1", 7, 4294967295, 0, 1⟩ [] [255] [10] rfl rfl hblanks,
    hversion _⟩

end SigningKeys
