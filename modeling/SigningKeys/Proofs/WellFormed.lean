import SigningKeys.Proofs.FieldLine
import SigningKeys.Proofs.FieldValue
import SigningKeys.Proofs.LineReading
import SigningKeys.Proofs.Outcomes

/-!
# Well-formed records

Every value of a record that a caller can come by is sound: secrets, identifiers, salts and
checksums have their lengths, and the name of a KDF stands on one line and starts with no blank.
The invariant is carried by the phase of the machine that reads lines: of a value under way, no
byte is a newline and the first is no blank.

## Main definitions

* `Record.WellFormed`: all values of the record are sound.
* `Record.Reachable`: the records that a caller can come by.

## Main results

* `Reading.wellFormed_take`: one byte keeps the invariant.
* `Record.wellFormed_scan`, `Record.wellFormed_parse`: what is read is well-formed.
* `Record.Reachable.wellFormed`: **every record that a caller can come by is well-formed.**
-/

namespace SigningKeys

open Byte

/-! ### Storing values -/

/-- All values of the record are sound. -/
def Record.WellFormed (r : Record) : Prop := ∀ f v, r.get f = some v → f.kind.Sound v

namespace Record

theorem apply_eq_ok_iff {r r' : Record} {f : Field} {raw : Bytes} :
    r.apply f raw = .ok r' ↔ ∃ v, f.read raw = .ok v ∧ r.get f = none ∧ r' = r.set f v := by
  rw [apply]
  cases hread : f.read raw with
  | error fault => simp
  | ok v =>
    simp only [put]
    cases hget : r.get f with
    | some w => simp
    | none => simp [eq_comm]

theorem wellFormed_empty : empty.WellFormed := by
  intro f v h
  rw [get_empty] at h
  cases h

theorem WellFormed.salt_ne_nil {r : Record} (hwf : r.WellFormed) {salt : Bytes}
    (h : r.salt = some salt) : salt ≠ [] := by
  have hlen : salt.length = Layout.saltLength := hwf .salt salt h
  rintro rfl
  cases hlen

theorem WellFormed.set {r : Record} (h : r.WellFormed) {f : Field} {v : f.kind.Value}
    (hv : f.kind.Sound v) : (r.set f v).WellFormed := by
  intro g w hw
  by_cases hg : g = f
  · subst hg
    rw [get_set, Option.some.injEq] at hw
    exact hw ▸ hv
  · rw [get_set_of_ne r hg] at hw
    exact h g w hw

/-- What is stored from the text of a value, on one line and not behind a blank, is sound. -/
theorem WellFormed.apply {r r' : Record} (h : r.WellFormed) {f : Field} {raw : Bytes}
    (hnl : newline ∉ raw) (hfirst : ∀ b, raw.head? = some b → isBlank b = false)
    (ha : r.apply f raw = .ok r') : r'.WellFormed := by
  obtain ⟨v, hread, -, rfl⟩ := apply_eq_ok_iff.mp ha
  exact h.set (f.sound_of_read hnl hfirst hread)

end Record

/-! ### Reading bytes -/

/-- What is known of a value under way; its bytes are kept the last first. -/
def Phase.Sound : Phase → Prop
  | .value _ token => newline ∉ token ∧ ∃ b, token.getLast? = some b ∧ isBlank b = false
  | _ => True

namespace Reading

/-- The invariant of reading: the phase is sound and the record is well-formed. -/
def WellFormed (s : Reading) : Prop := s.phase.Sound ∧ s.record.WellFormed

theorem sound_takeName (token : Bytes) (b : UInt8) : (takeName token b).Sound := by
  unfold takeName
  split
  · split
    · exact trivial
    · split <;> exact trivial
  · split <;> exact trivial

theorem wellFormed_takeValue {r : Record} (h : r.WellFormed) (f : Field) {token : Bytes}
    {b : UInt8} (hnl : newline ∉ token)
    (hfirst : ∃ c, (b :: token).getLast? = some c ∧ isBlank c = false) :
    (takeValue r f token b).WellFormed := by
  obtain ⟨c, hc, hblank⟩ := hfirst
  unfold takeValue
  by_cases hb : b = newline
  · rw [if_pos hb]
    cases ha : r.apply f token.reverse with
    | error fault => exact ⟨trivial, h⟩
    | ok r' =>
      refine ⟨trivial, h.apply (by rwa [List.mem_reverse]) ?_ ha⟩
      intro d hd
      -- the value has begun before the newline, with the byte that is known
      rw [List.head?_reverse] at hd
      rw [List.getLast?_cons, hd, Option.getD_some, Option.some.injEq] at hc
      exact hc ▸ hblank
  · rw [if_neg hb]
    split
    · exact ⟨trivial, h⟩
    · exact ⟨⟨by simp [Ne.symm hb, hnl], c, hc, hblank⟩, h⟩

/-- One byte keeps the invariant. -/
theorem wellFormed_take {s : Reading} (h : s.WellFormed) (b : UInt8) : (s.take b).WellFormed := by
  obtain ⟨phase, r⟩ := s
  obtain ⟨hphase, hr⟩ := h
  cases phase with
  | blank =>
    rw [take_blank]
    split
    · exact ⟨trivial, hr⟩
    · exact ⟨sound_takeName [] b, hr⟩
  | name token => exact ⟨sound_takeName token b, hr⟩
  | colon f =>
    simp only [take]
    split <;> exact ⟨trivial, hr⟩
  | gap f =>
    rw [take_gap]
    by_cases hb : isBlank b = true
    · rw [if_pos hb]
      exact ⟨trivial, hr⟩
    · -- the value begins with this byte, which is no blank
      rw [if_neg hb]
      exact wellFormed_takeValue hr f (by simp) ⟨b, rfl, by simpa using hb⟩
  | value f token =>
    obtain ⟨hnl, c, hc, hblank⟩ := hphase
    have hfirst : ∀ b', (b' :: token).getLast? = some c := by
      intro b'
      rw [List.getLast?_cons, hc, Option.getD_some]
    rw [take_value]
    exact wellFormed_takeValue hr f hnl ⟨c, hfirst b, hblank⟩
  | failed fault => exact ⟨trivial, hr⟩

theorem wellFormed_takeAll {s : Reading} (h : s.WellFormed) (bs : Bytes) :
    (s.takeAll bs).WellFormed := by
  induction bs generalizing s with
  | nil => exact h
  | cons b bs ih => exact ih (wellFormed_take h b)

theorem wellFormed_outcome {s : Reading} (h : s.WellFormed) : s.outcome.record.WellFormed := by
  obtain ⟨phase, r⟩ := s
  obtain ⟨-, hr⟩ := h
  cases phase with
  | gap f =>
    simp only [outcome, Machine.outcome]
    cases ha : r.apply f [] with
    | error fault => exact hr
    | ok r' => exact hr.apply (by simp) (by simp) ha
  | _ => exact hr

end Reading

/-! ### Reading lines and containers -/

namespace Record

/-- Lines that are read into a well-formed record leave it well-formed, faulty or not. -/
theorem wellFormed_scan {r : Record} (h : r.WellFormed) (lines : Bytes) :
    (r.scan lines).record.WellFormed := by
  have hstart : (⟨.blank, r⟩ : Reading).WellFormed := ⟨trivial, h⟩
  rw [scan_eq]
  exact Reading.wellFormed_outcome (Reading.wellFormed_takeAll hstart lines)

theorem wellFormed_readLines {r r' : Record} {s : Stream} (h : r.WellFormed)
    (hread : r.readLines s = .ok r') : r'.WellFormed := by
  fun_induction readLines r s with
  | case1 r s e hline => cases hread
  | case2 r s rest hline =>
    cases hread
    exact h
  | case3 r s b line rest hline scanned fault hfault => cases hread
  | case4 r s b line rest hline scanned hfault ih => exact ih (wellFormed_scan h _) hread

theorem wellFormed_parse {r : Record} {s : Stream} (h : (parse s).result = .ok r) :
    r.WellFormed := by
  unfold parse at h
  split at h
  · cases h
  · cases h
  · split at h
    · exact wellFormed_readLines wellFormed_empty h
    · cases h

/-! ### Records made from a secret -/

theorem sound_kdfName : Kind.Sound .text Layout.kdfName := by
  refine ⟨by decide, ?_⟩
  intro b hb
  have hhead : (Utf8.encode Layout.kdfName).head? = some 112 := by decide
  rw [hhead, Option.some.injEq] at hb
  exact hb ▸ rfl

theorem wellFormed_plain {secret id : Bytes} {r : Record} (h : plain secret id = .ok r) :
    r.WellFormed := by
  obtain ⟨hs, hi, rfl⟩ := plain_eq_ok_iff.mp h
  intro f v hv
  cases f <;> cases hv
  · exact hs
  · exact hi
  · exact trivial

theorem wellFormed_wrap {secret id password : Bytes} {rounds : UInt32} {entropy : Entropy}
    {r : Record} (h : (wrap secret id password rounds entropy).result = .ok r) :
    r.WellFormed := by
  obtain ⟨hs, hi, -, -, rfl⟩ := wrap_eq_ok_iff.mp h
  intro f v hv
  cases f <;> cases hv
  · exact length_checksum secret
  · show (Bytes.xor secret _).length = Layout.secretLength
    rw [Bytes.length_xor (by rw [Pbkdf2.length_derive, hs]), hs]
  · exact hi
  · exact sound_kdfName
  · exact trivial
  · exact entropy.length_first Layout.saltLength
  · exact trivial

/-! ### All records that a caller can come by -/

/-- The records that a caller can come by: new ones, those that lines have been read into, whether
the lines were faulty or not, those of a container, and those made from a secret. -/
inductive Reachable : Record → Prop where
  /-- A new record. -/
  | empty : Reachable empty
  /-- A record that some lines have been read into. -/
  | scan {r : Record} (h : Reachable r) (lines : Bytes) : Reachable (r.scan lines).record
  /-- The record of a container. -/
  | parse {s : Stream} {r : Record} (h : (parse s).result = .ok r) : Reachable r
  /-- The record of a secret as it is. -/
  | plain {secret id : Bytes} {r : Record} (h : Record.plain secret id = .ok r) : Reachable r
  /-- The record of a secret under a password. -/
  | wrap {secret id password : Bytes} {rounds : UInt32} {entropy : Entropy} {r : Record}
      (h : (Record.wrap secret id password rounds entropy).result = .ok r) : Reachable r

/-- Every record that a caller can come by is well-formed. -/
theorem Reachable.wellFormed {r : Record} (h : r.Reachable) : r.WellFormed := by
  induction h with
  | empty => exact wellFormed_empty
  | scan _ lines ih => exact wellFormed_scan ih lines
  | parse h => exact wellFormed_parse h
  | plain h => exact wellFormed_plain h
  | wrap h => exact wellFormed_wrap h

end Record

end SigningKeys
