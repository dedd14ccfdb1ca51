import Mathlib.Data.List.Induction
import SigningKeys.Proofs.LineGrammar
import SigningKeys.Proofs.Lines

/-!
# Buffers that are joined

Lines may be scanned in one buffer or in several.  The machine that scans them starts anew with each
buffer, so it makes a difference where a buffer is cut.  What the machine has read when a buffer ends
tells how it stands: behind complete pairs of names and values it waits for the next name, as it
does at the start.  Only where the value of a pair is still empty does it wait for something else.
There the end of the buffer makes the value empty, and another buffer behind it would be the value.

## Main definitions

* `ArePairs`: pairs of names and values, one behind the other.
* `EndsOpen`: the byte strings that end in a pair whose value is still empty.
* `Record.FailsOpen`: that empty value is at fault.
* `Reading.Follows`: what the phase of the machine tells about the bytes that it has taken.
* `Record.scanEach`: buffers scanned one by one, up to the first that is at fault.

## Main results

* `Reading.follows_take`, `Reading.follows_takeAll`: the phase tells what has been read.
* `Reading.takeAll_of_openPair`: an empty value at the end is waited for.
* `Record.scan_joined`: **a buffer acts like its parts one after the other, unless it is cut in
  front of a value.**
-/

namespace SigningKeys

open Byte

/-! ### Pairs -/

/-- Pairs of names and values, one behind the other.  No value is empty, and each ends with its
line; blanks in front of names and values may be newlines. -/
inductive ArePairs : Bytes → Prop where
  /-- No pair. -/
  | nil : ArePairs []
  /-- One more pair. -/
  | pair {pairs line value : Bytes} {f : Field} (h : ArePairs pairs) (hline : f.IsLine value line)
      (hne : value ≠ []) (hnl : newline ∉ value) : ArePairs (pairs ++ (line ++ [newline]))

/-- Behind some pairs, a byte string ends with the name of a field, a colon and blanks. -/
def OpenPair (f : Field) (pairs bs : Bytes) : Prop :=
  ArePairs pairs ∧ ∃ line, f.IsLine [] line ∧ bs = pairs ++ line

/-- A byte string ends in a pair whose value is still empty. -/
def EndsOpen (bs : Bytes) : Prop := ∃ f pairs, OpenPair f pairs bs

/-- A byte string is read up to the pair in which it ends, whose empty value is at fault. -/
def Record.FailsOpen (r : Record) (bs : Bytes) (fault : LineFault) : Prop :=
  ∃ f pairs r', OpenPair f pairs bs ∧ r.scan pairs = ⟨r', none⟩ ∧ r'.apply f [] = .error fault

/-! ### What the phase tells -/

/-- The part of a pair that a phase has met, with the blanks in front of it. -/
inductive Phase.Met : Phase → Bytes → Prop where
  /-- Blanks, and no name. -/
  | blank {bs : Bytes} (h : ∀ b ∈ bs, isBlank b = true) : Met .blank bs
  /-- A part of a name. -/
  | name {before token : Bytes} (h : ∀ b ∈ before, isBlank b = true) :
      Met (.name token) (before ++ token.reverse)
  /-- The name and the colon, and no value. -/
  | gap {f : Field} {bs : Bytes} (h : f.IsLine [] bs) : Met (.gap f) bs
  /-- A part of the value. -/
  | value {f : Field} {token bs : Bytes} (h : f.IsLine token.reverse bs) (hne : token ≠ [])
      (hnl : newline ∉ token) : Met (.value f token) bs

namespace Field.IsLine

variable {f : Field} {value line : Bytes} {b : UInt8}

/-- A blank behind the colon keeps the value empty. -/
theorem append_blank (h : f.IsLine [] line) (hb : isBlank b = true) :
    f.IsLine [] (line ++ [b]) := by
  obtain ⟨before, between, hbefore, hbetween, hvalue, rfl⟩ := h
  refine ⟨before, between ++ [b], hbefore, ?_, hvalue, by simp⟩
  exact List.forall_mem_append.mpr ⟨hbetween, List.forall_mem_singleton.mpr hb⟩

/-- A byte behind the value belongs to it, and so does one that begins it. -/
theorem append_byte (h : f.IsLine value line) (hb : value = [] → isBlank b = false) :
    f.IsLine (value ++ [b]) (line ++ [b]) := by
  obtain ⟨before, between, hbefore, hbetween, hvalue, rfl⟩ := h
  refine ⟨before, between, hbefore, hbetween, ?_, by simp⟩
  intro c hc
  cases value with
  | nil =>
    cases hc
    exact hb rfl
  | cons d value => exact hvalue c hc

end Field.IsLine

namespace Reading

variable {r : Record} {s : Reading} {bs : Bytes}

/-- The machine has found a fault in some bytes, or they are pairs, which have been read into the
record, and the part of one more pair that the phase has met. -/
def Follows (r : Record) (bs : Bytes) (s : Reading) : Prop :=
  (∃ fault, s.phase = .failed fault) ∨ ∃ pairs line, bs = pairs ++ line ∧ ArePairs pairs ∧
    (⟨.blank, r⟩ : Reading).takeAll pairs = ⟨.blank, s.record⟩ ∧ s.phase.Met line

/-- A byte behind a name, or behind the blanks before one. -/
theorem met_takeName (token : Bytes) {before : Bytes} (h : ∀ b ∈ before, isBlank b = true)
    (b : UInt8) :
    (∃ fault, takeName token b = .failed fault) ∨
      (takeName token b).Met (before ++ token.reverse ++ [b]) := by
  unfold takeName
  by_cases hb : b = colon
  · subst hb
    rw [if_pos rfl]
    by_cases htoken : token = []
    · exact .inl ⟨_, if_pos htoken⟩
    · rw [if_neg htoken]
      cases hlookup : Field.lookup token.reverse with
      | none => exact .inl ⟨_, rfl⟩
      | some f =>
        refine .inr (.gap ⟨before, [], h, by simp, by simp, ?_⟩)
        rw [Field.lookup_eq_some_iff.mp hlookup, List.append_nil, List.append_nil]
  · rw [if_neg hb]
    by_cases hgraphic : isGraphic b = true
    · rw [if_pos hgraphic, List.append_assoc, ← List.reverse_cons]
      exact .inr (.name h)
    · exact .inl ⟨_, if_neg hgraphic⟩

/-- Behind pairs that have been read, a fault was found, or a part of one more pair was met. -/
theorem follows_of_met {pairs line : Bytes} (hpairs : ArePairs pairs)
    (hread : (⟨.blank, r⟩ : Reading).takeAll pairs = ⟨.blank, s.record⟩)
    (hmet : (∃ fault, s.phase = .failed fault) ∨ s.phase.Met line) : s.Follows r (pairs ++ line) :=
  hmet.imp_right fun hmet => ⟨pairs, line, rfl, hpairs, hread, hmet⟩

section

variable {pairs line : Bytes} {record : Record} {f : Field} {b : UInt8}

/-- A byte of a value that does not end it. -/
theorem follows_takeValue (token : Bytes) (hpairs : ArePairs pairs)
    (hread : (⟨.blank, r⟩ : Reading).takeAll pairs = ⟨.blank, record⟩)
    (hline : f.IsLine (token.reverse ++ [b]) (line ++ [b])) (hnl : newline ∉ token)
    (hb : b ≠ newline) : (takeValue record f token b).Follows r (pairs ++ (line ++ [b])) := by
  rw [takeValue, if_neg hb]
  split
  · exact .inl ⟨_, rfl⟩
  · refine follows_of_met hpairs hread (.inr (.value ?_ (List.cons_ne_nil b token) ?_))
    · rwa [List.reverse_cons]
    · rw [List.mem_cons, not_or]
      exact ⟨hb.symm, hnl⟩

/-- The newline that ends a value completes the pair, and the next name is waited for. -/
theorem follows_takeValue_newline {token : Bytes} (hpairs : ArePairs pairs)
    (hs : (⟨.blank, r⟩ : Reading).takeAll (pairs ++ line) = ⟨.value f token, record⟩)
    (hline : f.IsLine token.reverse line) (hne : token.reverse ≠ []) (hnl : newline ∉ token) :
    (takeValue record f token newline).Follows r (pairs ++ (line ++ [newline])) := by
  have htake : (⟨.blank, r⟩ : Reading).takeAll (pairs ++ (line ++ [newline])) =
      takeValue record f token newline := by
    rw [← List.append_assoc, takeAll_append, hs]
    rfl
  rw [takeValue, if_pos rfl] at htake ⊢
  cases happly : record.apply f token.reverse with
  | error fault => exact .inl ⟨fault, rfl⟩
  | ok r' =>
    rw [happly] at htake
    have hpair := hpairs.pair hline hne (mt List.mem_reverse.mp hnl)
    exact .inr ⟨_, [], (List.append_nil _).symm, hpair, htake, .blank (by simp)⟩

end

/-- One byte more. -/
theorem follows_take (hs : (⟨.blank, r⟩ : Reading).takeAll bs = s) (h : s.Follows r bs)
    (b : UInt8) : (s.take b).Follows r (bs ++ [b]) := by
  obtain ⟨phase, record⟩ := s
  rcases h with ⟨fault, rfl⟩ | ⟨pairs, line, rfl, hpairs, hread, hmet⟩
  · exact .inl ⟨fault, rfl⟩
  rw [List.append_assoc]
  cases hmet with
  | blank hline =>
    rw [take_blank]
    by_cases hb : isBlank b = true
    · rw [if_pos hb]
      refine follows_of_met hpairs hread (.inr (.blank ?_))
      exact List.forall_mem_append.mpr ⟨hline, List.forall_mem_singleton.mpr hb⟩
    · rw [if_neg hb]
      have hname := met_takeName [] hline b
      rw [List.reverse_nil, List.append_nil] at hname
      exact follows_of_met hpairs hread hname
  | name hbefore => exact follows_of_met hpairs hread (met_takeName _ hbefore b)
  | gap hline =>
    rw [take_gap]
    by_cases hb : isBlank b = true
    · rw [if_pos hb]
      exact follows_of_met hpairs hread (.inr (.gap (hline.append_blank hb)))
    · rw [if_neg hb]
      have hne : b ≠ newline := by
        intro hnl
        rw [hnl] at hb
        exact hb isBlank_newline
      exact follows_takeValue [] hpairs hread
        (hline.append_byte fun _ => Bool.eq_false_iff.mpr hb) List.not_mem_nil hne
  | @value f token _ hline hne hnl =>
    have hvalue : token.reverse ≠ [] := mt List.reverse_eq_nil_iff.mp hne
    rw [take_value]
    by_cases hb : b = newline
    · subst hb
      exact follows_takeValue_newline hpairs hs hline hvalue hnl
    · exact follows_takeValue token hpairs hread
        (hline.append_byte fun h => absurd h hvalue) hnl hb

/-- The phase tells what has been read. -/
theorem follows_takeAll (r : Record) (bs : Bytes) :
    ((⟨.blank, r⟩ : Reading).takeAll bs).Follows r bs := by
  induction bs using List.reverseRecOn with
  | nil => exact .inr ⟨[], [], rfl, .nil, rfl, .blank (by simp)⟩
  | append_singleton bs b ih =>
    have hstep := follows_take rfl ih b
    rwa [takeAll_append, takeAll_cons, takeAll_nil]

/-! ### What is behind pairs -/

/-- The beginning of a line, up to the blanks behind its colon, leads to the value. -/
theorem takeAll_isLine {f : Field} {value line : Bytes} (r : Record) (h : f.IsLine value line) :
    (⟨.blank, r⟩ : Reading).takeAll line = (⟨.gap f, r⟩ : Reading).takeAll value := by
  obtain ⟨before, between, hbefore, hbetween, -, rfl⟩ := h
  rw [takeAll_append, takeAll_append, List.append_assoc, takeAll_append,
    takeAll_blanks r hbefore, takeAll_nameBytes, takeAll_gap_blanks f r hbetween]

/-- Behind a pair the next name is waited for, or a fault was found in its value. -/
theorem takeAll_pair {f : Field} {value line : Bytes} (r : Record) (h : f.IsLine value line)
    (hne : value ≠ []) (hnl : newline ∉ value) :
    (∃ r', (⟨.blank, r⟩ : Reading).takeAll (line ++ [newline]) = ⟨.blank, r'⟩) ∨
      ∃ fault, (⟨.blank, r⟩ : Reading).takeAll (line ++ [newline]) = ⟨.failed fault, r⟩ := by
  obtain ⟨-, -, -, -, hfirst, -⟩ := id h
  rw [takeAll_append, takeAll_isLine r h]
  by_cases hdigits : f.kind = .unsigned → ∀ b ∈ value, isDigit b = true
  · rw [takeAll_gap_value f r hne hfirst hnl hdigits, takeAll_cons, takeAll_nil, take_value,
      takeValue, if_pos rfl]
    cases r.apply f value.reverse.reverse with
    | ok r' => exact .inl ⟨r', rfl⟩
    | error fault => exact .inr ⟨fault, rfl⟩
  · rw [Classical.not_imp] at hdigits
    rw [takeAll_gap_not_digits r hdigits.1 hfirst hnl hdigits.2]
    exact .inr ⟨.malformed, rfl⟩

theorem takeAll_pairs (r : Record) {pairs : Bytes} (h : ArePairs pairs) :
    (∃ r', (⟨.blank, r⟩ : Reading).takeAll pairs = ⟨.blank, r'⟩) ∨
      ∃ fault r', (⟨.blank, r⟩ : Reading).takeAll pairs = ⟨.failed fault, r'⟩ := by
  induction h with
  | nil => exact .inl ⟨r, rfl⟩
  | pair _ hline hne hnl ih =>
    rw [takeAll_append]
    rcases ih with ⟨r', hread⟩ | ⟨fault, r', hread⟩
    · rw [hread]
      exact (takeAll_pair r' hline hne hnl).imp_right fun ⟨fault, hfault⟩ => ⟨fault, r', hfault⟩
    · rw [hread, takeAll_failed]
      exact .inr ⟨fault, r', rfl⟩

/-- A pair whose value is still empty is waited for, unless a fault was found in front of it. -/
theorem takeAll_of_openPair {f : Field} {pairs : Bytes} (r : Record) (h : OpenPair f pairs bs) :
    ((⟨.blank, r⟩ : Reading).takeAll bs).phase = .gap f ∨
      ∃ fault, ((⟨.blank, r⟩ : Reading).takeAll bs).phase = .failed fault := by
  obtain ⟨hpairs, line, hline, rfl⟩ := h
  rw [takeAll_append]
  rcases takeAll_pairs r hpairs with ⟨r', hread⟩ | ⟨fault, r', hread⟩
  · rw [hread, takeAll_isLine r' hline]
    exact .inl rfl
  · rw [hread, takeAll_failed]
    exact .inr ⟨fault, rfl⟩

/-! ### Lines -/

/-- Only a newline ends a value, so nothing else changes the record. -/
theorem record_take_of_ne (s : Reading) {b : UInt8} (hb : b ≠ newline) :
    (s.take b).record = s.record := by
  obtain ⟨phase, record⟩ := s
  have hvalue : ∀ f token, (takeValue record f token b).record = record := by
    intro f token
    rw [takeValue, if_neg hb]
    split <;> rfl
  cases phase with
  | blank =>
    rw [take_blank]
    split <;> rfl
  | name token => rfl
  | colon f =>
    simp only [take]
    split <;> rfl
  | gap f =>
    rw [take_gap]
    split
    · rfl
    · exact hvalue f []
  | value f token => exact hvalue f token
  | failed fault => rfl

theorem record_takeAll_of_not_mem (s : Reading) (h : newline ∉ bs) :
    (s.takeAll bs).record = s.record := by
  induction bs generalizing s with
  | nil => rfl
  | cons b bs ih =>
    rw [List.mem_cons, not_or] at h
    rw [takeAll_cons, ih (s.take b) h.2, record_take_of_ne s (Ne.symm h.1)]

/-- A newline changes the record only where it ends a pair. -/
theorem take_newline_or (s : Reading) :
    (s.take newline).phase = .blank ∨ (s.take newline).record = s.record := by
  obtain ⟨phase, record⟩ := s
  cases phase with
  | value f token =>
    rw [take_value, takeValue, if_pos rfl]
    cases record.apply f token.reverse with
    | ok r' => exact .inl rfl
    | error fault => exact .inr rfl
  | _ => exact .inr rfl

/-- A fault at the end of a buffer leaves the record. -/
theorem record_of_outcome {r' : Record} {fault : LineFault} (h : s.outcome = ⟨r', some fault⟩) :
    r' = s.record ∧ s.phase ≠ .blank := by
  obtain ⟨phase, record⟩ := s
  cases phase with
  | blank => cases h
  | gap f =>
    simp only [outcome, Machine.outcome] at h
    cases happly : record.apply f [] with
    | ok r'' =>
      rw [happly] at h
      cases h
    | error fault' =>
      rw [happly] at h
      cases h
      exact ⟨rfl, by simp⟩
  | _ =>
    cases h
    exact ⟨rfl, by simp⟩

end Reading

theorem ArePairs.eq_nil {pairs : Bytes} (h : ArePairs pairs) (hnl : newline ∉ pairs) :
    pairs = [] := by
  cases h with
  | nil => rfl
  | pair => exact absurd (by simp) hnl

/-- Behind a line whose value is not empty, the next name is waited for, or a fault was found and
the record left as it was. -/
theorem Reading.takeAll_line (r : Record) {body : Bytes} (hnl : newline ∉ body)
    (hvalue : ∀ f, ¬ Field.IsLine f [] (body ++ [newline])) :
    (∃ r', (⟨.blank, r⟩ : Reading).takeAll (body ++ [newline]) = ⟨.blank, r'⟩) ∨
      ∃ fault, (⟨.blank, r⟩ : Reading).takeAll (body ++ [newline]) = ⟨.failed fault, r⟩ := by
  have hrecord := record_takeAll_of_not_mem ⟨.blank, r⟩ hnl
  have hfollows := follows_takeAll r body
  rw [takeAll_append, takeAll_cons, takeAll_nil]
  generalize (⟨.blank, r⟩ : Reading).takeAll body = s at hrecord hfollows
  obtain ⟨phase, record⟩ := s
  cases hrecord
  rcases hfollows with ⟨fault, rfl⟩ | ⟨pairs, line, rfl, hpairs, -, hmet⟩
  · exact .inr ⟨fault, rfl⟩
  rw [List.mem_append, not_or] at hnl
  cases hmet with
  | blank => exact .inl ⟨r, rfl⟩
  | name => exact .inr ⟨.malformed, rfl⟩
  | @gap f _ hline =>
    -- the newline would be one more blank in front of the value
    rw [hpairs.eq_nil hnl.1, List.nil_append] at hvalue
    exact absurd (hline.append_blank isBlank_newline) (hvalue f)
  | @value f token =>
    rw [take_value, takeValue, if_pos rfl]
    cases r.apply f token.reverse with
    | ok r' => exact .inl ⟨r', rfl⟩
    | error fault => exact .inr ⟨fault, rfl⟩

namespace Record

variable {r r' : Record} {x : Bytes}

/-! ### Joining two buffers -/

/-- Where the next name is waited for, a buffer can be cut. -/
theorem scan_append_of_blank (h : (⟨.blank, r⟩ : Reading).takeAll x = ⟨.blank, r'⟩) (y : Bytes) :
    r.scan (x ++ y) = r'.scan y := by
  rw [scan_eq, Reading.takeAll_append, h, scan_eq]

/-- Behind a fault nothing is looked at. -/
theorem scan_append_of_failed {fault : LineFault}
    (h : (⟨.blank, r⟩ : Reading).takeAll x = ⟨.failed fault, r'⟩) (y : Bytes) :
    r.scan (x ++ y) = ⟨r', some fault⟩ := by
  rw [scan_eq, Reading.takeAll_append, h, Reading.outcome_takeAll_failed]

/-- A buffer that is read and does not end in front of a value is read before the next one. -/
theorem scan_append_of_ok (h : r.scan x = ⟨r', none⟩) (hopen : ¬ EndsOpen x) (y : Bytes) :
    r.scan (x ++ y) = r'.scan y := by
  have hfollows := Reading.follows_takeAll r x
  rw [scan_eq] at h
  cases hs : (⟨.blank, r⟩ : Reading).takeAll x with
  | mk phase record =>
    rw [hs] at h hfollows
    rcases hfollows with ⟨fault, rfl⟩ | ⟨pairs, line, hx, hpairs, -, hmet⟩
    · cases h
    cases hmet with
    | blank =>
      cases h
      exact scan_append_of_blank hs y
    | name => cases h
    | gap hline => exact absurd ⟨_, pairs, hpairs, line, hline, hx⟩ hopen
    | value => cases h

/-- A buffer that is at fault, and not only because it ends where it does, is at fault whatever
comes behind it. -/
theorem scan_append_of_fault {fault : LineFault} (h : r.scan x = ⟨r', some fault⟩)
    (hfault : fault ≠ .unterminated) (hopen : ¬ r.FailsOpen x fault) (y : Bytes) :
    r.scan (x ++ y) = ⟨r', some fault⟩ := by
  have hfollows := Reading.follows_takeAll r x
  rw [scan_eq] at h
  cases hs : (⟨.blank, r⟩ : Reading).takeAll x with
  | mk phase record =>
    rw [hs] at h hfollows
    rcases hfollows with ⟨fault', rfl⟩ | ⟨pairs, line, hx, hpairs, hread, hmet⟩
    · cases h
      exact scan_append_of_failed hs y
    cases hmet with
    | blank => cases h
    | name =>
      cases h
      exact absurd rfl hfault
    | @gap f _ hline =>
      have hscan : r.scan pairs = ⟨record, none⟩ := by
        rw [scan_eq, hread]
        rfl
      simp only [Reading.outcome, Machine.outcome] at h
      cases happly : record.apply f [] with
      | ok r'' =>
        rw [happly] at h
        cases h
      | error fault' =>
        rw [happly] at h
        cases h
        exact absurd ⟨f, pairs, r', ⟨hpairs, line, hline, hx⟩, hscan, happly⟩ hopen
    | value =>
      cases h
      exact absurd rfl hfault

/-! ### Lines one by one -/

/-- Buffers scanned one by one, up to the first that is at fault. -/
def scanEach (r : Record) : List Bytes → Scanned
  | [] => ⟨r, none⟩
  | buffer :: later =>
    match (r.scan buffer).fault with
    | none => (r.scan buffer).record.scanEach later
    | some _ => r.scan buffer

theorem scanEach_cons_of_ok {buffer : Bytes} (h : r.scan buffer = ⟨r', none⟩)
    (later : List Bytes) : r.scanEach (buffer :: later) = r'.scanEach later := by
  simp only [scanEach, h]

theorem scanEach_cons_of_fault {buffer : Bytes} {fault : LineFault}
    (h : r.scan buffer = ⟨r', some fault⟩) (later : List Bytes) :
    r.scanEach (buffer :: later) = ⟨r', some fault⟩ := by
  simp only [scanEach, h]

/-- A single buffer is scanned. -/
theorem scanEach_singleton (r : Record) (buffer : Bytes) : r.scanEach [buffer] = r.scan buffer := by
  cases h : r.scan buffer with
  | mk r' fault =>
    cases fault with
    | none => exact scanEach_cons_of_ok h []
    | some fault => exact scanEach_cons_of_fault h []

/-- A buffer of lines whose values are not empty acts like its lines. -/
theorem scan_eq_scanEach (r : Record) (bs : Bytes)
    (hvalues : ∀ line ∈ Bytes.lines bs, ∀ f, ¬ Field.IsLine f [] line) :
    r.scan bs = r.scanEach (Bytes.lines bs) := by
  induction bs using Bytes.lineInduction generalizing r with
  | last body hnl =>
    by_cases hne : body = []
    · subst hne
      exact r.scan_blanks (by simp)
    · rw [Bytes.lines_of_not_mem hne hnl, scanEach_singleton]
  | line body rest hnl ih =>
    rw [Bytes.lines_append_newline hnl, List.forall_mem_cons] at hvalues
    obtain ⟨hvalue, hlater⟩ := hvalues
    have hcut : body ++ newline :: rest = body ++ [newline] ++ rest := by simp
    rw [Bytes.lines_append_newline hnl, hcut]
    rcases Reading.takeAll_line r hnl hvalue with ⟨r', hread⟩ | ⟨fault, hread⟩
    · have hscan : r.scan (body ++ [newline]) = ⟨r', none⟩ := by
        rw [scan_eq, hread]
        rfl
      rw [scan_append_of_blank hread, scanEach_cons_of_ok hscan, ih r' hlater]
    · have hscan : r.scan (body ++ [newline]) = ⟨r, some fault⟩ := by
        rw [scan_eq, hread]
        rfl
      rw [scan_append_of_failed hread, scanEach_cons_of_fault hscan]

/-- A line that is at fault leaves the record as it was. -/
theorem record_of_scan_fault {line : Bytes} {fault : LineFault} (hnl : newline ∉ line.dropLast)
    (h : r.scan line = ⟨r', some fault⟩) : r' = r := by
  rw [scan_eq] at h
  obtain ⟨hrecord, hphase⟩ := Reading.record_of_outcome h
  by_cases hlast : line.getLast? = some newline
  · obtain ⟨body, rfl⟩ := List.getLast?_eq_some_iff.mp hlast
    rw [List.dropLast_concat] at hnl
    rw [Reading.takeAll_append, Reading.takeAll_cons, Reading.takeAll_nil] at hrecord hphase
    rcases Reading.take_newline_or ((⟨.blank, r⟩ : Reading).takeAll body) with hblank | hsame
    · exact absurd hblank hphase
    · rw [hrecord, hsame, Reading.record_takeAll_of_not_mem _ hnl]
  · have hall : newline ∉ line := by
      have hdrop := newline_not_mem_dropFinal hnl
      rwa [dropFinal_of_getLast? hlast] at hdrop
    rw [hrecord, Reading.record_takeAll_of_not_mem _ hall]

/-- If one of some lines is at fault, the record is that of the lines in front of the first such
line. -/
theorem exists_of_scanEach_fault {lines : List Bytes} {fault : LineFault}
    (hlines : ∀ line ∈ lines, newline ∉ line.dropLast)
    (h : r.scanEach lines = ⟨r', some fault⟩) :
    ∃ before line later, lines = before ++ line :: later ∧ r.scanEach before = ⟨r', none⟩ ∧
      r'.scan line = ⟨r', some fault⟩ := by
  induction lines generalizing r with
  | nil => cases h
  | cons line lines ih =>
    obtain ⟨hline, hlater⟩ := List.forall_mem_cons.mp hlines
    cases hscan : r.scan line with
    | mk r₁ fault₁ =>
      cases fault₁ with
      | none =>
        rw [scanEach_cons_of_ok hscan] at h
        obtain ⟨before, first, later, rfl, hbefore, hfirst⟩ := ih hlater h
        exact ⟨line :: before, first, later, rfl, (scanEach_cons_of_ok hscan before).trans hbefore,
          hfirst⟩
      | some fault₁ =>
        rw [scanEach_cons_of_fault hscan] at h
        cases h
        obtain rfl := record_of_scan_fault hline hscan
        exact ⟨[], line, lines, rfl, rfl, hscan⟩

/-- A buffer that is read and does not end in a pair with an empty value acts as if it were scanned
first, and what comes behind it after that.  A buffer that is at fault is at fault in the same way
whatever comes behind it, unless its end makes it so: it ends inside of a name or a value, or its
last value, which is empty there, is at fault.  So a buffer of lines whose values are not empty acts
like its lines scanned one by one, up to the first that is at fault; what the lines in front of that
have stored remains. -/
theorem scan_joined (r : Record) :
    (∀ x r', r.scan x = ⟨r', none⟩ → ¬ EndsOpen x → ∀ y, r.scan (x ++ y) = r'.scan y) ∧
      (∀ x r' fault, r.scan x = ⟨r', some fault⟩ → fault ≠ .unterminated →
        ¬ r.FailsOpen x fault → ∀ y, r.scan (x ++ y) = ⟨r', some fault⟩) ∧
      ∀ bs, (∀ line ∈ Bytes.lines bs, ∀ f, ¬ Field.IsLine f [] line) →
        r.scan bs = r.scanEach (Bytes.lines bs) ∧
        ∀ r' fault, r.scan bs = ⟨r', some fault⟩ →
          ∃ before line later, Bytes.lines bs = before ++ line :: later ∧
            r.scanEach before = ⟨r', none⟩ ∧ r'.scan line = ⟨r', some fault⟩ := by
  refine ⟨?_, ?_, ?_⟩
  · intro x r' h hopen
    exact scan_append_of_ok h hopen
  · intro x r' fault h hfault hopen
    exact scan_append_of_fault h hfault hopen
  · intro bs hvalues
    have heach := r.scan_eq_scanEach bs hvalues
    refine ⟨heach, fun r' fault h => exists_of_scanEach_fault ?_ (heach.symm.trans h)⟩
    intro line hline
    exact Bytes.newline_not_mem_dropLast_of_mem_lines hline

/-- A value may look like a name, and a fault is found although the buffer ends in front of a
value. -/
theorem scan_joined_kdf :
    (empty.scan (Utf8.encode "kdf: id:\n") = ⟨{ empty with kdf := some "id:" }, none⟩ ∧
        ¬ EndsOpen (Utf8.encode "kdf: id:\n") ∧
        empty.scan (Utf8.encode "kdf: id:\n" ++ Utf8.encode "kdf: b\n") =
          Record.scan { empty with kdf := some "id:" } (Utf8.encode "kdf: b\n")) ∧
      (empty.scan (Utf8.encode "kdf: a\nrounds: x\nid:") =
          ⟨{ empty with kdf := some "a" }, some .malformed⟩ ∧
        ¬ empty.FailsOpen (Utf8.encode "kdf: a\nrounds: x\nid:") .malformed ∧
        empty.scan (Utf8.encode "kdf: a\nrounds: x\nid:" ++ Utf8.encode "00\n") =
          ⟨{ empty with kdf := some "a" }, some .malformed⟩) ∧
      (∀ line ∈ Bytes.lines (Utf8.encode "kdf: a\nid: 0\n"), ∀ f, ¬ Field.IsLine f [] line) ∧
        empty.scan (Utf8.encode "kdf: a\nid: 0\n") =
          empty.scanEach [Utf8.encode "kdf: a\n", Utf8.encode "id: 0\n"] := by
  obtain ⟨hok, hfault, hlines⟩ := scan_joined empty
  have hread : empty.scan (Utf8.encode "kdf: id:\n") =
      ⟨{ empty with kdf := some "id:" }, none⟩ := by
    decide +kernel
  have hfaulty : empty.scan (Utf8.encode "kdf: a\nrounds: x\nid:") =
      ⟨{ empty with kdf := some "a" }, some .malformed⟩ := by
    decide +kernel
  have hclosed : ¬ EndsOpen (Utf8.encode "kdf: id:\n") := by
    intro h
    obtain ⟨f, pairs, hopen⟩ := h
    have hphase : ((⟨.blank, empty⟩ : Reading).takeAll (Utf8.encode "kdf: id:\n")).phase =
        .blank := by
      decide +kernel
    rcases Reading.takeAll_of_openPair empty hopen with hgap | ⟨fault, hfailed⟩
    · rw [hphase] at hgap
      cases hgap
    · rw [hphase] at hfailed
      cases hfailed
  have hinside : ¬ empty.FailsOpen (Utf8.encode "kdf: a\nrounds: x\nid:") .malformed := by
    intro h
    obtain ⟨f, pairs, r', -, -, happly⟩ := h
    -- an empty value is no number or too short, or its field has a value
    cases f with
    | kdf =>
      have hput : r'.put .kdf (Utf8.decodeLossy []) = .error .malformed := happly
      unfold put at hput
      split at hput <;> cases hput
    | _ => cases happly
  have hvalues : ∀ line ∈ Bytes.lines (Utf8.encode "kdf: a\nid: 0\n"),
      ∀ f, ¬ Field.IsLine f [] line := by
    have hcut : Bytes.lines (Utf8.encode "kdf: a\nid: 0\n") =
        [Utf8.encode "kdf: a\n", Utf8.encode "id: 0\n"] := by
      decide +kernel
    have hkdf : ((⟨.blank, empty⟩ : Reading).takeAll (Utf8.encode "kdf: a\n")).phase = .blank := by
      decide +kernel
    have hid : ((⟨.blank, empty⟩ : Reading).takeAll (Utf8.encode "id: 0\n")).phase =
        .failed (.wrongLength .id 8) := by
      decide +kernel
    intro line hline f h
    rw [hcut, List.mem_cons, List.mem_singleton] at hline
    have hgap := congrArg Reading.phase (Reading.takeAll_isLine empty h)
    rcases hline with rfl | rfl
    · rw [hkdf] at hgap
      cases hgap
    · rw [hid] at hgap
      cases hgap
  refine ⟨⟨hread, hclosed, hok _ _ hread hclosed _⟩,
    ⟨hfaulty, hinside, hfault _ _ _ hfaulty (by decide) hinside _⟩, hvalues, ?_⟩
  exact (hlines _ hvalues).1

end Record

end SigningKeys
