import SigningKeys.Proofs.CompleteRecords
import SigningKeys.Proofs.Lines

/-!
# The audit trail of a load

Loading a key leaves a trail that tells how it went.  A container that is refused before its shape
is known leaves one line if it does not begin as it should, and none otherwise.  From then on there
is the shape, a warning if the password source has been asked and has not kept to the rules, and
last the outcome, which names the key by the digest of its identifier and a failure by the class of
its error.  A load that is to lock its secret into memory may also tell that it could not; whether
it can is not modelled, so the trail is that of loads that do not try.

The trail is read as its lines: the level and the text of each event.

## Main definitions

* `Event.line`: the line of an event.
* `Stream.OpensOtherwise`: streams whose first line is read and is not the right one.
* `PasswordSource.Warns`: the warnings that a source gives rise to.
* `KeyError.toldAs`: the level and the name under which a failure is told.
* `SecretKey.outcomeLine`: the line that tells how unlocking ended.

## Main results

* `Record.events_parse`: a container is refused with an event for its first line only.
* `Record.tellsWarning_recoverSecret`: asking for a password leaves its warning and nothing else.
* `SecretKey.load_leaves_trail`: **the trail of every load, line by line.**
-/

namespace SigningKeys

/-- The line of an event: its level and its text. -/
def Event.line (e : Event) : Level × String := (e.level, e.message)

/-! ### Containers that are refused -/

/-- The first line of the stream is whole and not too long, and it is not the first line of a
private key container. -/
def Stream.OpensOtherwise (s : Stream) : Prop :=
  ∃ first later, Bytes.lines s.bytes = first :: later ∧ s.ending.Completes first ∧
    ¬ IsOverlong first ∧ lineBody first ≠ Utf8.encode Layout.privateMagic

namespace Record

/-- A container is refused with an event exactly if its first line is read and is not the right
one. -/
theorem events_parse (s : Stream) :
    (s.OpensOtherwise → (parse s).events = [.rejected "private key" "magic line mismatch"] ∧
      (parse s).result = .error (.format .wrongMagic)) ∧
    (¬ s.OpensOtherwise → (parse s).events = []) := by
  obtain ⟨bs, e⟩ := s
  constructor
  · intro h
    obtain ⟨first, later, hlines, hwhole, hlong, hmagic⟩ := h
    obtain ⟨rest, -, hparse⟩ := parse_of_lines hlines hwhole
    rw [hparse, if_neg hlong, if_neg hmagic]
    exact ⟨rfl, rfl⟩
  · intro hright
    cases hlines : Bytes.lines bs with
    | nil =>
      obtain rfl : bs = [] := by rw [← Bytes.flatten_lines bs, hlines, List.flatten_nil]
      cases e <;> rfl
    | cons first later =>
      by_cases hwhole : e.Completes first
      · obtain ⟨rest, -, hparse⟩ := parse_of_lines hlines hwhole
        by_cases hlong : IsOverlong first
        · rw [hparse, if_pos hlong]
          rfl
        · have hmagic : lineBody first = Utf8.encode Layout.privateMagic := by
            by_contra hmagic
            exact hright ⟨_, _, hlines, hwhole, hlong, hmagic⟩
          rw [hparse, if_neg hlong, if_pos hmagic]
          rfl
      · obtain ⟨error, hline⟩ := Stream.line_of_lines_broken hlines hwhole
        simp only [parse, hline]
        rfl

theorem events_parse_of_ok {s : Stream} {r : Record} (h : (parse s).result = .ok r) :
    (parse s).events = [] := by
  refine (events_parse s).2 fun hother => ?_
  rw [((events_parse s).1 hother).2] at h
  cases h

end Record

/-! ### Warnings -/

/-- The warnings that a source gives rise to when it is asked: it has changed the end of the buffer,
or it has left that as it was and reports more bytes than it was told. -/
inductive PasswordSource.Warns (source : PasswordSource) (settings : LoadSettings)
    (entropy : Entropy) : String → Prop where
  /-- The end of the buffer is not as it was. -/
  | canary
      (h : settings.tail (source.answer (settings.buffer entropy) settings.capacity).1.toList ≠
        settings.tail (settings.buffer entropy).toList) :
    Warns source settings entropy "Password source wrote past its buffer; password discarded"
  /-- The end of the buffer is as it was, and the reported length is more than fits. -/
  | overrun {n : ℕ}
      (hkept : settings.tail (source.answer (settings.buffer entropy) settings.capacity).1.toList =
        settings.tail (settings.buffer entropy).toList)
      (hreported : (source.answer (settings.buffer entropy) settings.capacity).2 = some n)
      (hlong : settings.capacity < n) :
    Warns source settings entropy
      ("Password source reported " ++ Decimal.text n ++ " bytes for a " ++
        Decimal.text settings.capacity ++ " byte buffer")

namespace Outcome

variable {α β : Type}

/-- In the computation a source has been asked that gives rise to this warning. -/
def Warns (x : Outcome α) (source : Option PasswordSource) (settings : LoadSettings)
    (entropy : Entropy) (text : String) : Prop :=
  x.requests ≠ [] ∧ ∃ asked, source = some asked ∧ asked.Warns settings entropy text

/-- The events of the computation are the warning that it gives rise to, or none if it gives rise
to none. -/
def TellsWarning (x : Outcome α) (source : Option PasswordSource) (settings : LoadSettings)
    (entropy : Entropy) : Prop :=
  (∃ text, x.Warns source settings entropy text ∧ x.events.map Event.line = [(.warn, text)]) ∨
    (∀ text, ¬ x.Warns source settings entropy text) ∧ x.events = []

variable {x : Outcome α} {y : Outcome β} {source : Option PasswordSource} {settings : LoadSettings}
  {entropy : Entropy}

theorem tellsWarning_of_requests_eq_nil (hrequests : x.requests = []) (hevents : x.events = []) :
    x.TellsWarning source settings entropy :=
  .inr ⟨fun _ h => h.1 hrequests, hevents⟩

theorem TellsWarning.congr (h : x.TellsWarning source settings entropy)
    (hrequests : y.requests = x.requests) (hevents : y.events = x.events) :
    y.TellsWarning source settings entropy := by
  unfold TellsWarning Warns at h ⊢
  rw [hrequests, hevents]
  exact h

/-- What follows without any trace does not change the warning. -/
theorem TellsWarning.bind (h : x.TellsWarning source settings entropy) {f : α → Outcome β}
    (hevents : ∀ a, (f a).events = []) (hrequests : ∀ a, (f a).requests = []) :
    (x.bind f).TellsWarning source settings entropy := by
  cases hx : x.result with
  | error e =>
    refine h.congr ?_ (events_bind_of_error f hx)
    rw [Outcome.bind, hx]
  | ok a =>
    refine h.congr ?_ ?_
    · rw [requests_bind_of_ok f hx, hrequests, List.append_nil]
    · rw [events_bind_of_ok f hx, hevents, List.append_nil]

end Outcome

open Outcome (TellsWarning tellsWarning_of_requests_eq_nil)

theorem events_acceptPassword (capacity : ℕ) (canary buffer : Bytes) (reported : Option ℕ) :
    (acceptPassword capacity canary buffer reported).events =
      if buffer.drop capacity ≠ canary then [.canaryChanged]
      else
        match reported with
        | none => []
        | some n => if capacity < n then [.lengthOverrun n capacity] else [] := by
  unfold acceptPassword
  split
  · rfl
  · cases reported with
    | none => rfl
    | some n =>
      simp only
      split
      · rfl
      · split <;> rfl

theorem events_askPassword (asked : PasswordSource) {settings : LoadSettings} (entropy : Entropy)
    (hpos : settings.capacity ≠ 0) :
    (askPassword asked settings entropy).events =
      if settings.tail (asked.answer (settings.buffer entropy) settings.capacity).1.toList ≠
          settings.tail (settings.buffer entropy).toList then [.canaryChanged]
      else
        match (asked.answer (settings.buffer entropy) settings.capacity).2 with
        | none => []
        | some n => if settings.capacity < n then [.lengthOverrun n settings.capacity] else [] := by
  rw [LoadSettings.tail_buffer, askPassword, if_neg hpos]
  exact events_acceptPassword ..

/-- A source that is asked leaves its warning. -/
theorem tellsWarning_askPassword (asked : PasswordSource) (settings : LoadSettings)
    (entropy : Entropy) :
    (askPassword asked settings entropy).TellsWarning (some asked) settings entropy := by
  by_cases hzero : settings.capacity = 0
  · rw [askPassword, if_pos hzero]
    exact tellsWarning_of_requests_eq_nil rfl rfl
  have hasked : (askPassword asked settings entropy).requests ≠ [] := by
    rw [requests_askPassword, if_neg hzero]
    exact List.cons_ne_nil _ _
  have hevents := events_askPassword asked entropy hzero
  have hline : ∀ {text event}, asked.Warns settings entropy text → event.line = (.warn, text) →
      (askPassword asked settings entropy).events = [event] →
      (askPassword asked settings entropy).TellsWarning (some asked) settings entropy := by
    intro text event hwarns hline hevents
    refine .inl ⟨text, ⟨hasked, asked, rfl, hwarns⟩, ?_⟩
    rw [hevents, List.map_singleton, hline]
  by_cases hkept : settings.tail
      (asked.answer (settings.buffer entropy) settings.capacity).1.toList =
        settings.tail (settings.buffer entropy).toList
  · -- the end of the buffer is as it was, so the reported length decides
    rw [if_neg (not_not_intro hkept)] at hevents
    by_cases hlong : ∃ n, (asked.answer (settings.buffer entropy) settings.capacity).2 = some n ∧
        settings.capacity < n
    · obtain ⟨n, hreported, hlong⟩ := hlong
      simp only [hreported, if_pos hlong] at hevents
      exact hline (.overrun hkept hreported hlong) rfl hevents
    · refine .inr ⟨?_, ?_⟩
      · intro text h
        obtain ⟨-, _, hsource, hwarns⟩ := h
        cases hsource
        cases hwarns with
        | canary h => exact h hkept
        | overrun _ hreported h => exact hlong ⟨_, hreported, h⟩
      · rw [hevents]
        split
        · rfl
        · next n hreported => exact if_neg fun h => hlong ⟨n, hreported, h⟩
  · rw [if_pos hkept] at hevents
    exact hline (.canary hkept) rfl hevents

namespace Record

/-- Asking for a password leaves its warning; the rest of the unlocking leaves nothing. -/
theorem tellsWarning_recoverSecret (r : Record) (source : Option PasswordSource)
    (settings : LoadSettings) (entropy : Entropy) :
    (r.recoverSecret source settings entropy).TellsWarning source settings entropy := by
  cases source with
  | none => exact tellsWarning_of_requests_eq_nil rfl rfl
  | some asked =>
    cases hs : r.sealed with
    | error e =>
      rw [recoverSecret, hs]
      exact tellsWarning_of_requests_eq_nil rfl rfl
    | ok s =>
      rw [recoverSecret_of_sealed hs]
      refine (tellsWarning_askPassword asked settings entropy).bind ?_ ?_
      · intro password
        cases wrappingKey password s.salt s.rounds <;> rfl
      · intro password
        cases wrappingKey password s.salt s.rounds <;> rfl

end Record

/-! ### The outcome -/

/-- How a failure is told: at which level, and as what.  Refused passwords, those that give no key
among them, and missing sources are to be expected. -/
def KeyError.toldAs : KeyError → Level × String
  | .authentication _ | .keyDerivation _ => (.warn, "Authentication")
  | .passwordRequired => (.warn, "Configuration")
  | .inconsistent _ => (.error, "Consistency")
  | .format _ => (.error, "Format")
  | .io _ => (.error, "Io")

/-- The line that tells how the unlocking of a key ended, which is told of under this name. -/
def SecretKey.outcomeLine (key : String) : Except KeyError SecretKey → Level × String
  | .ok _ => (.info, "Key operation succeeded: unpack (key: " ++ key ++ ")")
  | .error e =>
    (e.toldAs.1, "Key operation failed: unpack (key: " ++ key ++ ", kind: " ++ e.toldAs.2 ++ ")")

namespace Record

variable {r : Record} {id : Bytes}

/-- The outcome is told of under the first six bytes of the digest of the identifier. -/
theorem line_unlockEvent (hid : r.id = some id) (result : Except KeyError SecretKey) :
    (r.unlockEvent result).line =
      SecretKey.outcomeLine ("#" ++ Hex.text ((Sha256.digest id).take 6)) result := by
  cases result with
  | ok key =>
    rw [unlockEvent, hid]
    rfl
  | error e =>
    rw [unlockEvent, hid]
    cases e <;> rfl

/-- Unlocking leaves the warning of its source, if there is one, and the outcome. -/
theorem unlock_leaves_outcome (hid : r.id = some id) (shape : Shape)
    (source : Option PasswordSource) (settings : LoadSettings) (entropy : Entropy) :
    let unlocked := r.unlock shape source settings entropy
    let key := "#" ++ Hex.text ((Sha256.digest id).take 6)
    ∃ warning, unlocked.events.map Event.line =
        warning ++ [SecretKey.outcomeLine key unlocked.result] ∧
      ((∃ text, unlocked.Warns source settings entropy text ∧ warning = [(.warn, text)]) ∨
        (∀ text, ¬ unlocked.Warns source settings entropy text) ∧ warning = []) := by
  intro unlocked key
  have hreport : ∀ x : Outcome SecretKey, x.TellsWarning source settings entropy →
      ∃ warning, (x.reporting r.unlockEvent).events.map Event.line =
          warning ++ [SecretKey.outcomeLine key x.result] ∧
        ((∃ text, x.Warns source settings entropy text ∧ warning = [(.warn, text)]) ∨
          (∀ text, ¬ x.Warns source settings entropy text) ∧ warning = []) := by
    intro x hx
    refine ⟨x.events.map Event.line, ?_, ?_⟩
    · rw [Outcome.events_reporting, List.map_append, List.map_singleton, line_unlockEvent hid]
    · rcases hx with hwarns | ⟨hnone, hevents⟩
      · exact .inl hwarns
      · exact .inr ⟨hnone, by rw [hevents]; rfl⟩
  cases shape with
  | plaintext => exact hreport _ (tellsWarning_of_requests_eq_nil rfl rfl)
  | encrypted => exact hreport _ (r.tellsWarning_recoverSecret source settings entropy)

end Record

namespace SecretKey

variable {stream : Stream} {source : Option PasswordSource} {settings : LoadSettings}
  {entropy : Entropy}

/-- A load that finds no shape leaves what parsing has left. -/
theorem events_load_of_refused (h : ∀ r, (Record.parse stream).result = .ok r →
    ∀ shape, r.shape settings.minRounds ≠ .ok shape) :
    (load stream source settings entropy).events = (Record.parse stream).events := by
  cases hparse : (Record.parse stream).result with
  | error e => exact Outcome.events_bind_of_error _ hparse
  | ok r =>
    cases hshape : r.shape settings.minRounds with
    | ok shape => exact absurd hshape (h r hparse shape)
    | error fault =>
      rw [load, Outcome.bind_eq, Outcome.events_bind_of_ok _ hparse, hshape, Outcome.bind_eq,
        Outcome.events_bind_of_error _ rfl, Outcome.events_ofExcept, List.append_nil]

/-- A load that finds a shape tells it first. -/
theorem events_load {r : Record} {shape : Shape} (hparse : (Record.parse stream).result = .ok r)
    (hshape : r.shape settings.minRounds = .ok shape) :
    (load stream source settings entropy).events =
      .shapeFound shape :: (r.unlock shape source settings entropy).events := by
  rw [load, Outcome.bind_eq, Outcome.events_bind_of_ok _ hparse, Record.events_parse_of_ok hparse,
    hshape]
  rfl

/-- Every load that locks no memory leaves one trail.  If parsing or the search for a shape fails,
it is one line if the first line has been read and is not the right one, and empty otherwise.  If
there is a shape, it is the shape, the warning of the source if that has been asked and gives rise
to one, and the outcome, which agrees with the result of the load and is told of under the first six
bytes of the SHA-256 digest of the identifier. -/
theorem load_leaves_trail (stream : Stream) (source : Option PasswordSource)
    (minRounds : UInt32) (bufferLength : ℕ) (entropy : Entropy) :
    let settings : LoadSettings := ⟨minRounds, bufferLength, false⟩
    let loaded := load stream source settings entropy
    let trail := loaded.events.map Event.line
    ((∀ r, (Record.parse stream).result = .ok r →
        ∀ shape, r.shape minRounds ≠ .ok shape) →
      (stream.OpensOtherwise →
        trail = [(.debug, "Rejected private key: magic line mismatch")]) ∧
      (¬ stream.OpensOtherwise → trail = [])) ∧
    ∀ r shape, (Record.parse stream).result = .ok r → r.shape minRounds = .ok shape →
      ∃ id warning, r.id = some id ∧
        trail = [(.debug, if shape = .encrypted then "Private key record is Encrypted"
            else "Private key record is Plaintext")] ++ warning ++
          [outcomeLine ("#" ++ Hex.text ((Sha256.digest id).take 6)) loaded.result] ∧
        ((∃ text, loaded.Warns source settings entropy text ∧ warning = [(.warn, text)]) ∨
          (∀ text, ¬ loaded.Warns source settings entropy text) ∧ warning = []) := by
  intro settings loaded trail
  constructor
  · intro hrefused
    have htrail : trail = (Record.parse stream).events.map Event.line :=
      congrArg _ (events_load_of_refused hrefused)
    obtain ⟨hother, hright⟩ := Record.events_parse stream
    constructor
    · intro h
      rw [htrail, (hother h).1]
      rfl
    · intro h
      rw [htrail, hright h]
      rfl
  · intro r shape hparse hshape
    obtain ⟨id, hid⟩ : ∃ id, r.id = some id := by
      cases shape with
      | encrypted =>
        obtain ⟨-, -, -, -, hid, -⟩ := Record.shape_eq_encrypted_iff.mp hshape
        exact Option.isSome_iff_exists.mp hid
      | plaintext =>
        obtain ⟨-, -, hid, -⟩ := Record.shape_eq_plaintext_iff.mp hshape
        exact Option.isSome_iff_exists.mp hid
    obtain ⟨warning, hunlock, hwarning⟩ :=
      Record.unlock_leaves_outcome hid shape source settings entropy
    refine ⟨id, warning, hid, ?_, ?_⟩
    · show (load stream source settings entropy).events.map Event.line = _
      have hname : (Event.shapeFound shape).line = (.debug, if shape = .encrypted then
          "Private key record is Encrypted" else "Private key record is Plaintext") := by
        cases shape <;> rfl
      rw [events_load hparse hshape, List.map_cons, hname, hunlock, ← result_load hparse hshape,
        List.append_assoc]
      rfl
    · unfold Outcome.Warns at hwarning ⊢
      rw [← requests_load hparse hshape] at hwarning
      exact hwarning

end SecretKey

/-- A source that fills the whole buffer with ones, its end as well, and reports one byte. -/
def PasswordSource.scribbling : PasswordSource where
  answer {n} _ _ := (Vector.replicate n 1, some 1)

open PasswordSource (scribbling)

/-- A source that writes too far is told of before the failure that it leads to. -/
theorem SecretKey.load_encryptedZeros_leaves_trail :
    (Record.parse (.ofBytes (Record.encryptedZeros (some 1)).text)).result =
        .ok (Record.encryptedZeros (some 1)) ∧
      (Record.encryptedZeros (some 1)).shape 1 = .ok .encrypted ∧
      (SecretKey.load (.ofBytes (Record.encryptedZeros (some 1)).text) (some scribbling)
          ⟨1, 11, false⟩ ⟨fun _ => 0⟩).events.map Event.line =
        [(.debug, "Private key record is Encrypted"),
          (.warn, "Password source wrote past its buffer; password discarded"),
          (.warn, "Key operation failed: unpack (key: #af5570f5a181, kind: Authentication)")] := by
  have hwf := (Record.reachable_encryptedZeros (some 1)).wellFormed
  have hparse : (Record.parse (.ofBytes (Record.encryptedZeros (some 1)).text)).result =
      .ok (Record.encryptedZeros (some 1)) := by
    rw [Record.parse_text hwf fun s hs => by cases hs; decide]
    exact congrArg _ (Record.reread_eq_self_iff.mpr fun s hs => by cases hs; decide)
  have hshape : (Record.encryptedZeros (some 1)).shape 1 = .ok .encrypted := by decide
  refine ⟨hparse, hshape, ?_⟩
  obtain ⟨-, htold⟩ := SecretKey.load_leaves_trail (.ofBytes (Record.encryptedZeros (some 1)).text)
    (some scribbling) 1 11 ⟨fun _ => 0⟩
  obtain ⟨id, warning, hid, htrail, hwarning⟩ := htold _ _ hparse hshape
  have hresult : (SecretKey.load (.ofBytes (Record.encryptedZeros (some 1)).text) (some scribbling)
      ⟨1, 11, false⟩ ⟨fun _ => 0⟩).result = .error (.authentication .bufferOverflow) := by
    rw [SecretKey.result_load hparse hshape]
    rfl
  have hchanged : LoadSettings.tail ⟨1, 11, false⟩ (scribbling.answer
      (LoadSettings.buffer ⟨1, 11, false⟩ ⟨fun _ => 0⟩) 1).1.toList ≠
        LoadSettings.tail ⟨1, 11, false⟩
          (LoadSettings.buffer ⟨1, 11, false⟩ ⟨fun _ => 0⟩).toList := by
    decide
  obtain rfl : warning =
      [(.warn, "Password source wrote past its buffer; password discarded")] := by
    rcases hwarning with ⟨text, ⟨-, _, hsource, hwarns⟩, rfl⟩ | ⟨hnone, -⟩
    · cases hsource
      cases hwarns with
      | canary => rfl
      | overrun hkept => exact absurd hkept hchanged
    · refine absurd ⟨?_, scribbling, rfl, .canary hchanged⟩ (hnone _)
      rw [SecretKey.requests_load hparse hshape]
      exact List.cons_ne_nil _ _
  have hkey : "#" ++ Hex.text ((Sha256.digest (List.replicate 8 0)).take 6) = "#af5570f5a181" := by
    decide +kernel
  cases hid
  rw [htrail, hresult]
  show [_] ++ [_] ++ [SecretKey.outcomeLine ("#" ++ Hex.text ((Sha256.digest
    (List.replicate 8 0)).take 6)) _] = _
  rw [hkey]
  rfl

end SigningKeys
