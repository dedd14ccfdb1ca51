import SigningKeys.Proofs.Secrecy

/-!
# The guarded buffer

A source is handed a buffer of the length that the settings give, with zeros in front and the canary
behind them.  Whatever the source does to it, a password is accepted only if the canary comes back
as it was and the reported length lies in front of it; a canary that has changed is told before
anything that the source reports.

The canary is there to catch sources that write too far.  A source that keeps off the end of the
buffer never learns of it, and how a load ends does not depend on it either.

## Main definitions

* `PasswordSource.KeepsOffEnd`: sources that neither look at the end of the buffer nor change it.

## Main results

* `LoadSettings.exists_buffer`: the buffer that a source is handed.
* `PasswordSource.fixed_keepsOffEnd`: the source of a known password keeps off the end.
* `SecretKey.load_agree`: the canary makes no difference to a source that keeps off the end.
* `askPassword_guarded`: **which passwords are accepted, and that the canary tells nothing.**
-/

namespace SigningKeys

open Outcome (Agree)

/-! ### The buffer that is handed out -/

/-- Equal buffers get equal answers, also if their lengths are only known to be equal. -/
theorem PasswordSource.answer_congr (source : PasswordSource) {n m : ℕ} (h : n = m)
    {buffer : Vector UInt8 n} {buffer' : Vector UInt8 m} (hbuffer : buffer.toList = buffer'.toList)
    (capacity : ℕ) :
    (source.answer buffer capacity).1.toList = (source.answer buffer' capacity).1.toList ∧
      (source.answer buffer capacity).2 = (source.answer buffer' capacity).2 := by
  subst h
  obtain rfl : buffer = buffer' := Vector.toList_inj.mp hbuffer
  exact ⟨rfl, rfl⟩

namespace LoadSettings

variable {settings : LoadSettings}

/-- The buffer that a source is handed has the length that the settings give. -/
theorem exists_buffer (h : settings.capacity ≠ 0) (entropy : Entropy) :
    ∃ before : Vector UInt8 settings.bufferLength,
      before.toList = (settings.buffer entropy).toList ∧
        ∀ source : PasswordSource,
          (source.answer before settings.capacity).1.toList =
              (source.answer (settings.buffer entropy) settings.capacity).1.toList ∧
            (source.answer before settings.capacity).2 =
              (source.answer (settings.buffer entropy) settings.capacity).2 := by
  have hlength : settings.capacity + (entropy.first Layout.canaryLength).length =
      settings.bufferLength := by
    rw [Entropy.length_first]
    simp only [capacity] at h ⊢
    omega
  have hlist : ((settings.buffer entropy).cast hlength).toList =
      (settings.buffer entropy).toList := Vector.toList_cast ..
  exact ⟨_, hlist, fun source => source.answer_congr hlength.symm hlist settings.capacity⟩

end LoadSettings

/-! ### Sources that keep off the end -/

/-- The source neither looks at the end of the buffer, behind the bytes that it may fill, nor
changes it. -/
structure PasswordSource.KeepsOffEnd (source : PasswordSource) (settings : LoadSettings) :
    Prop where
  /-- The end of the buffer stays as it was. -/
  keeps : ∀ buffer : Vector UInt8 settings.bufferLength,
    settings.tail (source.answer buffer settings.capacity).1.toList = settings.tail buffer.toList
  /-- Buffers that differ in their ends only get answers that do so, and one reported length. -/
  blind : ∀ buffer buffer' : Vector UInt8 settings.bufferLength,
    buffer.toList.take settings.capacity = buffer'.toList.take settings.capacity →
      (source.answer buffer settings.capacity).1.toList.take settings.capacity =
          (source.answer buffer' settings.capacity).1.toList.take settings.capacity ∧
        (source.answer buffer settings.capacity).2 = (source.answer buffer' settings.capacity).2

namespace PasswordSource

variable {source : PasswordSource} {settings : LoadSettings}

/-- The source of a known password keeps off the end of the buffer. -/
theorem fixed_keepsOffEnd (password : Bytes) (settings : LoadSettings) :
    (fixed password).KeepsOffEnd settings := by
  by_cases hdeclines : password = [] ∨ settings.capacity < password.length
  · have hanswer : ∀ buffer : Vector UInt8 settings.bufferLength,
        (fixed password).answer buffer settings.capacity = (buffer, none) := by
      intro buffer
      simp only [fixed]
      rw [if_pos hdeclines]
    constructor
    · intro buffer
      rw [hanswer]
    · intro buffer buffer' hfront
      rw [hanswer, hanswer]
      exact ⟨hfront, rfl⟩
  · obtain ⟨hne, hlong⟩ := not_or.mp hdeclines
    have hfit : password.length ≤ settings.capacity := Nat.not_lt.mp hlong
    have hanswer := fun buffer : Vector UInt8 settings.bufferLength =>
      answer_fixed_of_fits hne buffer hfit (Nat.le_trans hfit (Nat.sub_le _ _))
    constructor
    · intro buffer
      rw [LoadSettings.tail, (hanswer buffer).1, List.drop_append, List.drop_of_length_le hfit,
        List.nil_append, List.drop_drop, Nat.add_sub_cancel' hfit, LoadSettings.tail]
    · intro buffer buffer' hfront
      refine ⟨?_, (hanswer buffer).2.trans (hanswer buffer').2.symm⟩
      rw [(hanswer buffer).1, (hanswer buffer').1, List.take_append, List.take_append,
        ← List.drop_take, ← List.drop_take, hfront]

/-- In two runs such a source is asked for one password. -/
theorem KeepsOffEnd.alike (h : source.KeepsOffEnd settings) (hroom : settings.capacity ≠ 0)
    (entropy entropy' : Entropy) :
    source.Alike settings entropy source entropy' ∧
      ∀ password password', source.Gives settings entropy password →
        source.Gives settings entropy' password' → password = password' := by
  obtain ⟨before, hbefore, hanswer⟩ := LoadSettings.exists_buffer hroom entropy
  obtain ⟨before', hbefore', hanswer'⟩ := LoadSettings.exists_buffer hroom entropy'
  obtain ⟨hafter, hreported⟩ := hanswer source
  obtain ⟨hafter', hreported'⟩ := hanswer' source
  have hfront : before.toList.take settings.capacity = before'.toList.take settings.capacity := by
    rw [hbefore, hbefore', LoadSettings.toList_buffer, LoadSettings.toList_buffer]
    simp
  obtain ⟨hgiven, hsame⟩ := h.blind before before' hfront
  have hkept := h.keeps before
  have hkept' := h.keeps before'
  rw [hafter, hbefore] at hkept
  rw [hafter', hbefore'] at hkept'
  rw [hafter, hafter'] at hgiven
  rw [hreported, hreported'] at hsame
  refine ⟨⟨hsame, iff_of_true hkept hkept'⟩, ?_⟩
  rintro password password' ⟨-, n, hn, -, hle, rfl⟩ ⟨-, n', hn', -, -, rfl⟩
  obtain rfl : n = n' := by
    rw [hn, hn', Option.some.injEq] at hsame
    exact hsame
  rw [← Nat.min_eq_left hle, ← List.take_take, ← List.take_take, hgiven]

end PasswordSource

/-! ### Two runs with different canaries -/

namespace Outcome

variable {α β : Type} {R S : α → β → Prop} {x x' : Outcome α} {y : Outcome β}

theorem Agree.refl (x : Outcome α) : Agree Eq x x := by
  obtain ⟨result, events, requests⟩ := x
  cases result with
  | ok a => exact .ok rfl
  | error e => exact .error

/-- Runs that agree have results that are related in any way in which all their results are. -/
theorem Agree.of_results (h : Agree R x y)
    (hS : ∀ a b, x.result = .ok a → y.result = .ok b → S a b) : Agree S x y := by
  cases h with
  | ok _ => exact .ok (hS _ _ rfl rfl)
  | error => exact .error

theorem Agree.eq (h : Agree Eq x x') : x.result = x'.result ∧ x.events = x'.events := by
  cases h with
  | ok hab => exact ⟨congrArg Except.ok hab, rfl⟩
  | error => exact ⟨rfl, rfl⟩

/-- Runs that agree agree to the end if they go on in the same way. -/
theorem Agree.bind_same (h : Agree Eq x x') (f : α → Outcome β) :
    Agree Eq (x.bind f) (x'.bind f) := by
  refine h.bind fun a b hab => ?_
  subst hab
  exact Agree.refl _

theorem Agree.reporting (h : Agree Eq x x') (report : Except KeyError α → Event) :
    Agree Eq (x.reporting report) (x'.reporting report) := by
  cases h with
  | ok hab =>
    subst hab
    exact .ok rfl
  | error => exact .error

end Outcome

namespace PasswordSource.KeepsOffEnd

variable {source : PasswordSource} {settings : LoadSettings}

theorem askPassword_agree (h : source.KeepsOffEnd settings) (entropy entropy' : Entropy) :
    Agree Eq (askPassword source settings entropy) (askPassword source settings entropy') := by
  by_cases hroom : settings.capacity = 0
  · rw [askPassword, askPassword, if_pos hroom, if_pos hroom]
    exact .error
  · obtain ⟨halike, hgiven⟩ := h.alike hroom entropy entropy'
    refine (SigningKeys.askPassword_agree halike).of_results fun password password' hp hp' => ?_
    exact hgiven password password' (askPassword_eq_ok_iff.mp hp) (askPassword_eq_ok_iff.mp hp')

theorem unlock_agree (h : source.KeepsOffEnd settings) (r : Record) (shape : Shape)
    (entropy entropy' : Entropy) :
    Agree Eq (r.unlock shape (some source) settings entropy)
      (r.unlock shape (some source) settings entropy') := by
  cases shape with
  | plaintext => exact Agree.refl _
  | encrypted =>
    have hrecover : Agree Eq (r.recoverSecret (some source) settings entropy)
        (r.recoverSecret (some source) settings entropy') := by
      refine (Agree.refl _).bind fun s s' hs => ?_
      subst hs
      exact (h.askPassword_agree entropy entropy').bind_same _
    exact hrecover.reporting r.unlockEvent

/-- The canary makes no difference to a source that keeps off the end of the buffer. -/
theorem load_agree (h : source.KeepsOffEnd settings) (stream : Stream)
    (entropy entropy' : Entropy) :
    Agree Eq (SecretKey.load stream (some source) settings entropy)
      (SecretKey.load stream (some source) settings entropy') := by
  refine (Agree.refl (Record.parse stream)).bind fun r r' hr => ?_
  subst hr
  refine (Agree.refl _).bind fun shape shape' hshape => ?_
  subst hshape
  exact (Agree.refl _).bind fun _ _ _ => h.unlock_agree r shape entropy entropy'

end PasswordSource.KeepsOffEnd

/-! ### The guard -/

/-- A source is handed a buffer of the length that the settings give, with zeros and behind them the
canary.  A password is accepted exactly if the last ten bytes come back as that canary and the
reported length is neither zero nor more than what is in front of it, and the password is so many of
the bytes that the source has left.  Anything else is refused: as an overflow if the canary has
changed, whatever is reported, or if more is reported than fits, and as no password if the source
declines or reports no bytes.  If the source keeps off the end of the buffer, a load ends in the
same way and leaves the same events under any other canary. -/
theorem askPassword_guarded {settings : LoadSettings} (hlength : 10 < settings.bufferLength)
    (source : PasswordSource) {entropy : Entropy} {canary : Bytes}
    (hcanary : entropy.first 10 = canary) :
    (∃ before : Vector UInt8 settings.bufferLength,
      before.toList = List.replicate (settings.bufferLength - 10) 0 ++ canary ∧
      let asked := askPassword source settings entropy
      let after := (source.answer before (settings.bufferLength - 10)).1.toList
      let reported := (source.answer before (settings.bufferLength - 10)).2
      let tail := after.drop (settings.bufferLength - 10)
      asked.requests = [⟨before.toList, settings.bufferLength - 10⟩] ∧
      (∀ password, asked.result = .ok password ↔
        tail = canary ∧ ∃ n, reported = some n ∧ 1 ≤ n ∧ n ≤ settings.bufferLength - 10 ∧
          password = after.take n) ∧
      ((∀ password, asked.result ≠ .ok password) →
        ∃ fault, asked.result = .error (.authentication fault)) ∧
      (tail ≠ canary → asked.result = .error (.authentication .bufferOverflow)) ∧
      (tail = canary →
        (∀ n, reported = some n → settings.bufferLength - 10 < n →
          asked.result = .error (.authentication .bufferOverflow)) ∧
        (reported = none ∨ reported = some 0 →
          asked.result = .error (.authentication .notProvided)))) ∧
    (source.KeepsOffEnd settings → ∀ stream entropy',
      (SecretKey.load stream (some source) settings entropy).result =
          (SecretKey.load stream (some source) settings entropy').result ∧
        (SecretKey.load stream (some source) settings entropy).events =
          (SecretKey.load stream (some source) settings entropy').events) := by
  have hroom : settings.capacity ≠ 0 := Nat.sub_ne_zero_of_lt hlength
  subst hcanary
  refine ⟨?_, fun h stream entropy' => (h.load_agree stream entropy entropy').eq⟩
  obtain ⟨before, hbefore, hanswer⟩ := LoadSettings.exists_buffer hroom entropy
  obtain ⟨hafter, hreported⟩ := hanswer source
  have hresult : (askPassword source settings entropy).result = _ :=
    result_askPassword entropy hroom
  rw [← hafter, ← hreported] at hresult
  refine ⟨before, hbefore.trans (settings.toList_buffer entropy), ?_, ?_, ?_, ?_, ?_⟩
  · rw [requests_askPassword, if_neg hroom, hbefore]
    rfl
  · intro password
    rw [hresult]
    exact acceptPassword_eq_ok_iff
  · intro hrefused
    cases hasked : (askPassword source settings entropy).result with
    | ok password => exact absurd hasked (hrefused password)
    | error e =>
      obtain ⟨fault, rfl⟩ := askPassword_eq_error hasked
      exact ⟨fault, rfl⟩
  · intro hchanged
    rw [hresult]
    exact acceptPassword_of_changed hchanged
  · intro hkept
    constructor
    · intro n hn hlong
      rw [hresult]
      exact acceptPassword_of_long hkept hn hlong
    · intro hempty
      rw [hresult]
      exact acceptPassword_of_empty hkept hempty

/-- A source that fills the whole buffer with ones, its end as well, and declines. -/
def PasswordSource.overwriting : PasswordSource where
  answer {n} _ _ := (Vector.replicate n 1, none)

/-- A source that declines is told to have written too far if it has.  A password of one byte fills
all that is in front of the canary, and no canary keeps a load under it from ending as it does. -/
theorem askPassword_overwriting :
    (askPassword .overwriting ⟨1, 11, false⟩ ⟨fun _ => 0⟩).result =
        .error (.authentication .bufferOverflow) ∧
      (askPassword (.fixed [97]) ⟨1, 11, false⟩ ⟨fun _ => 0⟩).result = .ok [97] ∧
      ∀ stream, (SecretKey.load stream (some (.fixed [97])) ⟨1, 11, false⟩ ⟨fun _ => 0⟩).result =
        (SecretKey.load stream (some (.fixed [97])) ⟨1, 11, false⟩ ⟨fun _ => 255⟩).result := by
  have hguarded := fun source => @askPassword_guarded ⟨1, 11, false⟩ (by decide) source
    ⟨fun _ => 0⟩ (List.replicate 10 0) rfl
  obtain ⟨⟨_, -, -, -, -, hchanged, -⟩, -⟩ := hguarded .overwriting
  obtain ⟨⟨before, hbefore, -, haccepted, -⟩, hload⟩ := hguarded (.fixed [97])
  have hoff := PasswordSource.fixed_keepsOffEnd [97] ⟨1, 11, false⟩
  have hfit : List.length [(97 : UInt8)] ≤ (LoadSettings.mk 1 11 false).bufferLength - 10 := by
    decide
  obtain ⟨hafter, hreported⟩ := PasswordSource.answer_fixed_of_fits (List.cons_ne_nil 97 [])
    before hfit (by decide)
  refine ⟨hchanged ?_, (haccepted [97]).mpr ?_, fun stream => (hload hoff stream _).1⟩
  · show (Vector.replicate 11 (1 : UInt8)).toList.drop 1 ≠ List.replicate 10 0
    decide
  · rw [hbefore] at hafter
    rw [hafter, hreported]
    exact ⟨rfl, 1, rfl, Nat.le_refl 1, Nat.le_refl 1, rfl⟩

end SigningKeys
