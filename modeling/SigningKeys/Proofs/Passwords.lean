import Mathlib.Data.Nat.Notation
import SigningKeys.PasswordSource
import SigningKeys.Proofs.Outcomes

/-!
# Passwords that sources give

A password is accepted exactly if its source has kept to the rules, whatever the source does to the
buffer.  A source is asked once, or never if the buffer has no room in front of the canary.

## Main definitions

* `PasswordSource.Gives`: the source keeps to the rules and gives a password.

## Main results

* `acceptPassword_of_changed`, `acceptPassword_of_long`, `acceptPassword_of_empty`: why a password is
  refused.
* `askPassword_eq_ok_iff`: **a password is accepted exactly if its source gives it.**
* `requests_askPassword`: how often a source is asked.
* `askPassword_fixed`, `gives_fixed_iff`: what becomes of a known password.
-/

namespace SigningKeys

/-- The buffer that a source is handed under some settings. -/
def LoadSettings.buffer (settings : LoadSettings) (entropy : Entropy) :
    Vector UInt8 (settings.capacity + (entropy.first Layout.canaryLength).length) :=
  guardedBuffer settings.capacity (entropy.first Layout.canaryLength)

/-- The bytes of the buffer that a source must not change. -/
def LoadSettings.tail (settings : LoadSettings) (buffer : Bytes) : Bytes :=
  buffer.drop settings.capacity

theorem LoadSettings.toList_buffer (settings : LoadSettings) (entropy : Entropy) :
    (settings.buffer entropy).toList =
      List.replicate settings.capacity 0 ++ entropy.first Layout.canaryLength := by
  simp [buffer, guardedBuffer]

theorem LoadSettings.tail_buffer (settings : LoadSettings) (entropy : Entropy) :
    settings.tail (settings.buffer entropy).toList = entropy.first Layout.canaryLength := by
  simp [tail, toList_buffer]

/-- The source leaves the last bytes of the buffer as they were, reports a length that is neither
zero nor more than it was told, and has filled that many bytes with the password. -/
def PasswordSource.Gives (source : PasswordSource) (settings : LoadSettings) (entropy : Entropy)
    (password : Bytes) : Prop :=
  let before := settings.buffer entropy
  let (after, reported) := source.answer before settings.capacity
  settings.tail after.toList = settings.tail before.toList ∧
    ∃ n, reported = some n ∧ 1 ≤ n ∧ n ≤ settings.capacity ∧ password = after.toList.take n

theorem acceptPassword_eq_ok_iff {capacity : ℕ} {canary buffer password : Bytes}
    {reported : Option ℕ} :
    (acceptPassword capacity canary buffer reported).result = .ok password ↔
      buffer.drop capacity = canary ∧
        ∃ n, reported = some n ∧ 1 ≤ n ∧ n ≤ capacity ∧ password = buffer.take n := by
  unfold acceptPassword
  by_cases hcanary : buffer.drop capacity = canary
  · rw [if_neg (not_not_intro hcanary)]
    cases reported with
    | none => simp
    | some n =>
      by_cases hlong : capacity < n
      · have hnot : ¬ n ≤ capacity := Nat.not_le.mpr hlong
        simp [hlong, hnot, Outcome.result_bind_of_ok _ (Outcome.result_log _)]
      by_cases hzero : n = 0
      · simp [hzero]
      · have hpos : 1 ≤ n := Nat.one_le_iff_ne_zero.mpr hzero
        simp [hlong, hzero, hcanary, hpos, Nat.not_lt.mp hlong, eq_comm]
  · rw [if_pos hcanary, Outcome.bind_eq, Outcome.result_bind_of_ok _ (Outcome.result_log _)]
    simp [hcanary]

section

variable {capacity : ℕ} {canary buffer : Bytes} {reported : Option ℕ}

/-- A canary that has changed is told, whatever the source reports. -/
theorem acceptPassword_of_changed (h : buffer.drop capacity ≠ canary) :
    (acceptPassword capacity canary buffer reported).result =
      .error (.authentication .bufferOverflow) := by
  unfold acceptPassword
  rw [if_pos h]
  exact Outcome.result_bind_of_ok _ (Outcome.result_log _)

theorem acceptPassword_of_long (h : buffer.drop capacity = canary) {n : ℕ}
    (hreported : reported = some n) (hlong : capacity < n) :
    (acceptPassword capacity canary buffer reported).result =
      .error (.authentication .bufferOverflow) := by
  subst hreported
  unfold acceptPassword
  rw [if_neg (not_not_intro h)]
  simp only [if_pos hlong]
  exact Outcome.result_bind_of_ok _ (Outcome.result_log _)

/-- A source that declines and one that reports no bytes are refused alike. -/
theorem acceptPassword_of_empty (h : buffer.drop capacity = canary)
    (hempty : reported = none ∨ reported = some 0) :
    (acceptPassword capacity canary buffer reported).result =
      .error (.authentication .notProvided) := by
  unfold acceptPassword
  rw [if_neg (not_not_intro h)]
  rcases hempty with rfl | rfl <;> rfl

end

theorem requests_acceptPassword (capacity : ℕ) (canary buffer : Bytes) (reported : Option ℕ) :
    (acceptPassword capacity canary buffer reported).requests = [] := by
  unfold acceptPassword
  split
  · rfl
  · split
    · rfl
    · split
      · rfl
      · split <;> rfl

theorem result_askPassword {source : PasswordSource} {settings : LoadSettings} (entropy : Entropy)
    (hpos : settings.capacity ≠ 0) :
    (askPassword source settings entropy).result =
      (acceptPassword settings.capacity (entropy.first Layout.canaryLength)
        (source.answer (settings.buffer entropy) settings.capacity).1.toList
        (source.answer (settings.buffer entropy) settings.capacity).2).result := by
  rw [askPassword, if_neg hpos, Outcome.bind_eq,
    Outcome.result_bind_of_ok _ (Outcome.result_request _)]
  rfl

/-- A password is accepted exactly if its source gives it. -/
theorem askPassword_eq_ok_iff {source : PasswordSource} {settings : LoadSettings}
    {entropy : Entropy} {password : Bytes} :
    (askPassword source settings entropy).result = .ok password ↔
      source.Gives settings entropy password := by
  by_cases hzero : settings.capacity = 0
  · -- no source is asked, and none could give a byte
    rw [askPassword, if_pos hzero]
    simp only [Outcome.result_error, reduceCtorEq, false_iff]
    rintro ⟨-, n, -, hpos, hle, -⟩
    omega
  · rw [result_askPassword entropy hzero, acceptPassword_eq_ok_iff]
    simp only [PasswordSource.Gives, LoadSettings.tail_buffer]
    rfl

/-- A source is asked once, unless the buffer has no room in front of the canary. -/
theorem requests_askPassword (source : PasswordSource) (settings : LoadSettings)
    (entropy : Entropy) :
    (askPassword source settings entropy).requests =
      if settings.capacity = 0 then []
      else [⟨(settings.buffer entropy).toList, settings.capacity⟩] := by
  rw [askPassword]
  split
  · rfl
  · rw [Outcome.bind_eq, Outcome.requests_bind_of_ok _ (Outcome.result_request _),
      requests_acceptPassword]
    rfl

/-! ### Known passwords -/

namespace PasswordSource

theorem answer_fixed_of_long {password : Bytes} {n capacity : ℕ} (buffer : Vector UInt8 n)
    (h : capacity < password.length) :
    (fixed password).answer buffer capacity = (buffer, none) := by
  simp only [fixed]
  rw [if_pos (Or.inr h)]

/-- The source of a known password writes it to the front of the buffer. -/
theorem answer_fixed_of_fits {password : Bytes} (hne : password ≠ []) {n capacity : ℕ}
    (buffer : Vector UInt8 n) (h : password.length ≤ capacity) (hn : password.length ≤ n) :
    ((fixed password).answer buffer capacity).1.toList =
        password ++ buffer.toList.drop password.length ∧
      ((fixed password).answer buffer capacity).2 = some password.length := by
  have hfit : ¬ (password = [] ∨ capacity < password.length) := by
    simp [hne, h]
  simp only [fixed]
  rw [if_neg hfit]
  refine ⟨List.ext_getElem (by simp; omega) ?_, rfl⟩
  intro i h₁ h₂
  -- bytes behind the password are the ones that the buffer held before
  by_cases hi : i < password.length
  · simp [List.getElem_append_left hi, Array.getD, hi]
  · have hadd : password.length + (i - password.length) = i := by omega
    simp [List.getElem_append_right (Nat.not_lt.mp hi), Array.getD, hi, hadd]

end PasswordSource

/-- What becomes of a known password that is not empty. -/
theorem askPassword_fixed {password : Bytes} (hne : password ≠ []) (settings : LoadSettings)
    (entropy : Entropy) :
    (askPassword (.fixed password) settings entropy).result =
      if settings.capacity = 0 then .error (.authentication .bufferTooSmall)
      else if settings.capacity < password.length then .error (.authentication .notProvided)
      else .ok password := by
  have htail := settings.tail_buffer entropy
  by_cases hzero : settings.capacity = 0
  · rw [askPassword, if_pos hzero, if_pos hzero]
    rfl
  rw [if_neg hzero, result_askPassword entropy hzero]
  by_cases hlong : settings.capacity < password.length
  · -- the source declines and leaves the buffer as it was
    rw [if_pos hlong, PasswordSource.answer_fixed_of_long _ hlong]
    exact acceptPassword_of_empty htail (.inl rfl)
  · have hfit := Nat.not_lt.mp hlong
    obtain ⟨hafter, hreported⟩ := PasswordSource.answer_fixed_of_fits hne
      (settings.buffer entropy) hfit (Nat.le_add_right_of_le hfit)
    -- the password lies in front of the canary
    have hdrop : (password ++ (settings.buffer entropy).toList.drop password.length).drop
        settings.capacity = entropy.first Layout.canaryLength := by
      rw [List.drop_append, List.drop_of_length_le hfit, List.nil_append, List.drop_drop,
        Nat.add_sub_cancel' hfit]
      exact htail
    rw [if_neg hlong, acceptPassword_eq_ok_iff, hafter, hreported]
    exact ⟨hdrop, _, rfl, List.length_pos_iff.mpr hne, hfit, by rw [List.take_left]⟩

/-- The source of a known password that fits gives that password and no other. -/
theorem gives_fixed_iff {password given : Bytes} (hne : password ≠ []) {settings : LoadSettings}
    {entropy : Entropy} :
    (PasswordSource.fixed password).Gives settings entropy given ↔
      password.length ≤ settings.capacity ∧ given = password := by
  rw [← askPassword_eq_ok_iff, askPassword_fixed hne]
  by_cases hzero : settings.capacity = 0
  · simp [hzero, hne]
  by_cases hlong : settings.capacity < password.length
  · have hnot : ¬ password.length ≤ settings.capacity := Nat.not_le.mpr hlong
    simp [hzero, hlong, hnot]
  · simp [hzero, hlong, Nat.not_lt.mp hlong, eq_comm]

theorem askPassword_fixed_of_small {password : Bytes} {settings : LoadSettings}
    (h : settings.capacity < password.length) (entropy : Entropy) :
    ∃ fault, (askPassword (.fixed password) settings entropy).result =
      .error (.authentication fault) := by
  have hne : password ≠ [] := List.ne_nil_of_length_pos (Nat.zero_lt_of_lt h)
  rw [askPassword_fixed hne]
  by_cases hzero : settings.capacity = 0
  · exact ⟨.bufferTooSmall, by rw [if_pos hzero]⟩
  · exact ⟨.notProvided, by rw [if_neg hzero, if_pos h]⟩

end SigningKeys
