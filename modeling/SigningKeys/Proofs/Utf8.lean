import Mathlib.Data.List.Basic
import SigningKeys.Text.Utf8

/-!
# Reading back what is written as UTF-8

The lossy reader loses nothing of a byte string that is the UTF-8 form of a text.  It meets the
bytes of one character after the other, and each group of bytes is taken back to its character: the
ranges that `Utf8.lead` gives for the second byte are those in which the numbers of characters lie.

Bytes below 128 stand for themselves, in both directions, so the classes of bytes that the format
distinguishes can be looked for in a text or in its bytes.

## Main results

* `Utf8.decodeLossy_encode`: **a text is read back from its UTF-8 form.**
* `Utf8.mem_encode_iff`: an ASCII byte occurs in the UTF-8 form exactly if its character occurs.
* `Utf8.scan_ascii_cons`: the lossy reader takes an ASCII byte at the start of a character as it is.
-/

namespace SigningKeys

namespace Utf8

/-! ### What a leading byte promises -/

theorem lead_of_lt_128 {b : UInt8} (h : b.toNat < 128) : lead b = .ascii (Char.ofNat b.toNat) := by
  have hb : b < 0x80 := UInt8.lt_iff_toNat_lt.mpr h
  rw [lead, if_pos hb]

theorem lead_of_two_bytes {b : UInt8} (hlo : 194 ≤ b.toNat) (hhi : b.toNat < 224) :
    lead b = .opens ⟨0, 0x80, 0xBF, b.toNat % 32⟩ := by
  simp only [lead, UInt8.lt_iff_toNat_lt, UInt8.reduceToNat]
  rw [if_neg (by omega), if_neg (by omega), if_pos hhi]

theorem accepts_iff {p : Pending} {b : UInt8} :
    p.accepts b = true ↔ p.lo.toNat ≤ b.toNat ∧ b.toNat ≤ p.hi.toNat := by
  simp only [Pending.accepts, Bool.and_eq_true, decide_eq_true_eq, UInt8.le_iff_toNat_le]

/-- The first two bytes of a three-byte character: the second lies in the range that the first
leaves for it, if together they begin a number from 0x800 on that is no surrogate. -/
theorem lead_of_three_bytes {b s : UInt8} (hlo : 224 ≤ b.toNat) (hhi : b.toNat < 240)
    (hs : 128 ≤ s.toNat ∧ s.toNat < 192) (hmin : 32 ≤ b.toNat % 16 * 64 + s.toNat % 64)
    (hsur : b.toNat % 16 * 64 + s.toNat % 64 < 864 ∨ 896 ≤ b.toNat % 16 * 64 + s.toNat % 64) :
    ∃ lo hi, lead b = .opens ⟨1, lo, hi, b.toNat % 16⟩ ∧
      (⟨1, lo, hi, b.toNat % 16⟩ : Pending).accepts s = true := by
  simp only [lead, UInt8.lt_iff_toNat_lt, ← UInt8.toNat_inj, UInt8.reduceToNat, accepts_iff]
  rw [if_neg (by omega), if_neg (by omega), if_neg (by omega)]
  by_cases hE0 : b.toNat = 224
  · -- overlong forms are ruled out by a larger least second byte
    refine ⟨0xA0, 0xBF, ?_, ?_⟩
    · rw [if_pos hE0, hE0]
    · simp only [UInt8.reduceToNat]; omega
  by_cases hED : b.toNat = 237
  · -- surrogates are ruled out by a smaller greatest second byte
    refine ⟨0x80, 0x9F, ?_, ?_⟩
    · rw [if_neg hE0, if_pos hED, hED]
    · simp only [UInt8.reduceToNat]; omega
  · refine ⟨0x80, 0xBF, ?_, ?_⟩
    · rw [if_neg hE0, if_neg hED, if_pos hhi]
    · simp only [UInt8.reduceToNat]; omega

/-- The first two bytes of a four-byte character: the second lies in the range that the first
leaves for it, if together they begin a number from 0x10000 to 0x10FFFF. -/
theorem lead_of_four_bytes {b s : UInt8} (hlo : 240 ≤ b.toNat) (hhi : b.toNat < 245)
    (hs : 128 ≤ s.toNat ∧ s.toNat < 192) (hmin : 16 ≤ b.toNat % 8 * 64 + s.toNat % 64)
    (hmax : b.toNat % 8 * 64 + s.toNat % 64 < 272) :
    ∃ lo hi, lead b = .opens ⟨2, lo, hi, b.toNat % 8⟩ ∧
      (⟨2, lo, hi, b.toNat % 8⟩ : Pending).accepts s = true := by
  simp only [lead, UInt8.lt_iff_toNat_lt, ← UInt8.toNat_inj, UInt8.reduceToNat, accepts_iff]
  rw [if_neg (by omega), if_neg (by omega), if_neg (by omega), if_neg (by omega),
    if_neg (by omega), if_neg (by omega)]
  by_cases hF0 : b.toNat = 240
  · refine ⟨0x90, 0xBF, ?_, ?_⟩
    · rw [if_pos hF0, hF0]
    · simp only [UInt8.reduceToNat]; omega
  by_cases hF4 : b.toNat < 244
  · refine ⟨0x80, 0xBF, ?_, ?_⟩
    · rw [if_neg hF0, if_pos hF4]
    · simp only [UInt8.reduceToNat]; omega
  · refine ⟨0x80, 0x8F, ?_, ?_⟩
    · rw [if_neg hF0, if_neg hF4, if_pos (by omega), show b.toNat = 244 by omega]
    · simp only [UInt8.reduceToNat]; omega

/-! ### Reading the bytes of one character -/

theorem scan_of_opens {b : UInt8} {p : Pending} (h : lead b = .opens p) (rest : Bytes) :
    scan none (b :: rest) = scan (some p) rest := by
  rw [scan, h]

/-- An ASCII byte at the start of a character is taken as it is. -/
theorem scan_ascii_cons {b : UInt8} (h : b.toNat < 128) (rest : Bytes) :
    scan none (b :: rest) = Char.ofNat b.toNat :: scan none rest := by
  rw [scan, lead_of_lt_128 h]

/-- The last byte of a character closes it. -/
theorem scan_last {p : Pending} {b : UInt8} (h : p.accepts b = true) (hp : p.after = 0)
    (rest : Bytes) : scan (some p) (b :: rest) = Char.ofNat (p.extend b) :: scan none rest := by
  obtain ⟨after, lo, hi, bits⟩ := p
  subst hp
  rw [scan, if_pos h]

/-- A byte before the last keeps the character open. -/
theorem scan_inner {p : Pending} {b : UInt8} {n : ℕ} (h : p.accepts b = true)
    (hp : p.after = n + 1) (rest : Bytes) :
    scan (some p) (b :: rest) = scan (some ⟨n, 0x80, 0xBF, p.extend b⟩) rest := by
  obtain ⟨after, lo, hi, bits⟩ := p
  subst hp
  rw [scan, if_pos h]

theorem ofNat_toNat_char {c : Char} {n : ℕ} (h : n = c.val.toNat) : Char.ofNat n = c := by
  rw [h]
  exact Char.ofNat_toNat c

/-- **The bytes of a character are read as that character**, whatever follows them. -/
theorem scan_utf8EncodeChar (c : Char) (rest : Bytes) :
    scan none (String.utf8EncodeChar c ++ rest) = c :: scan none rest := by
  have hvalid : c.val.toNat < 55296 ∨ 57343 < c.val.toNat ∧ c.val.toNat < 1114112 := c.valid
  have htoNat : ∀ n : ℕ, n < 256 → (UInt8.ofNat n).toNat = n := fun n hn => by
    rw [UInt8.toNat_ofNat']; omega
  simp only [String.utf8EncodeChar]
  generalize hv : c.val.toNat = v at hvalid
  have hback : ∀ n : ℕ, n = v → Char.ofNat n = c := fun n hn => ofNat_toNat_char (hn.trans hv.symm)
  split
  · -- one byte
    have hb := htoNat v (by omega)
    rw [List.singleton_append, scan_ascii_cons (by omega), hb, hback v rfl]
  split
  · -- two bytes
    have hb := htoNat (v / 64 % 32 + 192) (by omega)
    have hs := htoNat (v % 64 + 128) (by omega)
    rw [List.cons_append, List.singleton_append,
      scan_of_opens (lead_of_two_bytes (by omega) (by omega)),
      scan_last (accepts_iff.mpr (by simp only [UInt8.reduceToNat]; omega)) rfl,
      Pending.extend, hback _ (by simp only [hb, hs]; omega)]
  split
  · -- three bytes
    have hb := htoNat (v / 4096 % 16 + 224) (by omega)
    have hs := htoNat (v / 64 % 64 + 128) (by omega)
    have ht := htoNat (v % 64 + 128) (by omega)
    obtain ⟨lo, hi, hlead, hacc⟩ :=
      lead_of_three_bytes (b := .ofNat (v / 4096 % 16 + 224)) (s := .ofNat (v / 64 % 64 + 128))
        (by omega) (by omega) (by omega) (by omega) (by omega)
    rw [List.cons_append, List.cons_append, List.singleton_append, scan_of_opens hlead,
      scan_inner hacc rfl,
      scan_last (accepts_iff.mpr (by simp only [UInt8.reduceToNat]; omega)) rfl,
      hback _ (by simp only [Pending.extend, hb, hs, ht]; omega)]
  · -- four bytes
    have hb := htoNat (v / 262144 % 8 + 240) (by omega)
    have hs := htoNat (v / 4096 % 64 + 128) (by omega)
    have ht := htoNat (v / 64 % 64 + 128) (by omega)
    have hu := htoNat (v % 64 + 128) (by omega)
    obtain ⟨lo, hi, hlead, hacc⟩ :=
      lead_of_four_bytes (b := .ofNat (v / 262144 % 8 + 240)) (s := .ofNat (v / 4096 % 64 + 128))
        (by omega) (by omega) (by omega) (by omega) (by omega)
    rw [List.cons_append, List.cons_append, List.cons_append, List.singleton_append,
      scan_of_opens hlead, scan_inner hacc rfl,
      scan_inner (accepts_iff.mpr (by simp only [UInt8.reduceToNat]; omega)) rfl,
      scan_last (accepts_iff.mpr (by simp only [UInt8.reduceToNat]; omega)) rfl,
      hback _ (by simp only [Pending.extend, hb, hs, ht, hu]; omega)]

/-- A text is read back from its UTF-8 form. -/
theorem decodeLossy_encode (s : String) : decodeLossy (encode s) = s := by
  have key : ∀ cs : List Char, scan none (cs.flatMap String.utf8EncodeChar) = cs := by
    intro cs
    induction cs with
    | nil => rfl
    | cons c cs ih => rw [List.flatMap_cons, scan_utf8EncodeChar, ih]
  rw [decodeLossy, encode, key, String.ofList_toList]

/-! ### ASCII bytes stand for themselves -/

theorem utf8EncodeChar_of_ascii {c : Char} (h : c.toNat < 128) :
    String.utf8EncodeChar c = [UInt8.ofNat c.toNat] := by
  have h' : c.val.toNat ≤ 0x7f := Nat.lt_succ_iff.mp h
  rw [String.utf8EncodeChar, if_pos h']
  rfl

/-- The bytes of a character beyond ASCII are all beyond ASCII. -/
theorem le_of_mem_utf8EncodeChar {c : Char} (h : 128 ≤ c.toNat) {b : UInt8}
    (hb : b ∈ String.utf8EncodeChar c) : 128 ≤ b.toNat := by
  have hvalid : c.val.toNat < 55296 ∨ 57343 < c.val.toNat ∧ c.val.toNat < 1114112 := c.valid
  have h' : ¬ c.val.toNat ≤ 0x7f := Nat.not_le.mpr h
  simp only [String.utf8EncodeChar, if_neg h'] at hb
  split at hb
  · simp only [List.mem_cons, List.not_mem_nil, or_false] at hb
    rcases hb with rfl | rfl <;> rw [UInt8.toNat_ofNat'] <;> omega
  split at hb
  · simp only [List.mem_cons, List.not_mem_nil, or_false] at hb
    rcases hb with rfl | rfl | rfl <;> rw [UInt8.toNat_ofNat'] <;> omega
  · simp only [List.mem_cons, List.not_mem_nil, or_false] at hb
    rcases hb with rfl | rfl | rfl | rfl <;> rw [UInt8.toNat_ofNat'] <;> omega

theorem toNat_ofNat_of_valid {n : ℕ} (h : n.isValidChar) : (Char.ofNat n).toNat = n := by
  rw [Char.ofNat, dif_pos h]
  rfl

theorem toNat_ofNat_of_ascii {n : ℕ} (h : n < 128) : (Char.ofNat n).toNat = n :=
  toNat_ofNat_of_valid (Or.inl (by omega))

/-- An ASCII byte occurs among the bytes of a character only if it is that character. -/
theorem mem_utf8EncodeChar_iff {b : UInt8} (hb : b.toNat < 128) (c : Char) :
    b ∈ String.utf8EncodeChar c ↔ c = Char.ofNat b.toNat := by
  by_cases hc : c.toNat < 128
  · rw [utf8EncodeChar_of_ascii hc, List.mem_singleton]
    constructor
    · rintro rfl
      rw [UInt8.toNat_ofNat', Nat.mod_eq_of_lt (by omega), Char.ofNat_toNat]
    · rintro rfl
      rw [toNat_ofNat_of_ascii hb, UInt8.ofNat_toNat]
  · constructor
    · intro h
      have := le_of_mem_utf8EncodeChar (by omega) h
      omega
    · rintro rfl
      rw [toNat_ofNat_of_ascii hb] at hc
      omega

/-- An ASCII byte occurs in the UTF-8 form of a text exactly if its character occurs in the text. -/
theorem mem_encode_iff {b : UInt8} (hb : b.toNat < 128) (s : String) :
    b ∈ encode s ↔ Char.ofNat b.toNat ∈ s.toList := by
  simp only [encode, List.mem_flatMap, mem_utf8EncodeChar_iff hb, exists_eq_right]

/-- The UTF-8 form of a text ends in an ASCII byte exactly if the text ends in its character. -/
theorem getLast?_encode_iff {b : UInt8} (hb : b.toNat < 128) (s : String) :
    (encode s).getLast? = some b ↔ s.toList.getLast? = some (Char.ofNat b.toNat) := by
  rw [encode]
  rcases List.eq_nil_or_concat s.toList with h | ⟨cs, c, h⟩
  · simp [h]
  · have hne : String.utf8EncodeChar c ≠ [] := String.utf8EncodeChar_ne_nil
    -- the last byte of the text is the last byte of its last character
    rw [h, List.concat_eq_append, List.flatMap_append, List.flatMap_singleton,
      List.getLast?_append_of_ne_nil _ hne, List.getLast?_concat, Option.some_inj,
      ← mem_utf8EncodeChar_iff hb]
    by_cases hc : c.toNat < 128
    · rw [utf8EncodeChar_of_ascii hc]
      simp only [List.getLast?_singleton, Option.some_inj, List.mem_singleton, eq_comm]
    · constructor
      · exact List.mem_of_getLast?
      · intro h
        have := le_of_mem_utf8EncodeChar (by omega) h
        omega

/-! ### ASCII characters of a text that was read -/

/-- However the character under way goes on, its number lies beyond ASCII. -/
def Pending.Wide (p : Pending) : Prop :=
  128 ≤ p.lo.toNat ∧ p.hi.toNat < 192 ∧
    (2 ≤ p.bits ∨ p.after ≠ 0 ∧ 2 ≤ p.bits * 64 + p.lo.toNat % 64)

theorem Pending.Wide.extend {p : Pending} (hp : p.Wide) {b : UInt8} (hb : p.accepts b = true)
    {n : ℕ} : Pending.Wide ⟨n, 0x80, 0xBF, p.extend b⟩ := by
  obtain ⟨hlo, hhi, hbits⟩ := hp
  have hrange := accepts_iff.mp hb
  refine ⟨Nat.le_refl 128, Nat.lt_succ_self 191, Or.inl ?_⟩
  show 2 ≤ p.bits * 64 + b.toNat % 64
  omega

theorem Pending.Wide.le_extend {p : Pending} (hp : p.Wide) (hafter : p.after = 0) (b : UInt8) :
    128 ≤ p.extend b := by
  obtain ⟨-, -, hbits⟩ := hp
  rw [Pending.extend]
  omega

/-- A leading byte that opens a character opens one beyond ASCII. -/
theorem wide_of_lead {b : UInt8} {p : Pending} (h : lead b = .opens p) : p.Wide := by
  simp only [lead, UInt8.lt_iff_toNat_lt, ← UInt8.toNat_inj, UInt8.reduceToNat] at h
  have key : ∀ q : Pending, Lead.opens q = .opens p → q.Wide → p.Wide := by
    rintro q hq hw
    cases hq
    exact hw
  repeat' split at h
  all_goals first
    | cases h; done
    | refine key _ h ⟨?_, ?_, ?_⟩ <;> simp only [UInt8.reduceToNat] <;> omega

/-- Only an ASCII byte is read as a character on its own. -/
theorem lead_eq_ascii {b : UInt8} {c : Char} (h : lead b = .ascii c) :
    b.toNat < 128 ∧ c = Char.ofNat b.toNat := by
  by_cases hb : b.toNat < 128
  · rw [lead_of_lt_128 hb, Lead.ascii.injEq] at h
    exact ⟨hb, h.symm⟩
  · have hb' : ¬ b < 0x80 := by rw [UInt8.lt_iff_toNat_lt]; exact hb
    rw [lead, if_neg hb'] at h
    repeat' split at h
    all_goals cases h

theorem toNat_ofNat_of_le {n : ℕ} (h : 128 ≤ n) :
    (Char.ofNat n).toNat = 0 ∨ 128 ≤ (Char.ofNat n).toNat := by
  by_cases hn : n.isValidChar
  · exact Or.inr (by rw [toNat_ofNat_of_valid hn]; exact h)
  · left
    rw [Char.ofNat, dif_neg hn]
    rfl

/-- The first character that comes of a character under way is no visible or blank ASCII one. -/
theorem exists_scan_some {p : Pending} (hp : p.Wide) (bs : Bytes) :
    ∃ c cs, scan (some p) bs = c :: cs ∧ (c.toNat = 0 ∨ 128 ≤ c.toNat) := by
  induction bs generalizing p with
  | nil => exact ⟨replacement, [], rfl, Or.inr (by decide)⟩
  | cons b bs ih =>
    by_cases hb : p.accepts b = true
    · cases hafter : p.after with
      | zero => exact ⟨_, _, scan_last hb hafter bs, toNat_ofNat_of_le (hp.le_extend hafter b)⟩
      | succ n =>
        rw [scan_inner hb hafter]
        exact ih (hp.extend hb)
    · rw [scan_some_of_not_accepts (by simpa using hb)]
      exact ⟨replacement, _, rfl, Or.inr (by decide)⟩

/-- An ASCII character of a text that was read, the null character apart, comes from its byte. -/
theorem mem_of_mem_scan {c : Char} (h0 : c.toNat ≠ 0) (hc : c.toNat < 128) :
    ∀ (bs : Bytes) (p : Option Pending), (∀ q, p = some q → q.Wide) → c ∈ scan p bs →
      UInt8.ofNat c.toNat ∈ bs := by
  have hrep : c ≠ replacement := by
    rintro rfl
    exact absurd hc (by decide)
  intro bs
  induction bs with
  | nil =>
    intro p _ h
    cases p with
    | none => simp at h
    | some p => exact absurd (by simpa using h) hrep
  | cons b bs ih =>
    -- between characters the byte starts one, whatever came before
    have hnone : c ∈ scan none (b :: bs) → UInt8.ofNat c.toNat ∈ b :: bs := by
      intro h
      rw [scan] at h
      cases hlead : lead b with
      | ascii d =>
        obtain ⟨hb, rfl⟩ := lead_eq_ascii hlead
        simp only [hlead, List.mem_cons] at h
        rcases h with rfl | h
        · rw [toNat_ofNat_of_ascii hb, UInt8.ofNat_toNat]
          exact List.mem_cons_self
        · exact List.mem_cons_of_mem _ (ih none (by simp) h)
      | opens p =>
        simp only [hlead] at h
        refine List.mem_cons_of_mem _ (ih (some p) ?_ h)
        rintro q ⟨⟩
        exact wide_of_lead hlead
      | invalid =>
        simp only [hlead, List.mem_cons, hrep, false_or] at h
        exact List.mem_cons_of_mem _ (ih none (by simp) h)
    intro p hp h
    cases p with
    | none => exact hnone h
    | some p =>
      have hw := hp p rfl
      by_cases hb : p.accepts b = true
      · cases hafter : p.after with
        | zero =>
          rw [scan_last hb hafter, List.mem_cons] at h
          rcases h with rfl | h
          · have := toNat_ofNat_of_le (hw.le_extend hafter b)
            omega
          · exact List.mem_cons_of_mem _ (ih none (by simp) h)
        | succ n =>
          rw [scan_inner hb hafter] at h
          refine List.mem_cons_of_mem _ (ih _ ?_ h)
          rintro q ⟨⟩
          exact hw.extend hb
      · rw [scan_some_of_not_accepts (by simpa using hb), List.mem_cons] at h
        exact hnone (h.resolve_left hrep)

/-- Reading brings in no ASCII byte but the null byte. -/
theorem mem_of_mem_encode_decodeLossy {b : UInt8} (h0 : b ≠ 0) (hb : b.toNat < 128) {bs : Bytes}
    (h : b ∈ encode (decodeLossy bs)) : b ∈ bs := by
  have hne : b.toNat ≠ 0 := fun h => h0 (UInt8.toNat_inj.mp h)
  rw [mem_encode_iff hb, decodeLossy, String.toList_ofList] at h
  have := mem_of_mem_scan (by rwa [toNat_ofNat_of_ascii hb]) (by rwa [toNat_ofNat_of_ascii hb])
    bs none (by simp) h
  rwa [toNat_ofNat_of_ascii hb, UInt8.ofNat_toNat] at this

/-- A text that was read starts with an ASCII byte, the null byte apart, only if what was read
does. -/
theorem head?_of_head?_encode_decodeLossy {b : UInt8} (h0 : b ≠ 0) (hb : b.toNat < 128)
    {bs : Bytes} (h : (encode (decodeLossy bs)).head? = some b) : bs.head? = some b := by
  have hne : b.toNat ≠ 0 := fun h => h0 (UInt8.toNat_inj.mp h)
  -- a text whose first character is not that of the byte does not start with the byte
  have hfirst : ∀ (c : Char) (cs : List Char),
      (encode (String.ofList (c :: cs))).head? = some b → c = Char.ofNat b.toNat := by
    intro c cs h
    rw [encode_ofList, List.flatMap_cons,
      List.head?_append_of_ne_nil _ String.utf8EncodeChar_ne_nil] at h
    exact (mem_utf8EncodeChar_iff hb c).mp (List.mem_of_mem_head? h)
  cases bs with
  | nil => exact absurd h (by simp [decodeLossy, encode])
  | cons a bs =>
    rw [decodeLossy, scan] at h
    cases hlead : lead a with
    | ascii c =>
      obtain ⟨ha, rfl⟩ := lead_eq_ascii hlead
      simp only [hlead] at h
      have hab := congrArg Char.toNat (hfirst _ _ h)
      rw [toNat_ofNat_of_ascii ha, toNat_ofNat_of_ascii hb] at hab
      rw [List.head?_cons, UInt8.toNat_inj.mp hab]
    | opens p =>
      simp only [hlead] at h
      obtain ⟨c, cs, hscan, hc⟩ := exists_scan_some (wide_of_lead hlead) bs
      rw [hscan] at h
      have := congrArg Char.toNat (hfirst _ _ h)
      rw [toNat_ofNat_of_ascii hb] at this
      omega
    | invalid =>
      simp only [hlead] at h
      have := congrArg Char.toNat (hfirst _ _ h)
      rw [toNat_ofNat_of_ascii hb] at this
      have hrep : replacement.toNat = 65533 := by decide
      omega

end Utf8

end SigningKeys
